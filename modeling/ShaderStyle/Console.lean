import ShaderStyle.Event
import ShaderStyle.Text.Basic

/-!
# The console

What is shown is shown by a console, which is no part of this tool. A console may refuse an event: one
that reads markup, say, need not put up with a tag that closes nothing, and one whose stream is closed
shows nothing any more. So what a console does with an event is left open, and so is what it leaves of a
text that it shows in one style.
-/

namespace ShaderStyle

/-- A console. -/
structure Console where
  /-- Shows an event, or refuses it with a complaint; what was shown before may matter. -/
  print : (shown : List Event) → (event : Event) → Except String Unit
  /-- What is left of a text that is shown in one style. -/
  kept : Text → Text

namespace Console

/-- The console never refuses the event. -/
def Shows (console : Console) (event : Event) : Prop :=
  ∀ shown, console.print shown event = .ok ()

/-- The characters that a terminal would act on: the bell, the backspace, the vertical tab, the form feed
and the carriage return. -/
def isTerminalControl (c : Char) : Bool :=
  let n := c.toNat
  n = 7 || n = 8 || n = 11 || n = 12 || n = 13

/-- A text without the characters that a terminal would act on. -/
def withoutControls (t : Text) : Text :=
  t.filter fun c => !isTerminalControl c

/-- A console that refuses nothing, and leaves out of a text what a terminal would act on. -/
def plain : Console where
  print _ _ := .ok ()
  kept := withoutControls

end Console

end ShaderStyle
