import ShaderStyle.Text.Basic

/-!
# Positions

Lines and columns of a text count from one. A position is a pair of integers, so that findings made
elsewhere can be ordered whatever they give as their place. `Position.advance` moves a position over a
text: a line break, two characters long or one, starts the next line, and any other character takes
one column.
-/

namespace ShaderStyle

/-- A line and a column. -/
structure Position where
  line : Int
  column : Int
  deriving DecidableEq, Repr, Inhabited

namespace Position

/-- The position where a text starts. -/
def origin : Position := ⟨1, 1⟩

/-- The start of the line after `p`'s. -/
def nextLine (p : Position) : Position := ⟨p.line + 1, 1⟩

/-- The position one column further. -/
def nextColumn (p : Position) : Position := ⟨p.line, p.column + 1⟩

/-- The position after the characters of a text that starts at `p`. -/
def advance (p : Position) : Text → Position
  | [] => p
  | '\r' :: '\n' :: rest => p.nextLine.advance rest
  | c :: rest => if Text.isBreak c then p.nextLine.advance rest else p.nextColumn.advance rest

/-- The position after a text, computed from the whole of it. -/
def after (t : Text) : Position :=
  origin.advance t

end Position

/-- A range of positions of the source: `start` is its first, `stop` the one after its last. -/
structure Span where
  start : Position
  stop : Position
  deriving DecidableEq, Repr, Inhabited

namespace Span

/-- The empty span at a position. -/
def empty (p : Position) : Span := ⟨p, p⟩

end Span

end ShaderStyle
