/-!
# Text

Text is a list of characters. Offsets, columns and lengths count characters. Two small classes of
characters make up the layout of a source text:

* pads: the blanks that stand between two items of one line;
* line breaks: carriage return and line feed, a carriage return followed by a line feed being one
  break.
-/

namespace ShaderStyle

/-- A text, as its characters in order. -/
abbrev Text := List Char

namespace Text

/-- Space, tab, form feed or vertical tab: layout that does not end a line. -/
def isPad (c : Char) : Bool :=
  c = ' ' || c = '\t' || c = '\x0c' || c = '\x0b'

/-- Carriage return or line feed. -/
def isBreak (c : Char) : Bool :=
  c = '\r' || c = '\n'

/-- The length of the line break at the start of a text, zero if there is none. -/
def breakLength : Text → Nat
  | '\r' :: '\n' :: _ => 2
  | '\r' :: _ => 1
  | '\n' :: _ => 1
  | _ => 0

/-- The number of leading characters that satisfy `p`. -/
def leading (p : Char → Bool) (t : Text) : Nat :=
  (t.takeWhile p).length

/-- The text without the pads at its end. -/
def trimPads (t : Text) : Text :=
  (t.reverse.dropWhile isPad).reverse

/-- Replaces every line break by `ending`. -/
def withEnding (ending : Text) : Text → Text
  | [] => []
  | '\r' :: '\n' :: rest => ending ++ withEnding ending rest
  | c :: rest => (if isBreak c then ending else [c]) ++ withEnding ending rest

/-- The parts of a text between the characters `sep`. -/
def split (sep : Char) : Text → List Text
  | [] => [[]]
  | c :: rest =>
    if c = sep then [] :: split sep rest else (split sep rest).modifyHead (c :: ·)

/-- Whether a text comes before another in the order of code points, or is the same. -/
def inOrder : Text → Text → Bool
  | [], _ => true
  | _ :: _, [] => false
  | a :: s, b :: t => if a = b then inOrder s t else a.toNat < b.toNat

/-- The last `width` digits of `n` in lower-case hexadecimal. -/
def hexDigits : Nat → Nat → Text
  | 0, _ => []
  | width + 1, n => hexDigits width (n / 16) ++ [Nat.digitChar (n % 16)]

/-- An ASCII letter or the underscore, with which an identifier begins. -/
def isNameStart (c : Char) : Bool :=
  c.isAlpha || c = '_'

/-- An ASCII letter, digit or the underscore, with which an identifier goes on. -/
def isNameChar (c : Char) : Bool :=
  c.isAlphanum || c = '_'

@[simp] theorem leading_le (p : Char → Bool) (t : Text) : leading p t ≤ t.length := by
  unfold leading
  exact (List.takeWhile_sublist p).length_le

theorem breakLength_le (t : Text) : breakLength t ≤ t.length := by
  fun_cases breakLength t <;> simp

theorem length_trimPads_le (t : Text) : (trimPads t).length ≤ t.length := by
  have h := (List.dropWhile_sublist isPad (l := t.reverse)).length_le
  simpa [trimPads] using h

end Text

end ShaderStyle
