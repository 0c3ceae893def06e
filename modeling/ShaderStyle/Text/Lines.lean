import ShaderStyle.Text.Basic

/-!
# Lines of a text

A line runs up to and including the character, or the carriage return and line feed, that ends it.
Besides carriage return and line feed, the vertical tab, the form feed, the information separators
and the line and paragraph separators end a line here.
-/

namespace ShaderStyle.Text

/-- The characters that end a line of a shown text. -/
def endsLine (c : Char) : Bool :=
  let n := c.toNat
  (0x0a ≤ n && n ≤ 0x0d) || (0x1c ≤ n && n ≤ 0x1e) || n = 0x85 || n = 0x2028 || n = 0x2029

/-- Puts a character in front of the first of some lines. -/
def consToFirst (c : Char) : List Text → List Text
  | [] => [[c]]
  | line :: more => (c :: line) :: more

/-- The lines of a text, each with the characters that end it. -/
def lines : Text → List Text
  | [] => []
  | '\r' :: '\n' :: rest => ['\r', '\n'] :: lines rest
  | c :: rest => if endsLine c then [c] :: lines rest else consToFirst c (lines rest)

end ShaderStyle.Text
