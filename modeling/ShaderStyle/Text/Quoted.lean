import ShaderStyle.Text.Basic
import ShaderStyle.Text.Printable

/-!
# Quoted text

Messages show a text between quotes in a form that has no line breaks and no invisible characters.
Single quotes are used, unless the text has a single quote and no double one. A backslash, the quote
in use, tab, line feed and carriage return are escaped by a backslash; every other character that is
not printable is written by its code point in the shortest of three widths.
-/

namespace ShaderStyle.Text

/-- A character that is not printable, by its code point. -/
def escapeByCode (c : Char) : Text :=
  if c.toNat ≤ 0xff then '\\' :: 'x' :: hexDigits 2 c.toNat
  else if c.toNat ≤ 0xffff then '\\' :: 'u' :: hexDigits 4 c.toNat
  else '\\' :: 'U' :: hexDigits 8 c.toNat

/-- One character of a text quoted by `quote`. -/
def quoteChar (quote c : Char) : Text :=
  if c = quote || c = '\\' then ['\\', c]
  else if c = '\t' then ['\\', 't']
  else if c = '\n' then ['\\', 'n']
  else if c = '\r' then ['\\', 'r']
  else if isPrintable c then [c]
  else escapeByCode c

/-- The quote that a text is shown in. -/
def quoteFor (t : Text) : Char :=
  if t.contains '\'' && !t.contains '"' then '"' else '\''

/-- The text as messages show it. -/
def quoted (t : Text) : Text :=
  let quote := quoteFor t
  quote :: t.flatMap (quoteChar quote) ++ [quote]

end ShaderStyle.Text
