import ShaderStyle.Dialect
import ShaderStyle.Text.Digit

/-!
# From text to tokens

Lexing has two steps. `lexemes` cuts the text into classified pieces: `scan` looks at the text in
front of it and says what the next piece is and how many characters belong to it after the first.
`place` then gives every piece its offset and its span. So a piece is never empty, the pieces are the
text, and the end of the loop needs no argument.

Lexing fails only on a literal or a block comment that is not closed; the failure says where it
starts.
-/

namespace ShaderStyle

/-- What was left open. -/
inductive OpenEnd where
  | string
  | character
  | blockComment
  deriving DecidableEq, Repr

namespace OpenEnd

/-- The wording for something left open. -/
def message : OpenEnd → String
  | .string => "unterminated string literal"
  | .character => "unterminated character literal"
  | .blockComment => "unterminated block comment"

end OpenEnd

/-- Something left open and where it starts. -/
structure LexFault where
  cause : OpenEnd
  offset : Nat
  position : Position
  deriving DecidableEq, Repr

namespace LexFault

/-- The fault as one line of text. -/
def describe (f : LexFault) : String :=
  "line " ++ toString f.position.line ++ ", column " ++ toString f.position.column ++ ": " ++
    f.cause.message

end LexFault

namespace Lexer

/-- Something left open at an offset of the text under the scanner. -/
structure Failure where
  cause : OpenEnd
  offset : Nat
  deriving DecidableEq, Repr

/-- The same failure seen from `n` characters before. -/
def Failure.shift (f : Failure) (n : Nat) : Failure :=
  { f with offset := n + f.offset }

/-- Puts `n` characters in front of what was measured. -/
def extend (n : Nat) : Except Failure Nat → Except Failure Nat
  | .ok m => .ok (n + m)
  | .error f => .error (f.shift n)

/-! ## Literals and comments -/

/-- The length of the rest of a literal, its closing quote included. A backslash takes the character
or the line break after it along; a line break by itself leaves the literal open. -/
def literalLength (quote : Char) : Text → Option Nat
  | [] => none
  | '\\' :: '\r' :: '\n' :: rest => (literalLength quote rest).map (3 + ·)
  | '\\' :: _ :: rest => (literalLength quote rest).map (2 + ·)
  | c :: rest =>
    if c = quote then some 1
    else if Text.isBreak c then none
    else (literalLength quote rest).map (1 + ·)

/-- The length of the rest of a block comment, its closing delimiter included. -/
def commentLength : Text → Option Nat
  | [] => none
  | '*' :: '/' :: _ => some 2
  | _ :: rest => (commentLength rest).map (1 + ·)

/-- Whether a line comment documents: three slashes and not four, or two and an exclamation mark. -/
def isDocLine : Text → Bool
  | '/' :: '/' :: '/' :: '/' :: _ => false
  | '/' :: '/' :: '/' :: _ => true
  | '/' :: '/' :: '!' :: _ => true
  | _ => false

/-- Whether a block comment documents: two stars or a star and an exclamation mark open it. -/
def isDocBlock (t : Text) : Bool :=
  match t with
  | ['/', '*', '*', '/'] => false
  | '/' :: '*' :: '*' :: _ => true
  | '/' :: '*' :: '!' :: _ => true
  | _ => false

/-! ## Directives -/

/-- The length of the rest of a quoted string inside a directive. It ends after its quote, before a
line break or with the text; a backslash takes the character or the line break after it along. -/
def quotedLength : Text → Nat
  | [] => 0
  | '\\' :: '\r' :: '\n' :: rest => 3 + quotedLength rest
  | '\\' :: _ :: rest => 2 + quotedLength rest
  | c :: rest =>
    if Text.isBreak c then 0
    else if c = '"' then 1
    else 1 + quotedLength rest

/-- The length of the rest of a directive. It ends before a line break or a line comment; a backslash
before a line break carries it on to the next line, and it runs through block comments and strings. -/
def directiveLength (t : Text) : Except Failure Nat :=
  match t with
  | [] => .ok 0
  | '\\' :: rest =>
    let skipped := Text.breakLength rest
    extend (1 + skipped) (directiveLength (rest.drop skipped))
  | '/' :: '/' :: _ => .ok 0
  | '/' :: '*' :: rest =>
    match commentLength rest with
    | none => .error ⟨.blockComment, 0⟩
    | some n => extend (2 + n) (directiveLength (rest.drop n))
  | '"' :: rest =>
    let n := quotedLength rest
    extend (1 + n) (directiveLength (rest.drop n))
  | c :: rest => if Text.isBreak c then .ok 0 else extend 1 (directiveLength rest)
termination_by t.length
decreasing_by all_goals (simp only [List.length_drop, List.length_cons]; omega)

/-- The name of a directive: the identifier after the hash sign and its blanks, if one is there. -/
def directiveName (rest : Text) : Text :=
  match rest.dropWhile (fun c => c = ' ' || c = '\t') with
  | [] => []
  | c :: more => if Text.isNameStart c then c :: more.takeWhile Text.isNameChar else []

/-! ## Numbers -/

/-- A hexadecimal digit. -/
def isHexDigit (c : Char) : Bool :=
  c.isDigit || ('a' ≤ c && c ≤ 'f') || ('A' ≤ c && c ≤ 'F')

/-- The letters that may follow a hexadecimal number. -/
def isIntegerSuffix (c : Char) : Bool :=
  c = 'u' || c = 'U' || c = 'l' || c = 'L'

/-- The letters that may follow a decimal number. -/
def isNumberSuffix (c : Char) : Bool :=
  isIntegerSuffix c || c = 'f' || c = 'F' || c = 'h' || c = 'H'

/-- The length of a sign at the start of a text, zero if there is none. -/
def signLength : Text → Nat
  | '+' :: _ => 1
  | '-' :: _ => 1
  | _ => 0

/-- The length of an exponent at the start of a text, zero if there is none. -/
def exponentLength : Text → Nat
  | [] => 0
  | e :: rest =>
    if e = 'e' || e = 'E' then
      let sign := signLength rest
      let digits := Text.leading Text.isDigit (rest.drop sign)
      if digits = 0 then 0 else 1 + sign + digits
    else 0

/-- The length of the digits and the point that follow the first character of a decimal number. -/
def mantissaLength (c : Char) (rest : Text) : Nat :=
  let whole := Text.leading Text.isDigit rest
  if c = '.' then whole
  else match rest.drop whole with
    | '.' :: more => whole + 1 + Text.leading Text.isDigit more
    | _ => whole

/-- The number of characters of a decimal number after its first. -/
def decimalLength (c : Char) (rest : Text) : Nat :=
  let mantissa := mantissaLength c rest
  let exponent := exponentLength (rest.drop mantissa)
  mantissa + exponent + Text.leading isNumberSuffix (rest.drop (mantissa + exponent))

/-- The number of characters of a hexadecimal number after its leading zero, none if it is not one. -/
def hexLength? (c : Char) (rest : Text) : Option Nat :=
  match rest with
  | x :: more =>
    let digits := Text.leading isHexDigit more
    if c = '0' && (x = 'x' || x = 'X') && 0 < digits then
      some (1 + digits + Text.leading isIntegerSuffix (more.drop digits))
    else none
  | [] => none

/-- The number of characters of a number after its first. -/
def numberLength (c : Char) (rest : Text) : Nat :=
  (hexLength? c rest).getD (decimalLength c rest)

/-! ## Marks and operators -/

/-- The punctuation marks. -/
def marks : Text :=
  ['(', ')', '[', ']', '{', '}', ';', ',', ':']

/-- The operators, longer ones first. -/
def operators : List Text :=
  [ ['<', '<', '='], ['>', '>', '='],
    ['+', '+'], ['-', '-'], ['<', '<'], ['>', '>'], ['<', '='], ['>', '='], ['=', '='],
    ['!', '='], ['&', '&'], ['|', '|'], ['+', '='], ['-', '='], ['*', '='], ['/', '='],
    ['%', '='], ['&', '='], ['|', '='], ['^', '='], ['-', '>'], [':', ':'],
    ['+'], ['-'], ['*'], ['/'], ['%'], ['='], ['<'], ['>'], ['!'], ['&'], ['|'], ['^'], ['~'],
    ['?'], ['.'] ]

/-- A mark or an operator. A character that is neither is kept as a mark of its own. -/
def scanSymbol (c : Char) (rest : Text) : TokenKind × Nat :=
  if marks.contains c && !(c = ':' && rest.head? = some ':') then (.punctuation, 0)
  else match operators.find? (·.isPrefixOf (c :: rest)) with
    | some op => (.operator, op.length - 1)
    | none => (.punctuation, 0)

/-! ## One piece -/

/-- A directive, without the pads at its end. -/
def scanDirective (rest : Text) : Except Failure (TokenKind × Nat) :=
  match directiveLength rest with
  | .error f => .error (f.shift 1)
  | .ok n => .ok (.directive (directiveName rest), (Text.trimPads (rest.take n)).length)

/-- A line comment. -/
def scanLineComment (rest : Text) : TokenKind × Nat :=
  let n := Text.leading (fun c => !Text.isBreak c) rest
  (.lineComment (isDocLine ('/' :: rest.take n)), n)

/-- A block comment, whose text after the opening delimiter is `body`. -/
def scanBlockComment (body : Text) : Except Failure (TokenKind × Nat) :=
  match commentLength body with
  | none => .error ⟨.blockComment, 0⟩
  | some n => .ok (.blockComment (isDocBlock ('/' :: '*' :: body.take n)), 1 + n)

/-- A string or character literal. -/
def scanLiteral (quote : Char) (rest : Text) : Except Failure (TokenKind × Nat) :=
  match literalLength quote rest with
  | none => .error ⟨if quote = '"' then .string else .character, 0⟩
  | some n => .ok (.string, n)

/-- Whether a number starts here: at a digit, or at a point before one. -/
def startsNumber (c : Char) (rest : Text) : Bool :=
  c.isDigit || (c = '.' && rest.head?.any Char.isDigit)

/-- The kind of the piece that starts with `c` and the number of characters it has after `c`.
`lineStart` says that only blanks stand before it on its line. -/
def scan (d : Dialect) (lineStart : Bool) (c : Char) (rest : Text) :
    Except Failure (TokenKind × Nat) :=
  if Text.isPad c then .ok (.whitespace, Text.leading Text.isPad rest)
  else if Text.isBreak c then .ok (.lineBreak, Text.breakLength (c :: rest) - 1)
  else if c = '#' && lineStart then scanDirective rest
  else if c = '/' && rest.head? = some '/' then .ok (scanLineComment rest)
  else if c = '/' && rest.head? = some '*' then scanBlockComment rest.tail
  else if c = '"' || c = '\'' then scanLiteral c rest
  else if startsNumber c rest then .ok (.number, numberLength c rest)
  else if Text.isNameStart c then
    let n := Text.leading Text.isNameChar rest
    .ok (.word (d.classify (c :: rest.take n)), n)
  else .ok (scanSymbol c rest)

/-- Whether only blanks stand before the piece after one of kind `k`. -/
def lineStartAfter (lineStart : Bool) : TokenKind → Bool
  | .whitespace => lineStart
  | .lineBreak => true
  | _ => false

/-- The pieces of a text, in order. -/
def lexemes (d : Dialect) (lineStart : Bool) (t : Text) : Except Failure (List Lexeme) :=
  match t with
  | [] => .ok []
  | c :: rest =>
    match scan d lineStart c rest with
    | .error f => .error f
    | .ok (kind, n) =>
      match lexemes d (lineStartAfter lineStart kind) (rest.drop n) with
      | .error f => .error (f.shift (1 + n))
      | .ok more => .ok (⟨kind, c :: rest.take n⟩ :: more)
termination_by t.length
decreasing_by simp only [List.length_drop, List.length_cons]; omega

/-! ## All pieces, placed -/

/-- The tokens for some pieces that start at `offset` and `position`, and the end of the source. -/
def place (offset : Nat) (position : Position) : List Lexeme → List Token
  | [] => [⟨⟨.eof, []⟩, offset, ⟨position, position⟩⟩]
  | l :: more =>
    let next := position.advance l.text
    ⟨l, offset, ⟨position, next⟩⟩ :: place (offset + l.text.length) next more

end Lexer

/-- The tokens of a source text, closed by the end-of-file token. -/
def tokenize (d : Dialect) (t : Text) : Except LexFault (List Token) :=
  match Lexer.lexemes d true t with
  | .error f => .error ⟨f.cause, f.offset, .after (t.take f.offset)⟩
  | .ok ls => .ok (Lexer.place 0 .origin ls)

end ShaderStyle
