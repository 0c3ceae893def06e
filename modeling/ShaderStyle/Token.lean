import ShaderStyle.Position

/-!
# Tokens

A token is a classified piece of the source. Nothing of the source is left out: blanks, line breaks
and comments are tokens too, so that the texts of all tokens together are the source text.
-/

namespace ShaderStyle

/-- What kind of thing a built-in type is; the naming rules look at it. -/
inductive TypeCategory where
  | void
  | bool
  | integer
  | float
  | vector
  | matrix
  | texture
  | sampler
  | buffer
  | other
  deriving DecidableEq, Repr, Inhabited

namespace TypeCategory

/-- The category's name. -/
def name : TypeCategory → String
  | .void => "void"
  | .bool => "bool"
  | .integer => "integer"
  | .float => "float"
  | .vector => "vector"
  | .matrix => "matrix"
  | .texture => "texture"
  | .sampler => "sampler"
  | .buffer => "buffer"
  | .other => "other"

end TypeCategory

/-- The classes of words. Which class a word is in depends on the dialect alone. -/
inductive WordClass where
  | identifier
  | keyword
  | typeName (category : TypeCategory)
  deriving DecidableEq, Repr

/-- The kinds of tokens. Comments say whether they are documentation, and a directive gives its name,
which is empty when there is none. -/
inductive TokenKind where
  | word (cls : WordClass)
  | punctuation
  | operator
  | number
  | string
  | lineComment (doc : Bool)
  | blockComment (doc : Bool)
  | directive (name : Text)
  | whitespace
  | lineBreak
  | eof
  deriving DecidableEq, Repr

namespace TokenKind

/-- The kind's name in a listing. -/
def name : TokenKind → String
  | word .identifier => "identifier"
  | word .keyword => "keyword"
  | word (.typeName _) => "type_name"
  | punctuation => "punctuation"
  | operator => "operator"
  | number => "number"
  | string => "string"
  | lineComment false => "line_comment"
  | lineComment true => "doc_line_comment"
  | blockComment false => "block_comment"
  | blockComment true => "doc_block_comment"
  | directive _ => "preprocessor"
  | whitespace => "whitespace"
  | lineBreak => "line_break"
  | eof => "eof"

/-- Blanks and line breaks. -/
def isLayout : TokenKind → Bool
  | whitespace | lineBreak => true
  | _ => false

/-- Comments of every form. -/
def isComment : TokenKind → Bool
  | lineComment _ | blockComment _ => true
  | _ => false

/-- Layout and comments: what the structure of a program does not depend on. -/
def isTrivia (k : TokenKind) : Bool :=
  k.isLayout || k.isComment

end TokenKind

/-- A classified text that is not yet placed in the source. -/
structure Lexeme where
  kind : TokenKind
  text : Text
  deriving DecidableEq, Repr

/-- A lexeme with its place: the offset of its first character and the span it covers. -/
structure Token extends Lexeme where
  offset : Nat
  span : Span
  deriving DecidableEq, Repr

namespace Lexeme

/-- Whether this is the punctuation mark `c`. -/
def isMark (l : Lexeme) (c : Char) : Bool :=
  l.kind = .punctuation && l.text = [c]

/-- Whether this is the operator `op`. -/
def isOperator (l : Lexeme) (op : Text) : Bool :=
  l.kind = .operator && l.text = op

/-- Whether this is a word that is neither a keyword nor a type name. -/
def isIdentifier (l : Lexeme) : Bool :=
  l.kind = .word .identifier

/-- The text of a comment between its delimiters; a documentation mark belongs to the opening one.
Tokens that are no comments have no body. -/
def commentBody (l : Lexeme) : Text :=
  match l.kind with
  | .lineComment doc => l.text.drop (if doc then 3 else 2)
  | .blockComment doc => (l.text.take (l.text.length - 2)).drop (if doc then 3 else 2)
  | _ => []

end Lexeme

namespace Token

/-- The offset after the token's last character. -/
def stop (t : Token) : Nat :=
  t.offset + t.text.length

/-- The line on which the token starts. -/
def line (t : Token) : Int :=
  t.span.start.line

end Token

end ShaderStyle
