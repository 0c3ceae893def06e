import ShaderStyle.Diagnostic
import ShaderStyle.Token
import ShaderStyle.Text.Blank
import ShaderStyle.Text.Word

/-!
# Suppression

A comment whose first word is a marker switches rules off:

* `NOLINT` switches checks off on the line where the comment starts;
* `NOLINTBEGIN` and `NOLINTEND` enclose a region without checks;
* `NOFORMATBEGIN` and `NOFORMATEND` enclose a region that formatting leaves as it is.

The marker comments belong to their region. A region that is never closed runs to the end of the
file, and regions do not nest.
-/

namespace ShaderStyle

/-- What a region keeps out. -/
inductive Aspect where
  | format
  | check
  deriving DecidableEq, Repr

/-- The words that switch rules off and on. -/
inductive Marker where
  | line
  | opens (aspect : Aspect)
  | closes (aspect : Aspect)
  deriving DecidableEq, Repr

namespace Marker

/-- All markers. -/
def all : List Marker :=
  [.opens .check, .closes .check, .opens .format, .closes .format, .line]

/-- The marker's word. -/
def word : Marker → String
  | .line => "NOLINT"
  | .opens .check => "NOLINTBEGIN"
  | .closes .check => "NOLINTEND"
  | .opens .format => "NOFORMATBEGIN"
  | .closes .format => "NOFORMATEND"

/-- What may stand between a comment's delimiter and its marker. -/
def isLead (c : Char) : Bool :=
  Text.isBlank c || c = '/' || c = '!' || c = '*'

/-- The marker that is the first word of a text. -/
def ofBody? (body : Text) : Option Marker :=
  let first := (body.dropWhile isLead).takeWhile Text.isWordChar
  all.find? fun m => m.word.toList = first

/-- The marker that a token carries; only comments carry one. -/
def of? (l : Lexeme) : Option Marker :=
  if l.kind.isComment then ofBody? l.commentBody else none

end Marker

/-- For every token, whether formatting and checks are switched off there, and the findings about
the markers themselves. -/
structure Suppression where
  format : List Bool
  check : List Bool
  diagnostics : List Diagnostic
  deriving DecidableEq, Repr

namespace Suppression

/-- Whether each token lies in a region of an aspect; `inside` says whether a region is open before
the first of them. -/
def regionFlags (aspect : Aspect) (inside : Bool) : List Token → List Bool
  | [] => []
  | t :: more =>
    let marker := Marker.of? t.toLexeme
    if marker = some (.opens aspect) then true :: regionFlags aspect true more
    else if marker = some (.closes aspect) then inside :: regionFlags aspect false more
    else inside :: regionFlags aspect inside more

/-- The token that opened the region that is open after all tokens; `opener` opened the one before
them. -/
def openRegion (aspect : Aspect) (opener : Option Token) : List Token → Option Token
  | [] => opener
  | t :: more =>
    let marker := Marker.of? t.toLexeme
    if marker = some (.opens aspect) then openRegion aspect (opener.or (some t)) more
    else if marker = some (.closes aspect) then openRegion aspect none more
    else openRegion aspect opener more

/-- The finding about an end marker outside a region. -/
def unmatchedEnd (aspect : Aspect) (t : Token) : Diagnostic :=
  ⟨.warning, "unmatched-suppression-end", t.span,
    (Marker.closes aspect).word ++ " without a preceding " ++ (Marker.opens aspect).word⟩

/-- The finding about a region that is never closed. -/
def unterminated (aspect : Aspect) (t : Token) : Diagnostic :=
  ⟨.warning, "unterminated-suppression", t.span,
    (Marker.opens aspect).word ++ " without a matching " ++ (Marker.closes aspect).word ++
      "; suppressed to end of file"⟩

/-- The findings about the markers of an aspect. -/
def regionDiagnostics (aspect : Aspect) (tokens : List Token) : List Diagnostic :=
  let flagged := tokens.zip (regionFlags aspect false tokens)
  let unmatched := flagged.filter fun (t, inside) =>
    Marker.of? t.toLexeme = some (.closes aspect) && !inside
  unmatched.map (fun (t, _) => unmatchedEnd aspect t) ++
    (openRegion aspect none tokens).toList.map (unterminated aspect)

/-- The lines on which a line marker starts. -/
def markedLines (tokens : List Token) : List Int :=
  (tokens.filter fun t => Marker.of? t.toLexeme = some .line).map Token.line

/-- What the markers among the tokens switch off. -/
def scan (tokens : List Token) : Suppression where
  format := regionFlags .format false tokens
  check :=
    let marked := markedLines tokens
    (tokens.zip (regionFlags .check false tokens)).map fun (t, inside) =>
      inside || marked.contains t.line
  diagnostics :=
    Diagnostic.sort (regionDiagnostics .format tokens ++ regionDiagnostics .check tokens)

end Suppression

end ShaderStyle
