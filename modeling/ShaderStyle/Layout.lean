import ShaderStyle.Layout.Brace
import ShaderStyle.Layout.Bracket
import ShaderStyle.Layout.Line

/-!
# Formatting

Formatting changes layout and nothing else. It places the opening braces, then spaces the brackets,
then goes over the lines; every change is reported by a finding. Tokens in a region that is left as
it is come out as they went in.
-/

namespace ShaderStyle

/-- The pieces of a formatted text, and what was changed. -/
structure Formatted where
  pieces : List Piece
  diagnostics : List Diagnostic
  deriving DecidableEq, Repr

namespace Formatted

/-- The formatted text. -/
def text (f : Formatted) : Text :=
  Piece.render f.pieces

end Formatted

namespace Layout

/-- The pieces for the tokens of a source; the end of the file is none. -/
def piecesOf (tokens : List Token) (suppressed : List Bool) : List Piece :=
  ((tokens.zip suppressed).filter fun (t, _) => t.kind ≠ .eof).map fun (t, s) => .ofToken t s

/-- Formats the pieces of a source. -/
def formatPieces (rules : RuleSet) (ps : List Piece) : Formatted :=
  let sheet := Sheet.ofPieces ps
  let braced := placeBraces rules none sheet.slots
  let pairs := livePairs braced
  let spaced := spaceBrackets rules pairs 0 braced
  let lines := Line.split (Sheet.pieces ⟨spaced, sheet.tail⟩)
  let (pieces, diagnostics) := formatLines rules {} lines
  ⟨pieces,
    braceDiagnostics rules none sheet.slots ++ bracketDiagnostics rules pairs braced ++
      diagnostics⟩

/-- Formats the tokens of a source; `suppressed` says of each token whether it is left as it is. -/
def format (rules : RuleSet) (tokens : List Token) (suppressed : List Bool) : Formatted :=
  formatPieces rules (piecesOf tokens suppressed)

end Layout

end ShaderStyle
