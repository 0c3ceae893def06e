import ShaderStyle.Compliance
import ShaderStyle.Layout
import ShaderStyle.Token.Lexer

/-!
# The outcome of a run

`process` runs everything on one source text: it lexes, finds the suppressed regions, formats and
checks. The outcome says whether an error has to be mended by hand, else whether formatting changed
the text.
-/

namespace ShaderStyle

/-- How a run on a source text ends. -/
inductive Verdict where
  | clean
  | formatted
  | manualFix
  deriving DecidableEq, Repr

namespace Verdict

/-- All verdicts. -/
def all : List Verdict := [.clean, .formatted, .manualFix]

/-- The verdict's name. -/
def name : Verdict → String
  | .clean => "clean"
  | .formatted => "formatted"
  | .manualFix => "manual_fix_required"

end Verdict

/-- The formatted text, whether it differs from the source, the verdict, and all findings. -/
structure Outcome where
  text : Text
  changed : Bool
  verdict : Verdict
  diagnostics : List Diagnostic
  deriving DecidableEq, Repr

namespace Outcome

/-- The outcome for a source, its formatted text and all findings about it. -/
def of (source formatted : Text) (diagnostics : List Diagnostic) : Outcome :=
  let changed := formatted ≠ source
  { text := formatted
    changed := changed
    verdict :=
      if diagnostics.any Diagnostic.isError then .manualFix
      else if changed then .formatted
      else .clean
    diagnostics := Diagnostic.sort diagnostics }

/-- The number of errors. -/
def errorCount (o : Outcome) : Nat :=
  o.diagnostics.countP Diagnostic.isError

/-- The number of findings that are no errors. -/
def warningCount (o : Outcome) : Nat :=
  o.diagnostics.countP fun d => !d.isError

/-- Whether the formatted text is to be written back to the file. -/
def shouldWrite (o : Outcome) : Bool :=
  o.verdict = .formatted

end Outcome

/-- Formats and checks a source text. -/
def process (rules : RuleSet) (d : Dialect) (source : Text) : Except LexFault Outcome :=
  match tokenize d source with
  | .error fault => .error fault
  | .ok tokens =>
    let suppression := Suppression.scan tokens
    let formatted := Layout.format rules tokens suppression.format
    .ok (.of source formatted.text
      (suppression.diagnostics ++ formatted.diagnostics ++
        Compliance.check rules d tokens suppression.check))

end ShaderStyle
