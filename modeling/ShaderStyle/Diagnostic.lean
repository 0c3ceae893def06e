import ShaderStyle.Position

/-!
# Diagnostics

A diagnostic is one finding: how severe it is, the rule it comes from, where it is and what it says.
Findings are shown in the order of their positions, then by rule and by message; findings that agree
in all of these keep their order.
-/

namespace ShaderStyle

/-- How a finding has to be handled: a warning is mended by formatting or needs nothing, an error has
to be mended by hand. -/
inductive Severity where
  | warning
  | error
  deriving DecidableEq, Repr

namespace Severity

/-- The severity's name. -/
def name : Severity → String
  | .warning => "warning"
  | .error => "error"

end Severity

/-- One finding. -/
structure Diagnostic where
  severity : Severity
  rule : String
  span : Span
  message : String
  deriving DecidableEq, Repr

namespace Diagnostic

/-- Whether the finding has to be mended by hand. -/
def isError (d : Diagnostic) : Bool :=
  d.severity = .error

/-- Whether `a` is shown before `b`, or may be. -/
def le (a b : Diagnostic) : Bool :=
  let p := a.span.start
  let q := b.span.start
  if p.line ≠ q.line then p.line < q.line
  else if p.column ≠ q.column then p.column < q.column
  else if a.rule ≠ b.rule then a.rule < b.rule
  else a.message ≤ b.message

/-- Findings in the order in which they are shown. -/
def sort (ds : List Diagnostic) : List Diagnostic :=
  ds.mergeSort le

end Diagnostic

end ShaderStyle
