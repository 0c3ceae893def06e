import ShaderStyle.Diff
import ShaderStyle.Event
import ShaderStyle.Outcome

/-!
# Reports

The results of a run as they are shown: the findings about a file, what formatting would change in
it, its tokens, and the number of files for every verdict.
-/

namespace ShaderStyle.Report

/-- The style of a verdict. -/
def verdictStyle : Verdict → String
  | .clean => "green"
  | .formatted => "cyan"
  | .manualFix => "red"

/-- The style of a severity. -/
def severityStyle : Severity → String
  | .error => "red"
  | .warning => "yellow"

/-- The row for a finding. -/
def findingRow (d : Diagnostic) : List Cell :=
  [ .plain (toString d.span.start.line), .plain (toString d.span.start.column),
    .styled d.severity.name (severityStyle d.severity), .plain d.rule, .plain d.message ]

/-- The findings about a file; one line if there are none. -/
def file (path : String) (o : Outcome) : Event :=
  match o.diagnostics with
  | [] =>
    let style := verdictStyle o.verdict
    .markup .out ("[bold]" ++ path ++ "[/bold]: [" ++ style ++ "]" ++ o.verdict.name ++ "[/" ++
      style ++ "]")
  | ds =>
    .table .out
      { title := path ++ " (" ++ o.verdict.name ++ ")"
        caption := some (toString o.errorCount ++ " error(s), " ++ toString o.warningCount ++
          " warning(s)")
        columns :=
          [ { header := "Line", alignRight := true }, { header := "Col", alignRight := true },
            { header := "Severity" }, { header := "Rule", style := "bold" },
            { header := "Message" } ]
        rows := ds.map findingRow }

/-- What formatting would change in a file, on a console. -/
def difference (console : Console) (path : String) (source formatted : Text) : List Event :=
  (Diff.tinted path.toList source formatted console.kept).map fun (tint, line) =>
    .styled .out (String.ofList line) tint.name

/-- A token's text, with what else is known about it. -/
def tokenDetail (t : Token) : Text :=
  match t.kind with
  | .directive name => if name = [] then t.text else t.text ++ "  (#".toList ++ name ++ [')']
  | .word (.typeName category) => t.text ++ "  (".toList ++ category.name.toList ++ [')']
  | _ => t.text

/-- The row for a token. -/
def tokenRow (t : Token) : List Cell :=
  [ .plain (toString t.span.start.line ++ ":" ++ toString t.span.start.column),
    .plain t.kind.name, .plain (String.ofList (tokenDetail t).quoted) ]

/-- The tokens of a file. -/
def tokens (path : String) (ts : List Token) : Event :=
  .table .out
    { title := path
      columns :=
        [ { header := "Pos", alignRight := true }, { header := "Kind", style := "bold" },
          { header := "Text" } ]
      rows := ts.map tokenRow }

/-- The number of files for every verdict. -/
def summary (verdicts : List Verdict) : Event :=
  .table .out
    { title := "Summary"
      columns :=
        [{ header := "Outcome", style := "bold" }, { header := "Files", alignRight := true }]
      rows := Verdict.all.map fun v =>
        [.styled v.name (verdictStyle v), .plain (toString (verdicts.count v))] }

end ShaderStyle.Report
