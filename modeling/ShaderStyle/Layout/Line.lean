import ShaderStyle.Diagnostic
import ShaderStyle.Layout.Piece
import ShaderStyle.Rules
import ShaderStyle.Text.Quoted

/-!
# Lines of the output

The last pass goes over the lines. It drops empty lines beyond the allowed number, indents by the
braces and, if asked for, the conditional directives that are open, strips blanks at line ends and
writes all line breaks alike, also those inside block comments and directives. What is carried from
line to line is a `LineState`.
-/

namespace ShaderStyle.Layout

/-- The pieces of one line, and the line break that ends it. -/
structure Line where
  body : List Piece
  ending : Option Piece
  deriving DecidableEq, Repr

namespace Line

/-- All pieces of the line, in order. -/
def pieces (l : Line) : List Piece :=
  l.body ++ l.ending.toList

/-- The pieces that are no layout. -/
def content (l : Line) : List Piece :=
  l.body.filter fun p => !p.isLayout

/-- Puts a piece that is no line break in front of the first of some lines. -/
def consToFirst (p : Piece) : List Line → List Line
  | [] => [⟨[p], none⟩]
  | l :: more => ⟨p :: l.body, l.ending⟩ :: more

/-- Divides pieces into lines. -/
def split : List Piece → List Line
  | [] => []
  | p :: more =>
    if p.isNewline then ⟨[], some p⟩ :: split more else consToFirst p (split more)

end Line

/-! ## Levels -/

/-- What a directive is to the conditional groups of a source. -/
inductive ConditionalRole where
  | opens
  | branches
  | closes
  deriving DecidableEq, Repr

/-- The role of a directive, by its name. -/
def conditionalRole? (name : Text) : Option ConditionalRole :=
  let name := String.ofList name
  if ["if", "ifdef", "ifndef"].contains name then some .opens
  else if ["elif", "else", "elifdef", "elifndef"].contains name then some .branches
  else if name = "endif" then some .closes
  else none

/-- What is carried from line to line: the braces and conditional groups that are open, the empty
lines just before, and which findings have been made about the run of empty lines and about the
file's line breaks. -/
structure LineState where
  braces : Nat := 0
  groups : Nat := 0
  emptyLines : Nat := 0
  reportedEmpty : Bool := false
  reportedEnding : Bool := false
  deriving DecidableEq, Repr

/-- The level of a directive's line and the conditional groups that are open after it. -/
def directiveLevel (rules : RuleSet) (braces groups : Nat) (name : Text) : Nat × Nat :=
  if rules.nestsConditionals then
    match conditionalRole? name with
    | some .opens => (braces + groups, groups + 1)
    | some .branches => (braces + (groups - 1), groups)
    | some .closes => (braces + (groups - 1), groups - 1)
    | none => (braces + groups, groups)
  else (braces, groups)

/-- The level of a line that starts with `first`, which is no directive. A closing brace stands one
level to the left of what it closes. -/
def plainLevel (rules : RuleSet) (braces groups : Nat) (first : Piece) : Nat :=
  let level : Int := if first.isMark '}' then (braces : Int) - 1 else braces
  (if rules.nestsConditionals then level + groups else level).toNat

/-- How a line is to be indented: the level, the text for it, the rule that asks for it, and the
conditional groups that are open after the line. -/
structure Indent where
  level : Nat
  text : Text
  rule : String
  groups : Nat

/-- How a line that starts with `first` is to be indented. -/
def indentFor (rules : RuleSet) (st : LineState) (first : Piece) : Indent :=
  match first.kind with
  | .directive name =>
    let (level, groups) := directiveLevel rules st.braces st.groups name
    ⟨level, if rules.indentDirectives then rules.indentation.levels level else [],
      "preprocessor-indentation", groups⟩
  | _ =>
    let level := plainLevel rules st.braces st.groups first
    ⟨level, rules.indentation.levels level, "indentation", st.groups⟩

/-- The braces that are open after some pieces; a closing brace with none open is ignored. -/
def bracesAfter (braces : Nat) (ps : List Piece) : Nat :=
  ps.foldl (fun n p => if p.isMark '{' then n + 1 else if p.isMark '}' then n - 1 else n) braces

/-! ## Blanks at the start and at the end of a line -/

/-- Whether the blanks before a line's first content piece have to be replaced by `indent`. -/
def indentDiffers (indent : Text) (body : List Piece) : Bool :=
  let blanks := body.takeWhile Piece.isLayout
  !(body.dropWhile Piece.isLayout).head?.any Piece.suppressed &&
    !blanks.any Piece.suppressed && Piece.render blanks ≠ indent

/-- A line's pieces with `indent` before the first content piece. -/
def reindent (indent : Text) (body : List Piece) : List Piece :=
  if indent = [] then body.dropWhile Piece.isLayout
  else .blanks indent :: body.dropWhile Piece.isLayout

/-- Whether a piece goes away at the end of a line. -/
def isStripped (p : Piece) : Bool :=
  p.isLayout && !p.suppressed

/-- A line's pieces without the blanks at its end. -/
def stripEnd (body : List Piece) : List Piece :=
  (body.reverse.dropWhile isStripped).reverse

/-- The blanks at the end of a line that go away, in order. -/
def strippedEnd (body : List Piece) : List Piece :=
  ((body.reverse.takeWhile isStripped).reverse).filter fun p => p.text ≠ []

/-- The finding about blanks at the end of a line. -/
def stripDiagnostics (line : Line) : List Diagnostic :=
  match strippedEnd line.body with
  | [] => []
  | p :: _ =>
    [⟨.warning, "trailing-whitespace", p.span.getD (Piece.firstSpan line.pieces),
      "trailing whitespace"⟩]

/-! ## Line breaks -/

/-- A piece with its line breaks written as the rules say. -/
def withEnding (rules : RuleSet) (p : Piece) : Piece :=
  if p.suppressed || p.span.isNone then p
  else match p.kind with
    | .lineBreak => { p with text := rules.lineEnding.text }
    | .blockComment _ | .directive _ =>
      { p with text := Text.withEnding rules.lineEnding.text p.text }
    | _ => p

/-- The first piece whose line breaks have to be written differently. -/
def firstOtherEnding (rules : RuleSet) (ps : List Piece) : Option Piece :=
  ps.find? fun p => (withEnding rules p).text ≠ p.text

/-- The finding about line breaks that are written differently, made once for a file. -/
def endingDiagnostics (rules : RuleSet) (reported : Bool) (ps : List Piece) : List Diagnostic :=
  if reported then []
  else match firstOtherEnding rules ps with
    | none => []
    | some p =>
      [⟨.warning, "line-ending", Piece.firstSpan [p],
        "line endings normalized to " ++ String.ofList rules.lineEnding.text.quoted⟩]

/-! ## One line -/

/-- The pieces and findings of one line, and the state after it. -/
structure LineResult where
  state : LineState
  pieces : List Piece
  diagnostics : List Diagnostic

/-- The last steps on a line: blanks at its end and line breaks. -/
def finishLine (rules : RuleSet) (st : LineState) (line : Line) : LineResult :=
  let kept := stripEnd line.body ++ line.ending.toList
  { state :=
      { st with reportedEnding := st.reportedEnding || (firstOtherEnding rules kept).isSome }
    pieces := kept.map (withEnding rules)
    diagnostics := stripDiagnostics line ++ endingDiagnostics rules st.reportedEnding kept }

/-- A line without content. It is dropped when it is one too many. -/
def emptyLine (rules : RuleSet) (st : LineState) (line : Line) : LineResult :=
  let st := { st with emptyLines := st.emptyLines + 1 }
  if rules.maxEmptyLines < st.emptyLines && !line.pieces.any Piece.suppressed then
    { state := { st with reportedEmpty := true }
      pieces := []
      diagnostics :=
        if st.reportedEmpty then []
        else [⟨.warning, "max-empty-lines", Piece.firstSpan line.pieces,
          "more than " ++ toString rules.maxEmptyLines ++ " consecutive empty line(s)"⟩] }
  else finishLine rules st line

/-- The finding about a line that is indented differently. -/
def indentDiagnostic (indent : Indent) (line : Line) : Diagnostic :=
  ⟨.warning, indent.rule, Piece.firstSpan line.content,
    if indent.text = [] then "expected no indentation"
    else "expected indentation level " ++ toString indent.level⟩

/-- A line whose first content piece is `first`. -/
def contentLine (rules : RuleSet) (st : LineState) (first : Piece) (line : Line) : LineResult :=
  let indent := indentFor rules st first
  let differs := indentDiffers indent.text line.body
  let indented : Line :=
    { line with body := if differs then reindent indent.text line.body else line.body }
  let st : LineState :=
    { braces := bracesAfter st.braces line.content
      groups := indent.groups
      emptyLines := 0
      reportedEmpty := false
      reportedEnding := st.reportedEnding }
  let result := finishLine rules st indented
  { result with
    diagnostics :=
      (if differs then [indentDiagnostic indent line] else []) ++ result.diagnostics }

/-- One line of the output. -/
def formatLine (rules : RuleSet) (st : LineState) (line : Line) : LineResult :=
  match line.content with
  | [] => emptyLine rules st line
  | first :: _ => contentLine rules st first line

/-- The pieces and findings of all lines. -/
def formatLines (rules : RuleSet) (st : LineState) : List Line → List Piece × List Diagnostic
  | [] => ([], [])
  | line :: more =>
    let result := formatLine rules st line
    let (pieces, diagnostics) := formatLines rules result.state more
    (result.pieces ++ pieces, result.diagnostics ++ diagnostics)

end ShaderStyle.Layout
