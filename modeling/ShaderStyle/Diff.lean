import ShaderStyle.Console
import ShaderStyle.Diff.Matching
import ShaderStyle.Text.Lines

/-!
# Differences between two texts

A difference is shown as hunks: changed lines with up to three unchanged lines around them. Hunks
that would touch are one. Each line is shown behind a mark, and its colour is chosen by the first
characters of what is shown.
-/

namespace ShaderStyle.Diff

/-- What becomes of some lines. -/
inductive Change where
  | equal
  | replace
  | delete
  | insert
  deriving DecidableEq, Repr

/-- What becomes of a range of lines of the first text, and the range of the second that they turn
into. -/
structure Edit where
  change : Change
  firstLow : Nat
  firstHigh : Nat
  secondLow : Nat
  secondHigh : Nat
  deriving DecidableEq, Repr

/-- The edit for the lines between two runs, if there are any. -/
def editBetween (i ai j bj : Nat) : List Edit :=
  if i < ai && j < bj then [⟨.replace, i, ai, j, bj⟩]
  else if i < ai then [⟨.delete, i, ai, j, bj⟩]
  else if j < bj then [⟨.insert, i, ai, j, bj⟩]
  else []

/-- The edits from line `i` of the first text and line `j` of the second on, for texts of these
lengths. -/
def editsFrom (lengthA lengthB i j : Nat) : List Run → List Edit
  | [] => editBetween i lengthA j lengthB
  | run :: more =>
    let nextI := run.first + run.length
    let nextJ := run.second + run.length
    editBetween i run.first j run.second ++
      ⟨.equal, run.first, nextI, run.second, nextJ⟩ ::
        editsFrom lengthA lengthB nextI nextJ more

/-- The edits that turn one text into another. -/
def edits (a b : List Text) : List Edit :=
  editsFrom a.length b.length 0 0 (commonRuns a b)

/-! ## Hunks -/

/-- The number of unchanged lines shown around a change. -/
def context : Nat := 3

namespace Edit

/-- The last unchanged lines of an edit that come before a change. -/
def lastLines (e : Edit) : Edit :=
  { e with
    firstLow := max e.firstLow (e.firstHigh - context)
    secondLow := max e.secondLow (e.secondHigh - context) }

/-- The first unchanged lines of an edit that come after a change. -/
def firstLines (e : Edit) : Edit :=
  { e with
    firstHigh := min e.firstHigh (e.firstLow + context)
    secondHigh := min e.secondHigh (e.secondLow + context) }

end Edit

/-- Cuts the unchanged lines before the first change. -/
def trimStart : List Edit → List Edit
  | [] => []
  | e :: more => (if e.change = .equal then e.lastLines else e) :: more

/-- Cuts the unchanged lines after the last change. -/
def trimEnd : List Edit → List Edit
  | [] => []
  | [e] => [if e.change = .equal then e.firstLines else e]
  | e :: more => e :: trimEnd more

/-- Whether some edits change nothing. -/
def isUnchanged : List Edit → Bool
  | [] => true
  | [e] => e.change = .equal
  | _ => false

/-- Divides edits into hunks where many unchanged lines stand together; `group` holds the edits of
the hunk so far. -/
def divide (group : List Edit) : List Edit → List (List Edit)
  | [] => if isUnchanged group then [] else [group]
  | e :: more =>
    if e.change = .equal && 2 * context < e.firstHigh - e.firstLow then
      (group ++ [e.firstLines]) :: divide [e.lastLines] more
    else divide (group ++ [e]) more

/-- The hunks that turn one text into another. -/
def hunks (a b : List Text) : List (List Edit) :=
  divide [] (trimEnd (trimStart (edits a b)))

/-! ## Lines -/

/-- A line of a shown difference. -/
inductive Line where
  | header (t : Text)
  | hunk (t : Text)
  | kept (line : Text)
  | deleted (line : Text)
  | inserted (line : Text)
  deriving DecidableEq, Repr

namespace Line

/-- The line with its mark. -/
def text : Line → Text
  | header t => t
  | hunk t => t
  | kept line => ' ' :: line
  | deleted line => '-' :: line
  | inserted line => '+' :: line

end Line

/-- A range of lines, by its first line and its length. -/
def rangeText (low high : Nat) : String :=
  if high - low = 1 then toString (low + 1)
  else if high - low = 0 then toString low ++ ",0"
  else toString (low + 1) ++ "," ++ toString (high - low)

/-- The lines of a text from one place up to another. -/
def slice (lines : List Text) (low high : Nat) : List Text :=
  (lines.drop low).take (high - low)

/-- The lines that show an edit. -/
def editLines (a b : List Text) (e : Edit) : List Line :=
  match e.change with
  | .equal => (slice a e.firstLow e.firstHigh).map .kept
  | _ =>
    (slice a e.firstLow e.firstHigh).map .deleted ++
      (slice b e.secondLow e.secondHigh).map .inserted

/-- The line that opens a hunk. -/
def hunkLine (group : List Edit) : Line :=
  let firstLow := (group.head?.map Edit.firstLow).getD 0
  let firstHigh := (group.getLast?.map Edit.firstHigh).getD 0
  let secondLow := (group.head?.map Edit.secondLow).getD 0
  let secondHigh := (group.getLast?.map Edit.secondHigh).getD 0
  .hunk ("@@ -" ++ rangeText firstLow firstHigh ++ " +" ++ rangeText secondLow secondHigh ++
    " @@\n").toList

/-- The lines that show how one text turns into another, under the name of a file. -/
def compare (path source formatted : Text) : List Line :=
  let a := Text.lines source
  let b := Text.lines formatted
  match hunks a b with
  | [] => []
  | groups =>
    .header ("--- ".toList ++ path ++ ['\n']) ::
      .header ("+++ ".toList ++ path ++ " (formatted)\n".toList) ::
        groups.flatMap fun group => hunkLine group :: group.flatMap (editLines a b)

/-! ## Colours -/

/-- The colours of a shown difference. -/
inductive Tint where
  | green
  | red
  | dim
  deriving DecidableEq, Repr

namespace Tint

/-- The colour's name. -/
def name : Tint → String
  | .green => "green"
  | .red => "red"
  | .dim => "dim"

/-- The colour of a shown line: a plus sign makes it green and a minus sign red, but three of either
make it dim like any other line. -/
def of : Text → Tint
  | '+' :: '+' :: '+' :: _ => .dim
  | '+' :: _ => .green
  | '-' :: '-' :: '-' :: _ => .dim
  | '-' :: _ => .red
  | _ => .dim

end Tint

/-- A shown line without what ends it. -/
def withoutEnd (t : Text) : Text :=
  (t.reverse.dropWhile Text.isBreak).reverse

/-- The coloured lines that show how one text turns into another, with what the console leaves of
them. -/
def tinted (path source formatted : Text) (kept : Text → Text := Console.withoutControls) :
    List (Tint × Text) :=
  (compare path source formatted).map fun line => (.of line.text, kept (withoutEnd line.text))

end ShaderStyle.Diff
