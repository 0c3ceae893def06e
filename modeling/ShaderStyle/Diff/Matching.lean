import ShaderStyle.Text.Basic

/-!
# Matching two sequences of lines

The lines that two texts have in common are found by taking the longest run of equal lines, the
earliest of several, and then the same on both sides of it. A line that is frequent in a long second
text starts no run, but runs are extended over it.
-/

namespace ShaderStyle.Diff

/-- A run of equal lines: where it starts in the first and in the second text, and its length. -/
structure Run where
  first : Nat
  second : Nat
  length : Nat
  deriving DecidableEq, Repr

/-- Two texts as lines, and for every line of the first the places of the second at which a run may
start or go on with it. -/
structure Comparison where
  first : Array Text
  second : Array Text
  places : Array (List Nat)

/-- Whether a line is too frequent among `total` lines to start a run. -/
def isFrequent (total occurrences : Nat) : Bool :=
  200 ≤ total && total / 100 + 1 < occurrences

/-- Compares two texts line by line. -/
def Comparison.of (a b : List Text) : Comparison :=
  let indexed := b.zipIdx
  { first := a.toArray
    second := b.toArray
    places := (a.map fun line =>
      let found := (indexed.filter fun (l, _) => l = line).map Prod.snd
      if isFrequent b.length found.length then [] else found).toArray }

/-- Part of two texts: lines `firstLow` up to `firstHigh` of one and `secondLow` up to `secondHigh`
of the other. -/
structure Window where
  firstLow : Nat
  firstHigh : Nat
  secondLow : Nat
  secondHigh : Nat

/-- The search for the longest run, after some lines of the first text: the best run so far, and the
lengths of the runs that end at the last line, by the places in the second text. -/
structure Progress where
  best : Run
  ending : List (Nat × Nat)

/-- Goes over the places of the second text that equal line `i` of the first. -/
def Progress.overPlaces (w : Window) (i : Nat) (before : List (Nat × Nat)) :
    Progress → List Nat → Progress
  | p, [] => p
  | p, j :: more =>
    if j < w.secondLow || w.secondHigh ≤ j then Progress.overPlaces w i before p more
    else
      let k := (if j = 0 then 0 else (before.lookup (j - 1)).getD 0) + 1
      let best := if p.best.length < k then ⟨i + 1 - k, j + 1 - k, k⟩ else p.best
      Progress.overPlaces w i before ⟨best, (j, k) :: p.ending⟩ more

/-- The number of equal lines, at most `limit`, that end before two places. -/
def commonBefore (c : Comparison) : Nat → Nat → Nat → Nat
  | 0, _, _ => 0
  | limit + 1, i, j =>
    if c.first[i - 1]? = c.second[j - 1]? then 1 + commonBefore c limit (i - 1) (j - 1) else 0

/-- The number of equal lines, at most `limit`, that start at two places. -/
def commonFrom (c : Comparison) : Nat → Nat → Nat → Nat
  | 0, _, _ => 0
  | limit + 1, i, j =>
    if c.first[i]? = c.second[j]? then 1 + commonFrom c limit (i + 1) (j + 1) else 0

/-- The longest run in a window, extended over frequent lines; its length is zero if there is none. -/
def longestRun (c : Comparison) (w : Window) : Run :=
  let start : Progress := ⟨⟨w.firstLow, w.secondLow, 0⟩, []⟩
  let found := (List.range' w.firstLow (w.firstHigh - w.firstLow)).foldl
    (fun p i => Progress.overPlaces w i p.ending ⟨p.best, []⟩ (c.places[i]?.getD [])) start
  let run := found.best
  let before := commonBefore c (min (run.first - w.firstLow) (run.second - w.secondLow))
    run.first run.second
  let i := run.first + run.length
  let j := run.second + run.length
  let after := commonFrom c (min (w.firstHigh - i) (w.secondHigh - j)) i j
  ⟨run.first - before, run.second - before, before + run.length + after⟩

/-- The runs in a window, in order. The count bounds how often a window is divided. -/
def runsIn (c : Comparison) : Nat → Window → List Run
  | 0, _ => []
  | n + 1, w =>
    let run := longestRun c w
    let i := run.first + run.length
    let j := run.second + run.length
    if run.length = 0 then []
    else
      (if w.firstLow < run.first && w.secondLow < run.second then
        runsIn c n { w with firstHigh := run.first, secondHigh := run.second }
       else []) ++
      [run] ++
      (if i < w.firstHigh && j < w.secondHigh then
        runsIn c n { w with firstLow := i, secondLow := j }
       else [])

/-- Joins runs that follow each other without a gap; `run` comes before the others. -/
def joinRuns (run : Run) : List Run → List Run
  | [] => [run]
  | next :: more =>
    if run.first + run.length = next.first && run.second + run.length = next.second then
      joinRuns { run with length := run.length + next.length } more
    else run :: joinRuns next more

/-- The runs of lines that two texts have in common, in order. -/
def commonRuns (a b : List Text) : List Run :=
  match runsIn (.of a b) (a.length + 1) ⟨0, a.length, 0, b.length⟩ with
  | [] => []
  | run :: more => joinRuns run more

end ShaderStyle.Diff
