import Mathlib.Data.List.Induction
import ShaderStyle.Proofs.Layout.LinePass

/-!
# Indentation

How a line has to be indented can be said from the content before it alone: by the braces and the groups
of conditional directives that are still open there (`openBraces`, `openGroups`), and by what the line
starts with (`lineIndent`). The pass over the lines carries two counters instead; they count just that
(`openBraces_append`, `groups_indentFor_eq`), and so the indentation is the same (`text_indentFor`).
-/

namespace ShaderStyle.Layout

/-! ## What is still open -/

/-- How many are still open behind some lexemes, if `n` are before them. Closing with none open is
ignored. -/
def stillOpen (opens closes : Lexeme → Bool) (n : Nat) (ls : List Lexeme) : Nat :=
  ls.foldl (fun n l => if opens l then n + 1 else if closes l then n - 1 else n) n

/-- The braces that are still open behind some lexemes. -/
def openBraces (ls : List Lexeme) : Nat :=
  stillOpen (·.isMark '{') (·.isMark '}') 0 ls

/-- What a lexeme is to the conditional groups. -/
def roleOf? (l : Lexeme) : Option ConditionalRole :=
  match l.kind with
  | .directive name => conditionalRole? name
  | _ => none

/-- The conditional groups that are still open behind some lexemes. -/
def openGroups (ls : List Lexeme) : Nat :=
  stillOpen (roleOf? · = some .opens) (roleOf? · = some .closes) 0 ls

theorem stillOpen_append (opens closes : Lexeme → Bool) (n : Nat) (xs ys : List Lexeme) :
    stillOpen opens closes n (xs ++ ys) =
      stillOpen opens closes (stillOpen opens closes n xs) ys :=
  List.foldl_append

/-! ## How a line is indented -/

/-- The conditional groups around a line that starts with `first`; a directive that goes on with a group
or ends it does not stand inside the group. -/
def groupsAround (earlier : List Lexeme) (first : Lexeme) : Nat :=
  match roleOf? first with
  | some .branches | some .closes => openGroups earlier - 1
  | _ => openGroups earlier

/-- The level of a line that starts with `first`; `earlier` is the content before the line. -/
def lineLevel (rules : RuleSet) (earlier : List Lexeme) (first : Lexeme) : Int :=
  openBraces earlier - (if first.isMark '}' then 1 else 0) +
    (if rules.nestsConditionals then groupsAround earlier first else 0)

/-- The blanks before `first` on a line that starts with it; `earlier` is the content before the
line. -/
def lineIndent (rules : RuleSet) (earlier : List Lexeme) (first : Lexeme) : Text :=
  match first.kind with
  | .directive _ =>
    if rules.indentDirectives then rules.indentation.levels (lineLevel rules earlier first).toNat
    else []
  | _ => rules.indentation.levels (lineLevel rules earlier first).toNat

/-! ## The counters of the pass -/

variable {rules : RuleSet}

theorem openBraces_append (earlier : List Lexeme) (ps : List Piece) :
    openBraces (earlier ++ ps.map Piece.lexeme) = bracesAfter (openBraces earlier) ps := by
  rw [openBraces, stillOpen_append, stillOpen, List.foldl_map]
  rfl

/-- The counters that the pass carries count what is open behind some content. -/
structure LineState.Counts (rules : RuleSet) (st : LineState) (earlier : List Lexeme) : Prop where
  braces : st.braces = openBraces earlier
  groups : rules.nestsConditionals = true → st.groups = openGroups earlier

theorem LineState.counts_nil (rules : RuleSet) : LineState.Counts rules {} [] :=
  ⟨rfl, fun _ => rfl⟩

theorem openGroups_concat (earlier : List Lexeme) (l : Lexeme) :
    openGroups (earlier ++ [l]) =
      match roleOf? l with
      | some .opens => openGroups earlier + 1
      | some .closes => openGroups earlier - 1
      | _ => openGroups earlier := by
  rw [openGroups, stillOpen_append, ← openGroups]
  simp only [stillOpen, List.foldl_cons, List.foldl_nil, decide_eq_true_eq]
  rcases roleOf? l with _ | _ | _ | _ <;> rfl

theorem openGroups_append_eq_self {earlier ls : List Lexeme} (h : ∀ l ∈ ls, roleOf? l = none) :
    openGroups (earlier ++ ls) = openGroups earlier := by
  induction ls using List.reverseRecOn with
  | nil => rw [List.append_nil]
  | append_singleton ls l ih =>
    rw [← List.append_assoc, openGroups_concat, h l (by simp)]
    exact ih fun l hl => h l (by simp [hl])

theorem roleOf?_directive {p : Piece} {name : Text} (h : p.kind = .directive name) :
    roleOf? p.lexeme = conditionalRole? name := by
  simp only [roleOf?, Piece.lexeme, h]

theorem roleOf?_eq_none {p : Piece} (h : ∀ name, p.kind ≠ .directive name) :
    roleOf? p.lexeme = none := by
  unfold roleOf?
  split
  · rename_i name hname
    exact absurd hname (h name)
  · rfl

/-- Behind the first piece of a line, the counter is that of the groups that are open there. -/
theorem groups_indentFor_eq {st : LineState} {earlier : List Lexeme} (h : st.Counts rules earlier)
    (hnests : rules.nestsConditionals = true) (p : Piece) :
    (indentFor rules st p).groups = openGroups (earlier ++ [p.lexeme]) := by
  rw [openGroups_concat, ← h.groups hnests]
  unfold indentFor
  split
  · rename_i name hkind
    simp only [directiveLevel, hnests, if_true, roleOf?_directive hkind]
    rcases conditionalRole? name with _ | _ | _ | _ <;> rfl
  · rename_i hkind
    rw [roleOf?_eq_none hkind]

/-- The level of a directive's line, from the counters. -/
theorem directiveLevel_eq {st : LineState} {earlier : List Lexeme} (h : st.Counts rules earlier)
    {p : Piece} {name : Text} (hkind : p.kind = .directive name) :
    (directiveLevel rules st.braces st.groups name).1 =
      (lineLevel rules earlier p.lexeme).toNat := by
  have hmark : p.lexeme.isMark '}' = false := by
    simp [Lexeme.isMark, Piece.lexeme, hkind]
  rw [directiveLevel, lineLevel, hmark, ← h.braces]
  by_cases hnests : rules.nestsConditionals = true
  · simp only [hnests, if_true, groupsAround, roleOf?_directive hkind, ← h.groups hnests]
    rcases conditionalRole? name with _ | _ | _ | _ <;> simp <;> omega
  · simp [hnests]

/-- The level of another line, from the counters. -/
theorem plainLevel_eq {st : LineState} {earlier : List Lexeme} (h : st.Counts rules earlier)
    {p : Piece} (hkind : ∀ name, p.kind ≠ .directive name) :
    plainLevel rules st.braces st.groups p = (lineLevel rules earlier p.lexeme).toNat := by
  have hmark : p.isMark '}' = p.lexeme.isMark '}' := rfl
  rw [plainLevel, lineLevel, hmark, ← h.braces]
  by_cases hnests : rules.nestsConditionals = true
  · simp only [hnests, if_true, groupsAround, roleOf?_eq_none hkind, ← h.groups hnests]
    split <;> simp
  · simp only [hnests, Bool.false_eq_true, if_false]
    by_cases hclosing : p.lexeme.isMark '}' = true
    · simp [hclosing]
    · simp [hclosing]

/-- The pass indents a line as the content before it asks for. -/
theorem text_indentFor {st : LineState} {earlier : List Lexeme} (h : st.Counts rules earlier)
    (p : Piece) : (indentFor rules st p).text = lineIndent rules earlier p.lexeme := by
  have hkind : p.lexeme.kind = p.kind := rfl
  unfold indentFor lineIndent
  rw [hkind]
  cases hp : p.kind with
  | directive name => simp only [directiveLevel_eq h hp]
  | _ =>
    have hplain : ∀ name, p.kind ≠ .directive name := by simp [hp]
    simp only [plainLevel_eq h hplain]

end ShaderStyle.Layout
