import Mathlib.Data.List.DropRight
import Mathlib.Data.Prod.Lex
import Mathlib.Data.String.Basic
import ShaderStyle.Proofs.Layout.Page

/-!
# What markers mean

What is switched off at a token can be said without running over the tokens:

* a token is *inside* a region if it, or one before it, opens a region of the aspect, and no token in
  between closes one (`Inside`); the marker comments at both ends are inside;
* it is *beside* a line marker if one starts on its line (`BesideLineMarker`).

The findings are those about the end markers that are not inside, and about the first marker that opens
a region behind the last one that closes one (`markerFindings`). The scan gives just that
(`scan_reflects`).
-/

namespace ShaderStyle

/-- The order in which findings are shown: by position, then by rule, then by message. -/
def Diagnostic.sortKey (x : Diagnostic) : ℤ ×ₗ ℤ ×ₗ String ×ₗ String :=
  toLex (x.span.start.line, toLex (x.span.start.column, toLex (x.rule, x.message)))

theorem Diagnostic.le_iff {x y : Diagnostic} : x.le y = true ↔ x.sortKey ≤ y.sortKey := by
  simp only [sortKey, Prod.Lex.toLex_le_toLex, le]
  split
  · rename_i hline
    simp [hline]
  · rename_i hline
    simp only [not_not] at hline
    split
    · rename_i hcolumn
      simp [hline, hcolumn]
    · rename_i hcolumn
      simp only [not_not] at hcolumn
      split
      · rename_i hrule
        simp [hline, hcolumn, hrule]
      · rename_i hrule
        simp only [not_not] at hrule
        simp [hline, hcolumn, hrule]

theorem Diagnostic.pairwise_sort (ds : List Diagnostic) :
    (sort ds).Pairwise fun x y => x.sortKey ≤ y.sortKey := by
  refine (List.pairwise_mergeSort ?_ ?_ ds).imp fun h => le_iff.1 h
  · intro x y z hxy hyz
    exact le_iff.2 ((le_iff.1 hxy).trans (le_iff.1 hyz))
  · intro x y
    rw [Bool.or_eq_true, le_iff, le_iff]
    exact le_total _ _

namespace Suppression

open Layout

/-! ## Regions -/

/-- The marker that the token at a place carries. -/
def markerAt (tokens : List Token) (i : Nat) : Option Marker :=
  tokens[i]?.bind fun t => Marker.of? t.toLexeme

@[simp] theorem markerAt_cons_zero (t : Token) (ts : List Token) :
    markerAt (t :: ts) 0 = Marker.of? t.toLexeme := rfl

/-- The token at place `i`, or one before it, opens a region, and none in between closes one. -/
def Inside (aspect : Aspect) (tokens : List Token) (i : Nat) : Prop :=
  ∃ j ≤ i, markerAt tokens j = some (.opens aspect) ∧
    ∀ k < i, j < k → markerAt tokens k ≠ some (.closes aspect)

instance (aspect : Aspect) (tokens : List Token) (i : Nat) : Decidable (Inside aspect tokens i) :=
  inferInstanceAs (Decidable (∃ j ≤ i, markerAt tokens j = some (.opens aspect) ∧
    ∀ k < i, j < k → markerAt tokens k ≠ some (.closes aspect)))

/-- None of the first `i` tokens closes a region. -/
def Unclosed (aspect : Aspect) (tokens : List Token) (i : Nat) : Prop :=
  ∀ k < i, markerAt tokens k ≠ some (.closes aspect)

instance (aspect : Aspect) (tokens : List Token) (i : Nat) :
    Decidable (Unclosed aspect tokens i) :=
  inferInstanceAs (Decidable (∀ k < i, markerAt tokens k ≠ some (.closes aspect)))

variable {aspect : Aspect} {t : Token} {ts : List Token}

theorem unclosed_cons {i : Nat} :
    Unclosed aspect (t :: ts) (i + 1) ↔
      Marker.of? t.toLexeme ≠ some (.closes aspect) ∧ Unclosed aspect ts i := by
  constructor
  · intro h
    exact ⟨h 0 (Nat.succ_pos i), fun k hk => h (k + 1) (Nat.succ_lt_succ hk)⟩
  · rintro ⟨hhead, htail⟩ k hk
    cases k with
    | zero => exact hhead
    | succ k => exact htail k (Nat.lt_of_succ_lt_succ hk)

theorem inside_cons_zero :
    Inside aspect (t :: ts) 0 ↔ Marker.of? t.toLexeme = some (.opens aspect) := by
  simp [Inside]

/-- A region that is open at a token was opened behind the first token, or by it. -/
theorem inside_cons_succ {i : Nat} :
    Inside aspect (t :: ts) (i + 1) ↔
      Inside aspect ts i ∨
        Marker.of? t.toLexeme = some (.opens aspect) ∧ Unclosed aspect ts i := by
  constructor
  · rintro ⟨j, hj, hopens, hnone⟩
    cases j with
    | zero =>
      exact .inr ⟨hopens, fun k hk => hnone (k + 1) (Nat.succ_lt_succ hk) (Nat.succ_pos k)⟩
    | succ j =>
      refine .inl ⟨j, Nat.le_of_succ_le_succ hj, hopens, ?_⟩
      intro k hk hjk
      exact hnone (k + 1) (Nat.succ_lt_succ hk) (Nat.succ_lt_succ hjk)
  · rintro (⟨j, hj, hopens, hnone⟩ | ⟨hopens, hnone⟩)
    · refine ⟨j + 1, Nat.succ_le_succ hj, hopens, ?_⟩
      intro k hk hjk
      cases k with
      | zero => simp at hjk
      | succ k => exact hnone k (Nat.lt_of_succ_lt_succ hk) (Nat.lt_of_succ_lt_succ hjk)
    · refine ⟨0, Nat.zero_le _, hopens, ?_⟩
      intro k hk hjk
      cases k with
      | zero => simp at hjk
      | succ k => exact hnone k (Nat.lt_of_succ_lt_succ hk)

/-- A region is open at a token if one was opened among the tokens, or if one was open before them and
none of them closes it. -/
theorem regionFlags_eq (aspect : Aspect) (inside : Bool) (tokens : List Token) :
    regionFlags aspect inside tokens =
      (List.range tokens.length).map fun i =>
        decide (Inside aspect tokens i ∨ inside = true ∧ Unclosed aspect tokens i) := by
  induction tokens generalizing inside with
  | nil => rfl
  | cons t ts ih =>
    rw [regionFlags_cons, ih, List.length_cons, List.range_succ_eq_map, List.map_cons, List.map_map]
    congr 1
    · rw [keeps, Bool.eq_iff_iff]
      simp [inside_cons_zero, Unclosed, or_comm]
    · apply List.map_congr_left
      intro i _
      rw [Function.comp_apply, decide_eq_decide, inside_cons_succ, unclosed_cons]
      -- what is open behind the token: its own region, none, or the one before it
      unfold insideAfter
      by_cases hopens : Marker.of? t.toLexeme = some (.opens aspect)
      · simp only [hopens, if_true, true_and, ne_eq, Option.some.injEq, reduceCtorEq,
          not_false_eq_true]
        tauto
      · by_cases hcloses : Marker.of? t.toLexeme = some (.closes aspect)
        · simp [hcloses]
        · simp [hopens, hcloses]

/-- The flags say of each token whether it is inside a region. -/
theorem regionFlags_false (aspect : Aspect) (tokens : List Token) :
    regionFlags aspect false tokens =
      (List.range tokens.length).map fun i => decide (Inside aspect tokens i) := by
  simp [regionFlags_eq]

theorem zip_regionFlags (aspect : Aspect) (tokens : List Token) :
    tokens.zip (regionFlags aspect false tokens) =
      tokens.zipIdx.map fun (t, i) => (t, decide (Inside aspect tokens i)) := by
  rw [regionFlags_false, List.zip_map_right, List.zipIdx_eq_zip_range', List.range_eq_range']
  rfl

/-! ## Findings -/

/-- The tokens behind the last one that closes a region; all of them if none does. -/
def behindLastEnd (aspect : Aspect) (tokens : List Token) : List Token :=
  tokens.rtakeWhile fun t => Marker.of? t.toLexeme ≠ some (.closes aspect)

theorem openRegion_concat (opener : Option Token) (t : Token) (ts : List Token) :
    openRegion aspect opener (ts ++ [t]) =
      if Marker.of? t.toLexeme = some (.opens aspect) then
        (openRegion aspect opener ts).or (some t)
      else if Marker.of? t.toLexeme = some (.closes aspect) then none
      else openRegion aspect opener ts := by
  induction ts generalizing opener with
  | nil => rfl
  | cons head ts ih =>
    simp only [List.cons_append, openRegion, ih]
    split
    · rfl
    · split <;> rfl

/-- The region that is left open was opened by the first token that opens one behind the last that
closes one. -/
theorem openRegion_eq_find? (aspect : Aspect) (tokens : List Token) :
    openRegion aspect none tokens =
      (behindLastEnd aspect tokens).find? fun t => Marker.of? t.toLexeme = some (.opens aspect) := by
  induction tokens using List.reverseRecOn with
  | nil => rfl
  | append_singleton ts t ih =>
    rw [openRegion_concat, ih, behindLastEnd, behindLastEnd, List.rtakeWhile_concat]
    by_cases hcloses : Marker.of? t.toLexeme = some (.closes aspect)
    · simp [hcloses]
    · simp only [hcloses, if_false, ne_eq, not_false_eq_true, decide_true, if_true,
        List.find?_append]
      split
      · rename_i hopens
        simp [hopens]
      · rename_i hopens
        simp [hopens]

/-- The findings about the markers of an aspect: one for each end marker that is not inside a region,
and one for the first marker that opens the region left open, if there is one. -/
def markerFindings (aspect : Aspect) (tokens : List Token) : List Diagnostic :=
  (tokens.zipIdx.filter fun (t, i) =>
      Marker.of? t.toLexeme = some (.closes aspect) && !decide (Inside aspect tokens i)).map
    (fun (t, _) => unmatchedEnd aspect t) ++
  ((behindLastEnd aspect tokens).find? fun t =>
      Marker.of? t.toLexeme = some (.opens aspect)).toList.map (unterminated aspect)

theorem regionDiagnostics_eq (aspect : Aspect) (tokens : List Token) :
    regionDiagnostics aspect tokens = markerFindings aspect tokens := by
  simp only [regionDiagnostics, markerFindings, zip_regionFlags, openRegion_eq_find?,
    List.filter_map, List.map_map]
  rfl

/-! ## All markers -/

/-- A line marker starts on the line on which the token at place `i` starts. -/
def BesideLineMarker (tokens : List Token) (i : Nat) : Prop :=
  ∃ t ∈ tokens[i]?, ∃ m ∈ tokens, Marker.of? m.toLexeme = some .line ∧ m.line = t.line

/-- There is one flag for each token, and it says whether the property holds at its place. -/
structure IsFlagging (tokens : List Token) (flags : List Bool) (p : Nat → Prop) : Prop where
  length_eq : flags.length = tokens.length
  flag_iff : ∀ i < tokens.length, flags[i]? = some true ↔ p i

/-- What the markers among the tokens mean: which tokens they switch rules off for, and what there is to
find about them. -/
structure Reflects (s : Suppression) (tokens : List Token) : Prop where
  format : IsFlagging tokens s.format (Inside .format tokens)
  check : IsFlagging tokens s.check fun i => Inside .check tokens i ∨ BesideLineMarker tokens i
  findings : s.diagnostics.Perm (markerFindings .format tokens ++ markerFindings .check tokens)
  sorted : s.diagnostics.Pairwise fun x y => x.sortKey ≤ y.sortKey

theorem isFlagging_regionFlags (aspect : Aspect) (tokens : List Token) :
    IsFlagging tokens (regionFlags aspect false tokens) (Inside aspect tokens) := by
  refine ⟨by simp [regionFlags_false], ?_⟩
  intro i hi
  simp [regionFlags_false, hi]

theorem mem_markedLines {tokens : List Token} {n : Int} :
    n ∈ markedLines tokens ↔ ∃ m ∈ tokens, Marker.of? m.toLexeme = some .line ∧ m.line = n := by
  simp [markedLines, and_assoc]

theorem isFlagging_check (tokens : List Token) :
    IsFlagging tokens (scan tokens).check
      fun i => Inside .check tokens i ∨ BesideLineMarker tokens i := by
  have hcheck : (scan tokens).check = tokens.zipIdx.map fun (t, i) =>
      decide (Inside .check tokens i) || (markedLines tokens).contains t.line := by
    simp only [scan, zip_regionFlags, List.map_map]
    rfl
  refine ⟨by simp [hcheck], ?_⟩
  intro i hi
  simp [hcheck, BesideLineMarker, hi, mem_markedLines]

/-- The scan for markers gives what they mean, for every list of tokens. -/
theorem scan_reflects (tokens : List Token) : (scan tokens).Reflects tokens where
  format := isFlagging_regionFlags .format tokens
  check := isFlagging_check tokens
  findings := by
    rw [← regionDiagnostics_eq, ← regionDiagnostics_eq]
    exact List.mergeSort_perm _ _
  sorted := Diagnostic.pairwise_sort _

end Suppression

end ShaderStyle
