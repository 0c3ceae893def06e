import Mathlib.Data.List.Basic
import ShaderStyle.Diff.Matching

/-!
# Runs that two sequences of lines have in common

However the search goes, what it finds are runs of equal lines inside the window that it looks at
(`isCommon_longestRun`): every run that it remembers ends where it says (`EndsBefore`), one more pair of
equal lines makes it longer, and so it stays one from line to line. The runs of two texts follow each
other in both of them (`areCommon_commonRuns`).
-/

namespace ShaderStyle.Diff

variable {a b : List Text} {w : Window}

/-- The run is inside the window, and its lines are the same in both texts. -/
structure Run.IsCommon (a b : List Text) (w : Window) (r : Run) : Prop where
  firstLow : w.firstLow ≤ r.first
  firstHigh : r.first + r.length ≤ w.firstHigh
  secondLow : w.secondLow ≤ r.second
  secondHigh : r.second + r.length ≤ w.secondHigh
  lines : ∀ k < r.length, a[r.first + k]? = b[r.second + k]?

/-- Runs that follow each other from two places on up to two others, in both texts. -/
inductive AreCommon (a b : List Text) (firstHigh secondHigh : Nat) : Nat → Nat → List Run → Prop
  | nil {i j : Nat} (hi : i ≤ firstHigh) (hj : j ≤ secondHigh) :
      AreCommon a b firstHigh secondHigh i j []
  | cons {i j : Nat} {r : Run} {rs : List Run} (hi : i ≤ r.first) (hj : j ≤ r.second)
      (hlines : ∀ k < r.length, a[r.first + k]? = b[r.second + k]?)
      (hmore : AreCommon a b firstHigh secondHigh (r.first + r.length) (r.second + r.length) rs) :
      AreCommon a b firstHigh secondHigh i j (r :: rs)

/-! ## The places of a line -/

theorem first_of (a b : List Text) (i : Nat) : (Comparison.of a b).first[i]? = a[i]? := by
  simp [Comparison.of]

theorem second_of (a b : List Text) (j : Nat) : (Comparison.of a b).second[j]? = b[j]? := by
  simp [Comparison.of]

/-- The places of a line are lines of the second text that equal it. -/
theorem eq_of_mem_places {i j : Nat} (h : j ∈ ((Comparison.of a b).places[i]?).getD []) :
    a[i]? = b[j]? := by
  simp only [Comparison.of, List.getElem?_toArray, List.getElem?_map] at h
  cases hi : a[i]? with
  | none => simp [hi] at h
  | some line =>
    simp only [hi, Option.map_some, Option.getD_some] at h
    split at h
    · simp at h
    · rcases List.mem_map.1 h with ⟨⟨l, j'⟩, hmem, rfl⟩
      rcases List.mem_filter.1 hmem with ⟨hmem, hl⟩
      rw [List.mem_zipIdx_iff_getElem?] at hmem
      rw [hmem, of_decide_eq_true hl]

/-! ## The runs that are remembered -/

/-- A run of the length ends right before two places. -/
def EndsBefore (a b : List Text) (w : Window) (i j length : Nat) : Prop :=
  ∃ x y, x + length = i ∧ y + length = j ∧ Run.IsCommon a b w ⟨x, y, length⟩

/-- The best run is common, and so are the runs that end right before line `i`. -/
structure Progress.IsSound (a b : List Text) (w : Window) (i : Nat) (p : Progress) : Prop where
  best : p.best.IsCommon a b w
  ending : ∀ e ∈ p.ending, EndsBefore a b w i (e.1 + 1) e.2

theorem EndsBefore.zero {i j : Nat} (hi : w.firstLow ≤ i) (hi' : i ≤ w.firstHigh)
    (hj : w.secondLow ≤ j) (hj' : j ≤ w.secondHigh) : EndsBefore a b w i j 0 :=
  ⟨i, j, rfl, rfl, hi, hi', hj, hj', by simp⟩

/-- Two equal lines make a run longer that ends before them. -/
theorem EndsBefore.succ {i j n : Nat} (h : EndsBefore a b w i j n) (hi : i < w.firstHigh)
    (hj : j < w.secondHigh) (hlines : a[i]? = b[j]?) : EndsBefore a b w (i + 1) (j + 1) (n + 1) := by
  rcases h with ⟨x, y, rfl, rfl, hrun⟩
  refine ⟨x, y, by omega, by omega, hrun.firstLow, ?_, hrun.secondLow, ?_, ?_⟩
  · simp only
    omega
  · simp only
    omega
  · intro k hk
    rcases Nat.lt_succ_iff_lt_or_eq.1 hk with hk | rfl
    · exact hrun.lines k hk
    · exact hlines

theorem mem_of_lookup {entries : List (Nat × Nat)} {j n : Nat} (h : entries.lookup j = some n) :
    (j, n) ∈ entries := by
  rcases List.lookup_eq_some_iff.1 h with ⟨before, after, rfl, -⟩
  simp

theorem isSound_overPlaces {i : Nat} {before : List (Nat × Nat)} (hi : w.firstLow ≤ i)
    (hi' : i < w.firstHigh) (hbefore : ∀ e ∈ before, EndsBefore a b w i (e.1 + 1) e.2)
    {places : List Nat} (hplaces : ∀ j ∈ places, a[i]? = b[j]?) {p : Progress}
    (hp : p.IsSound a b w (i + 1)) :
    (Progress.overPlaces w i before p places).IsSound a b w (i + 1) := by
  induction places generalizing p with
  | nil => exact hp
  | cons j places ih =>
    have hmore : ∀ j ∈ places, a[i]? = b[j]? := fun j hj => hplaces j (by simp [hj])
    rw [Progress.overPlaces]
    split
    · exact ih hmore hp
    · rename_i hinside
      rw [Bool.or_eq_true, decide_eq_true_eq, decide_eq_true_eq, not_or] at hinside
      -- the run that goes on with this place
      have hend : EndsBefore a b w i j (if j = 0 then 0 else (before.lookup (j - 1)).getD 0) := by
        have hzero : EndsBefore a b w i j 0 := .zero hi (by omega) (by omega) (by omega)
        split
        · exact hzero
        · rename_i hj
          cases hlookup : before.lookup (j - 1) with
          | none => exact hzero
          | some n =>
            have := hbefore _ (mem_of_lookup hlookup)
            rwa [Nat.sub_add_cancel (by omega)] at this
      simp only
      generalize (if j = 0 then 0 else (before.lookup (j - 1)).getD 0) = n at hend ⊢
      have hlonger := hend.succ hi' (by omega) (hplaces j (by simp))
      apply ih hmore
      refine ⟨?_, ?_⟩
      · simp only
        split
        · rcases hlonger with ⟨x, y, hx, hy, hrun⟩
          rwa [← hx, ← hy, Nat.add_sub_cancel, Nat.add_sub_cancel]
        · exact hp.best
      · intro e he
        rcases List.mem_cons.1 he with rfl | he
        · exact hlonger
        · exact hp.ending e he

theorem isSound_foldl {n i : Nat} (hi : w.firstLow ≤ i) (hn : i + n ≤ w.firstHigh) {p : Progress}
    (hp : p.IsSound a b w i) :
    ((List.range' i n).foldl (fun p i => Progress.overPlaces w i p.ending ⟨p.best, []⟩
      ((Comparison.of a b).places[i]?.getD [])) p).IsSound a b w (i + n) := by
  induction n generalizing i p with
  | zero => exact hp
  | succ n ih =>
    rw [List.range'_succ, List.foldl_cons, Nat.add_comm n, ← Nat.add_assoc]
    apply ih (by omega) (by omega)
    exact isSound_overPlaces hi (by omega) hp.ending (fun j => eq_of_mem_places)
      ⟨hp.best, by simp⟩

/-! ## The longest run -/

theorem commonBefore_le (c : Comparison) (limit i j : Nat) : commonBefore c limit i j ≤ limit := by
  induction limit generalizing i j with
  | zero => exact Nat.le_refl _
  | succ limit ih =>
    rw [commonBefore]
    split
    · have := ih (i - 1) (j - 1)
      omega
    · exact Nat.zero_le _

/-- A run can be extended by the equal lines before it. -/
theorem isCommon_before {i j n limit : Nat} (h : Run.IsCommon a b w ⟨i, j, n⟩)
    (hi : limit ≤ i - w.firstLow) (hj : limit ≤ j - w.secondLow) :
    Run.IsCommon a b w ⟨i - commonBefore (.of a b) limit i j, j - commonBefore (.of a b) limit i j,
      commonBefore (.of a b) limit i j + n⟩ := by
  induction limit generalizing i j n with
  | zero => simpa [commonBefore] using h
  | succ limit ih =>
    have hfirstHigh := h.firstHigh
    have hsecondHigh := h.secondHigh
    simp only at hfirstHigh hsecondHigh
    rw [commonBefore]
    split
    · rename_i hlines
      rw [first_of, second_of] at hlines
      have hlonger : Run.IsCommon a b w ⟨i - 1, j - 1, n + 1⟩ := by
        refine ⟨by simp only; omega, by simp only; omega, by simp only; omega, by simp only; omega, ?_⟩
        intro k hk
        cases k with
        | zero => exact hlines
        | succ k =>
          have := h.lines k (Nat.lt_of_succ_lt_succ hk)
          simp only at this ⊢
          rwa [show i - 1 + (k + 1) = i + k by omega, show j - 1 + (k + 1) = j + k by omega]
      have := ih hlonger (by omega) (by omega)
      rwa [Nat.sub_sub, Nat.sub_sub, ← Nat.add_assoc, Nat.add_right_comm,
        Nat.add_comm (commonBefore _ _ _ _) 1] at this
    · simpa using h

/-- A run can be extended by the equal lines behind it. -/
theorem isCommon_from {i j n x y limit : Nat} (h : Run.IsCommon a b w ⟨i, j, n⟩) (hx : i + n = x)
    (hy : j + n = y) (hi : limit ≤ w.firstHigh - x) (hj : limit ≤ w.secondHigh - y) :
    Run.IsCommon a b w ⟨i, j, n + commonFrom (.of a b) limit x y⟩ := by
  induction limit generalizing n x y with
  | zero => exact h
  | succ limit ih =>
    rw [commonFrom]
    split
    · rename_i hlines
      rw [first_of, second_of] at hlines
      have hend : EndsBefore a b w x y n := ⟨i, j, hx, hy, h⟩
      rcases hend.succ (by omega) (by omega) hlines with ⟨i', j', hi', hj', hlonger⟩
      obtain rfl : i' = i := by omega
      obtain rfl : j' = j := by omega
      have := ih hlonger hi' hj' (by omega) (by omega)
      rwa [Nat.add_assoc n 1] at this
    · exact h

/-- The longest run that is found in a window is common. -/
theorem isCommon_longestRun (hfirst : w.firstLow ≤ w.firstHigh) (hsecond : w.secondLow ≤ w.secondHigh) :
    (longestRun (.of a b) w).IsCommon a b w := by
  have hstart : Progress.IsSound a b w w.firstLow ⟨⟨w.firstLow, w.secondLow, 0⟩, []⟩ := by
    refine ⟨⟨Nat.le_refl _, hfirst, Nat.le_refl _, hsecond, by simp⟩, by simp⟩
  have hfound := (isSound_foldl (n := w.firstHigh - w.firstLow) (Nat.le_refl _) (by omega) hstart).best
  unfold longestRun
  extract_lets _ _ run before i j after
  change run.IsCommon a b w at hfound
  have hbefore : before ≤ run.first ∧ before ≤ run.second := by
    have := commonBefore_le (.of a b) (min (run.first - w.firstLow) (run.second - w.secondLow))
      run.first run.second
    omega
  have hextended : Run.IsCommon a b w ⟨run.first - before, run.second - before, before + run.length⟩ :=
    isCommon_before hfound (Nat.min_le_left _ _) (Nat.min_le_right _ _)
  exact isCommon_from hextended (by omega) (by omega) (Nat.min_le_left _ _) (Nat.min_le_right _ _)

/-! ## All runs -/

section Runs

variable {firstHigh secondHigh : Nat} {rs : List Run}

theorem AreCommon.mono {i j i' j' : Nat} (h : AreCommon a b firstHigh secondHigh i' j' rs)
    (hi : i ≤ i') (hj : j ≤ j') : AreCommon a b firstHigh secondHigh i j rs := by
  cases h with
  | nil hi' hj' => exact .nil (Nat.le_trans hi hi') (Nat.le_trans hj hj')
  | cons hi' hj' hlines hmore =>
    exact .cons (Nat.le_trans hi hi') (Nat.le_trans hj hj') hlines hmore

theorem AreCommon.append {m n i j : Nat} {rs' : List Run} (h : AreCommon a b m n i j rs)
    (h' : AreCommon a b firstHigh secondHigh m n rs') :
    AreCommon a b firstHigh secondHigh i j (rs ++ rs') := by
  induction h with
  | nil hi hj => exact h'.mono hi hj
  | cons hi hj hlines _ ih => exact .cons hi hj hlines ih

theorem areCommon_runsIn {n : Nat} (hfirst : w.firstLow ≤ w.firstHigh)
    (hsecond : w.secondLow ≤ w.secondHigh) :
    AreCommon a b w.firstHigh w.secondHigh w.firstLow w.secondLow (runsIn (.of a b) n w) := by
  induction n generalizing w with
  | zero => exact .nil hfirst hsecond
  | succ n ih =>
    have hrun := isCommon_longestRun (a := a) (b := b) hfirst hsecond
    rw [runsIn]
    generalize longestRun (.of a b) w = run at hrun ⊢
    split
    · exact .nil hfirst hsecond
    · have hbefore : AreCommon a b run.first run.second w.firstLow w.secondLow
          (if w.firstLow < run.first && w.secondLow < run.second then
            runsIn (.of a b) n { w with firstHigh := run.first, secondHigh := run.second } else []) := by
        split
        · exact ih (w := { w with firstHigh := run.first, secondHigh := run.second })
            hrun.firstLow hrun.secondLow
        · exact .nil hrun.firstLow hrun.secondLow
      have hbehind : AreCommon a b w.firstHigh w.secondHigh (run.first + run.length)
          (run.second + run.length)
          (if run.first + run.length < w.firstHigh && run.second + run.length < w.secondHigh then
            runsIn (.of a b) n { w with
              firstLow := run.first + run.length
              secondLow := run.second + run.length } else []) := by
        split
        · exact ih (w := { w with
              firstLow := run.first + run.length
              secondLow := run.second + run.length }) hrun.firstHigh hrun.secondHigh
        · exact .nil hrun.firstHigh hrun.secondHigh
      rw [List.append_assoc, List.singleton_append]
      exact hbefore.append (.cons (Nat.le_refl _) (Nat.le_refl _) hrun.lines hbehind)

theorem areCommon_joinRuns {run : Run} {i j : Nat}
    (h : AreCommon a b firstHigh secondHigh i j (run :: rs)) :
    AreCommon a b firstHigh secondHigh i j (joinRuns run rs) := by
  induction rs generalizing run i j with
  | nil => exact h
  | cons next rs ih =>
    rcases h with _ | ⟨hi, hj, hlines, hmore⟩
    rw [joinRuns]
    split
    · rename_i hjoined
      rw [Bool.and_eq_true, decide_eq_true_eq, decide_eq_true_eq] at hjoined
      rcases hmore with _ | ⟨-, -, hnext, hmore⟩
      apply ih
      refine .cons hi hj ?_ ?_
      · intro k hk
        by_cases hfirst : k < run.length
        · exact hlines k hfirst
        · have := hnext (k - run.length) (by simp only at hk; omega)
          rwa [← hjoined.1, ← hjoined.2, Nat.add_assoc, Nat.add_assoc,
            Nat.add_sub_cancel' (by omega)] at this
      · simp only [← Nat.add_assoc]
        rwa [hjoined.1, hjoined.2]
    · exact .cons hi hj hlines (ih hmore)

end Runs

/-- The runs of two texts are common to them, and follow each other in both. -/
theorem areCommon_commonRuns (a b : List Text) :
    AreCommon a b a.length b.length 0 0 (commonRuns a b) := by
  have hruns := areCommon_runsIn (a := a) (b := b) (n := a.length + 1)
    (w := ⟨0, a.length, 0, b.length⟩) (Nat.zero_le _) (Nat.zero_le _)
  unfold commonRuns
  split
  · exact .nil (Nat.zero_le _) (Nat.zero_le _)
  · rename_i run more hrun
    rw [hrun] at hruns
    exact areCommon_joinRuns hruns

end ShaderStyle.Diff
