import ShaderStyle.Documentation
import ShaderStyle.Proofs.Text.LineEnding

/-!
# Tags and line breaks

The tags of a documentation text are the same however its line breaks are written: a line break is a
blank to a tag, and it ends the names in it.

* `parameterNames_withEnding`: the parameters that the tags name;
* `returnCount_withEnding`: the number of tags for the returned value.
-/

namespace ShaderStyle.Documentation

open Text (withEnding IsBreakText)

variable {ending : Text}

/-! ## Line breaks among the characters of a tag -/

theorem isBlank_of_isBreak {c : Char} (h : Text.isBreak c = true) : Text.isBlank c = true := by
  rcases Text.eq_of_isBreak h with rfl | rfl <;> decide

theorem not_opensTag_of_isBreak {c : Char} (h : Text.isBreak c = true) : opensTag c = false := by
  rcases Text.eq_of_isBreak h with rfl | rfl <;> decide

theorem not_isNameChar_of_isBreak {c : Char} (h : Text.isBreak c = true) :
    Text.isNameChar c = false := by
  rcases Text.eq_of_isBreak h with rfl | rfl <;> decide

/-- A character that is no line break stays at the start of a text. -/
theorem exists_cons_of_withEnding (hending : IsBreakText ending) {t u : Text} {c : Char}
    (hc : Text.isBreak c = false) (h : withEnding ending t = c :: u) :
    ∃ t', t = c :: t' ∧ u = withEnding ending t' := by
  rcases Text.cases_break t with rfl | ⟨brk, y, rfl, hbrk, hnext⟩ | ⟨z, y, rfl, hz⟩
  · simp at h
  · rcases hending.exists_cons with ⟨z, w, rfl, hz⟩
    rw [Text.withEnding_break hbrk hnext, List.cons_append, List.cons.injEq] at h
    rw [h.1, hc] at hz
    simp at hz
  · rw [Text.withEnding_cons hz, List.cons.injEq] at h
    rcases h with ⟨rfl, rfl⟩
    exact ⟨y, rfl, rfl⟩

theorem not_isBreak_of_dropWhile {t v : Text} {c : Char} (h : t.dropWhile Text.isBlank = c :: v) :
    Text.isBreak c = false := by
  have hnot : Text.isBlank c = false := by
    have hhead := List.head?_dropWhile_not Text.isBlank t
    rw [h] at hhead
    simpa using hhead
  rw [← Bool.not_eq_true]
  intro hbreak
  rw [isBlank_of_isBreak hbreak] at hnot
  simp at hnot

/-! ## Parameter tags -/

/-- A name and the text behind it, with the line breaks of that text written anew. -/
def rebroken (ending : Text) (found : Text × Text) : Text × Text :=
  (found.1, withEnding ending found.2)

theorem afterDirection_withEnding (hending : IsBreakText ending) (t : Text) :
    afterDirection (withEnding ending t) = (afterDirection t).map (withEnding ending) := by
  unfold afterDirection
  rw [Text.dropWhile_withEnding (fun _ => isBlank_of_isBreak) hending]
  cases hdrop : t.dropWhile Text.isBlank with
  | nil => simp
  | cons c v =>
    rw [Text.withEnding_cons (not_isBreak_of_dropWhile hdrop)]
    by_cases hc : c = '['
    · subst hc
      have hbreak : ∀ z, Text.isBreak z = true → decide (z ≠ ']') = true := by
        intro z hz
        simp only [decide_eq_true_eq]
        rintro rfl
        simp [Text.isBreak] at hz
      simp only [Text.dropWhile_withEnding hbreak hending]
      cases hclose : v.dropWhile fun z => z ≠ ']' with
      | nil => simp
      | cons z rest =>
        have hz : z = ']' := by
          have hhead := List.head?_dropWhile_not (fun z => decide (z ≠ ']')) v
          rw [hclose] at hhead
          simpa using hhead
        subst hz
        rw [Text.withEnding_cons (by decide)]
        rfl
    · split
      · rename_i inside heq
        simp only [List.cons.injEq] at heq
        exact absurd heq.1 hc
      · split
        · rename_i inside heq
          simp only [List.cons.injEq] at heq
          exact absurd heq.1 hc
        · rfl

/-- The name at the start of a text and the text behind it. -/
def nameAt? : Text → Option (Text × Text)
  | [] => none
  | c :: more =>
    if Text.isNameStart c then
      some (c :: more.takeWhile Text.isNameChar, more.dropWhile Text.isNameChar)
    else none

theorem nameBehindBlanks?_cons (c : Char) (t : Text) :
    nameBehindBlanks? (c :: t) =
      if Text.isBlank c then nameAt? (t.dropWhile Text.isBlank) else none := by
  rw [nameBehindBlanks?]
  split
  · cases t.dropWhile Text.isBlank <;> rfl
  · rfl

theorem nameBehindBlanks?_break {brk : Text} (hbrk : IsBreakText brk) (t : Text) :
    nameBehindBlanks? (brk ++ t) = nameAt? (t.dropWhile Text.isBlank) := by
  rcases hbrk.exists_cons with ⟨c, u, rfl, hc⟩
  have hu : ∀ z ∈ u, Text.isBlank z = true := fun z hz =>
    isBlank_of_isBreak (Text.isBreak_of_mem hbrk (List.mem_cons_of_mem _ hz))
  rw [List.cons_append, nameBehindBlanks?_cons, if_pos (isBlank_of_isBreak hc),
    List.dropWhile_append_of_pos hu]

theorem nameAt?_withEnding (hending : IsBreakText ending) (t : Text) :
    nameAt? (withEnding ending (t.dropWhile Text.isBlank)) =
      (nameAt? (t.dropWhile Text.isBlank)).map (rebroken ending) := by
  cases hdrop : t.dropWhile Text.isBlank with
  | nil => simp [nameAt?]
  | cons c v =>
    rw [Text.withEnding_cons (not_isBreak_of_dropWhile hdrop), nameAt?, nameAt?,
      Text.takeWhile_withEnding (fun _ => not_isNameChar_of_isBreak) hending,
      Text.dropWhile_withEnding_of_not (fun _ => not_isNameChar_of_isBreak) hending]
    split <;> rfl

theorem nameBehindBlanks?_withEnding (hending : IsBreakText ending) (t : Text) :
    nameBehindBlanks? (withEnding ending t) = (nameBehindBlanks? t).map (rebroken ending) := by
  rcases Text.cases_break t with rfl | ⟨brk, y, rfl, hbrk, hnext⟩ | ⟨c, y, rfl, hc⟩
  · simp [nameBehindBlanks?]
  · rw [Text.withEnding_break hbrk hnext, nameBehindBlanks?_break hending, nameBehindBlanks?_break hbrk,
      Text.dropWhile_withEnding (fun _ => isBlank_of_isBreak) hending, nameAt?_withEnding hending]
  · rw [Text.withEnding_cons hc, nameBehindBlanks?_cons, nameBehindBlanks?_cons,
      Text.dropWhile_withEnding (fun _ => isBlank_of_isBreak) hending, nameAt?_withEnding hending]
    split <;> rfl

/-- The word of a parameter tag. -/
def parameterWord : Text := ['p', 'a', 'r', 'a', 'm']

theorem parameterTag?_append (t : Text) :
    parameterTag? (parameterWord ++ t) = (afterDirection t).bind nameBehindBlanks? := rfl

theorem parameterTag?_eq_none {t : Text} (h : ∀ u, t ≠ parameterWord ++ u) : parameterTag? t = none := by
  unfold parameterTag?
  split
  · rename_i u
    exact absurd rfl (h u)
  · rfl

theorem exists_append_of_withEnding (hending : IsBreakText ending) {w t u : Text}
    (hw : ∀ c ∈ w, Text.isBreak c = false) (h : withEnding ending t = w ++ u) :
    ∃ t', t = w ++ t' := by
  induction w generalizing t with
  | nil => exact ⟨t, rfl⟩
  | cons c w ih =>
    rcases exists_cons_of_withEnding hending (hw c (by simp)) h with ⟨t', rfl, ht'⟩
    rcases ih (fun c hc => hw c (by simp [hc])) ht'.symm with ⟨t'', rfl⟩
    exact ⟨t'', rfl⟩

theorem withEnding_append_left {w : Text} (hw : ∀ c ∈ w, Text.isBreak c = false) (t : Text) :
    withEnding ending (w ++ t) = w ++ withEnding ending t := by
  induction w with
  | nil => rfl
  | cons c w ih =>
    rw [List.cons_append, Text.withEnding_cons (hw c (by simp)), ih fun c hc => hw c (by simp [hc])]
    rfl

theorem parameterTag?_withEnding (hending : IsBreakText ending) (t : Text) :
    parameterTag? (withEnding ending t) = (parameterTag? t).map (rebroken ending) := by
  have hword : ∀ c ∈ parameterWord, Text.isBreak c = false := by
    have hall : parameterWord.all (fun c => !Text.isBreak c) = true := by decide
    intro c hc
    simpa using List.all_eq_true.1 hall c hc
  by_cases ht : ∃ u, t = parameterWord ++ u
  · rcases ht with ⟨u, rfl⟩
    rw [withEnding_append_left hword, parameterTag?_append, parameterTag?_append,
      afterDirection_withEnding hending]
    cases afterDirection u with
    | none => rfl
    | some v => exact nameBehindBlanks?_withEnding hending v
  · have hnone : ∀ u, withEnding ending t ≠ parameterWord ++ u := fun u hu =>
      ht (exists_append_of_withEnding hending hword hu)
    rw [parameterTag?_eq_none hnone, parameterTag?_eq_none fun u hu => ht ⟨u, hu⟩]
    rfl

/-! ## All tags -/

theorem parameterNames_cons (c : Char) (t : Text) :
    parameterNames (c :: t) =
      (if opensTag c then parameterTag? t else none).elim (parameterNames t)
        fun found => found.1 :: parameterNames found.2 := by
  rw [parameterNames]
  split
  · rename_i name after h
    rw [h]
    rfl
  · rename_i h
    rw [h]
    rfl

theorem parameterNames_break {brk : Text} (hbrk : IsBreakText brk) (t : Text) :
    parameterNames (brk ++ t) = parameterNames t := by
  have hskip {c : Char} (hc : c ∈ brk) (u : Text) : parameterNames (c :: u) = parameterNames u := by
    rw [parameterNames_cons, not_opensTag_of_isBreak (Text.isBreak_of_mem hbrk hc)]
    rfl
  rcases hbrk with rfl | rfl | rfl
  · exact hskip (by simp) t
  · exact (hskip (by simp) _).trans (hskip (by simp) t)
  · exact hskip (by simp) t

/-- The parameter tags name the same parameters however the line breaks are written. -/
theorem parameterNames_withEnding (hending : IsBreakText ending) (t : Text) :
    parameterNames (withEnding ending t) = parameterNames t := by
  induction hsize : t.length using Nat.strongRecOn generalizing t with
  | ind size ih =>
    subst hsize
    rcases Text.cases_break t with rfl | ⟨brk, y, rfl, hbrk, hnext⟩ | ⟨c, y, rfl, hc⟩
    · simp
    · have hlt : y.length < (brk ++ y).length := by
        rcases hbrk.exists_cons with ⟨z, u, rfl, -⟩
        simp only [List.length_append, List.length_cons]
        omega
      rw [Text.withEnding_break hbrk hnext, parameterNames_break hending, parameterNames_break hbrk,
        ih _ hlt y rfl]
    · rw [Text.withEnding_cons hc, parameterNames_cons, parameterNames_cons,
        parameterTag?_withEnding hending, ih _ (by simp) y rfl]
      split
      · cases htag : parameterTag? y with
        | none => rfl
        | some found =>
          -- the tags go on behind the one that was found
          have hshorter : found.2.length ≤ y.length := length_parameterTag? htag
          simp only [Option.map_some, Option.elim_some, rebroken]
          rw [ih found.2.length (by simp only [List.length_cons]; omega) found.2 rfl]
      · rfl

/-- There are as many tags for the returned value however the line breaks are written. -/
theorem returnCount_withEnding (hending : IsBreakText ending) (t : Text) :
    returnCount (withEnding ending t) = returnCount t := by
  have hbreak {brk : Text} (hbrk : IsBreakText brk) (u : Text) :
      returnCount (brk ++ u) = returnCount u := by
    have hskip {c : Char} (hc : c ∈ brk) (u : Text) : returnCount (c :: u) = returnCount u := by
      rw [returnCount, not_opensTag_of_isBreak (Text.isBreak_of_mem hbrk hc)]
      simp
    rcases hbrk with rfl | rfl | rfl
    · exact hskip (by simp) u
    · exact (hskip (by simp) _).trans (hskip (by simp) u)
    · exact hskip (by simp) u
  induction t using Text.break_induction with
  | nil => simp
  | brk b t hb hnext ih => rw [Text.withEnding_break hb hnext, hbreak hending, hbreak hb, ih]
  | char c t hc ih =>
    rw [Text.withEnding_cons hc, returnCount, returnCount, ih,
      Text.takeWhile_withEnding (fun _ => Text.not_isWordChar_of_isBreak) hending]

end ShaderStyle.Documentation
