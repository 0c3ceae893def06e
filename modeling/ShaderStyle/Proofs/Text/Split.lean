import ShaderStyle.Text.Basic

/-!
# Parts of a text

A text is cut at a separator, and parts are joined by one. Parts that do not hold the separator are
found again in what they are joined to (`split_intercalate`).
-/

namespace ShaderStyle

namespace Text

variable {sep : Char} {t : Text}

theorem split_of_not_mem (h : sep ∉ t) : split sep t = [t] := by
  induction t with
  | nil => rfl
  | cons c t ih =>
    rw [List.mem_cons, not_or] at h
    rw [split, if_neg (Ne.symm h.1), ih h.2]
    rfl

theorem split_append_cons (h : sep ∉ t) (rest : Text) :
    split sep (t ++ sep :: rest) = t :: split sep rest := by
  induction t with
  | nil => rw [List.nil_append, split, if_pos rfl]
  | cons c t ih =>
    rw [List.mem_cons, not_or] at h
    rw [List.cons_append, split, if_neg (Ne.symm h.1), ih h.2]
    rfl

theorem not_mem_of_mem_split {part : Text} (h : part ∈ split sep t) : sep ∉ part := by
  induction t generalizing part with
  | nil => simp_all [split]
  | cons c t ih =>
    rw [split] at h
    split at h
    · rcases List.mem_cons.1 h with rfl | hmore
      · simp
      · exact ih hmore
    · rename_i hc
      cases hparts : split sep t with
      | nil => simp [hparts] at h
      | cons first more =>
        rw [hparts, List.modifyHead_cons] at h
        rcases List.mem_cons.1 h with rfl | hmore
        · have hfirst := ih (by rw [hparts]; exact List.mem_cons_self)
          simp [hfirst, Ne.symm hc]
        · exact ih (by rw [hparts]; exact List.mem_cons_of_mem _ hmore)

/-- Joined parts are cut where they were joined. -/
theorem split_intercalate {parts : List Text} (hne : parts ≠ []) (h : ∀ part ∈ parts, sep ∉ part) :
    split sep ([sep].intercalate parts) = parts := by
  induction parts with
  | nil => exact absurd rfl hne
  | cons part parts ih =>
    have hpart := h part (by simp)
    cases parts with
    | nil => simpa using split_of_not_mem hpart
    | cons next more =>
      have hmore := ih (by simp) fun q hq => h q (by simp [hq])
      rw [List.intercalate_cons_cons, List.append_assoc, List.singleton_append,
        split_append_cons hpart, hmore]

theorem split_ne_nil (sep : Char) (t : Text) : split sep t ≠ [] := by
  induction t with
  | nil => simp [split]
  | cons c t ih =>
    rw [split]
    split
    · simp
    · intro hnil
      exact ih (List.modifyHead_eq_nil_iff.1 hnil)

/-- Joined again, the parts of a text are the text. -/
theorem intercalate_split (sep : Char) (t : Text) : [sep].intercalate (split sep t) = t := by
  induction t with
  | nil => rfl
  | cons c t ih =>
    rcases List.exists_cons_of_ne_nil (split_ne_nil sep t) with ⟨part, parts, hparts⟩
    rw [hparts] at ih
    rw [split, hparts]
    split
    · rename_i hc
      rw [List.intercalate_cons_cons, ih, hc]
      rfl
    · rw [List.modifyHead_cons]
      cases parts with
      | nil => simpa using ih
      | cons next more =>
        rw [List.intercalate_cons_cons] at ih ⊢
        rw [List.cons_append, List.cons_append, ih]

/-- Behind the first part, every part stands behind a separator. -/
theorem intercalate_cons (part : Text) (parts : List Text) :
    [sep].intercalate (part :: parts) = part ++ parts.flatMap (sep :: ·) := by
  induction parts generalizing part with
  | nil => simp
  | cons next more ih =>
    rw [List.intercalate_cons_cons, ih, List.append_assoc, List.flatMap_cons]
    rfl

/-- Joined parts do not end where parts are joined. -/
theorem exists_intercalate_concat {parts : List Text} (hne : parts ≠ [])
    (h : ∀ part ∈ parts, part ≠ [] ∧ sep ∉ part) :
    ∃ before last, [sep].intercalate parts = before ++ [last] ∧ last ≠ sep := by
  induction parts with
  | nil => exact absurd rfl hne
  | cons part parts ih =>
    cases parts with
    | nil =>
      obtain ⟨hpart, hsep⟩ := h part (by simp)
      rcases List.eq_nil_or_concat part with hnil | ⟨before, last, rfl⟩
      · exact absurd hnil hpart
      · refine ⟨before, last, by simp, ?_⟩
        rintro rfl
        simp at hsep
    | cons next more =>
      obtain ⟨before, last, hmore, hlast⟩ := ih (by simp) fun q hq => h q (by simp [hq])
      refine ⟨part ++ [sep] ++ before, last, ?_, hlast⟩
      rw [List.intercalate_cons_cons, hmore, List.append_assoc _ before]

end Text

end ShaderStyle
