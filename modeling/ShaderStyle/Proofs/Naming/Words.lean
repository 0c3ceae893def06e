import Mathlib
import ShaderStyle.Naming

/-!
# The words of a name

`IsFirstWord w rest` says, without the search that finds it, that `w` is the first word of `w ++ rest`:
a run of capitals, small letters and digits, or a capital with small letters and digits behind it,
each as long as it can be. Names are taken apart by it (`words_append`, `words_induction`). So nothing
of a name is lost but what is neither letter nor digit (`flatten_words`), and an underscore is always
between two words (`words_underscore`).
-/

namespace ShaderStyle.Naming

/-! ## Characters -/

theorem not_isAlpha_of_isDigit {c : Char} (h : c.isDigit = true) : c.isAlpha = false := by
  have hnine : '9'.val.toNat = 57 := rfl
  have hA : 'A'.val.toNat = 65 := rfl
  have ha : 'a'.val.toNat = 97 := rfl
  simp only [Char.isDigit, Char.isAlpha, Char.isUpper, Char.isLower, Bool.and_eq_true,
    decide_eq_true_eq, Bool.or_eq_false_iff, decide_eq_false_iff_not, UInt32.le_iff_toNat_le,
    ge_iff_le, Bool.and_eq_false_iff] at h ⊢
  omega

theorem not_isUpper_of_isDigit {c : Char} (h : c.isDigit = true) : c.isUpper = false :=
  (Bool.or_eq_false_iff.1 (not_isAlpha_of_isDigit h)).1

theorem not_isUpper_of_isSmall {c : Char} (h : isSmall c = true) : c.isUpper = false := by
  rcases Bool.or_eq_true_iff.1 h with hlower | hdigit
  · simpa using Char.not_isUpper_of_isLower hlower
  · exact not_isUpper_of_isDigit hdigit

theorem isSmall_of_isLower {c : Char} (h : c.isLower = true) : isSmall c = true := by
  simp [isSmall, h]

theorem isAlphanum_iff {c : Char} : c.isAlphanum = true ↔ c.isUpper = true ∨ isSmall c = true := by
  simp [Char.isAlphanum, Char.isAlpha, isSmall, or_assoc]

/-! ## The first word -/

/-- `w` is the first word of `w ++ rest`. -/
inductive IsFirstWord : Text → Text → Prop where
  /-- Capitals. A capital behind them belongs to the small letter that follows it. -/
  | capitals {w rest : Text} (ne : w ≠ []) (upper : ∀ c ∈ w, c.isUpper = true)
      (lower : rest.head?.any Char.isLower = false)
      (next : rest.head?.any Char.isUpper = true → rest.tail.head?.any Char.isLower = true) :
      IsFirstWord w rest
  /-- Small letters and digits. -/
  | small {w rest : Text} (ne : w ≠ []) (small : ∀ c ∈ w, isSmall c = true)
      (next : rest.head?.any isSmall = false) : IsFirstWord w rest
  /-- A capital, a small letter, and more small letters and digits. -/
  | capitalized {c d : Char} {w rest : Text} (upper : c.isUpper = true) (lower : d.isLower = true)
      (small : ∀ x ∈ w, isSmall x = true) (next : rest.head?.any isSmall = false) :
      IsFirstWord (c :: d :: w) rest

theorem takeWhile_eq_nil {p : Char → Bool} {t : Text} (h : t.head?.any p = false) :
    t.takeWhile p = [] := by
  cases t with
  | nil => rfl
  | cons c t => rw [List.takeWhile_cons, if_neg (by simpa using h)]

theorem dropWhile_eq_self {p : Char → Bool} {t : Text} (h : t.head?.any p = false) :
    t.dropWhile p = t := by
  cases t with
  | nil => rfl
  | cons c t => rw [List.dropWhile_cons, if_neg (by simpa using h)]

section Runs

variable {p : Char → Bool} {w rest : Text}

theorem takeWhile_run (hw : ∀ c ∈ w, p c = true) (hrest : rest.head?.any p = false) :
    (w ++ rest).takeWhile p = w := by
  rw [List.takeWhile_append_of_pos hw, takeWhile_eq_nil hrest, List.append_nil]

theorem dropWhile_run (hw : ∀ c ∈ w, p c = true) (hrest : rest.head?.any p = false) :
    (w ++ rest).dropWhile p = rest := by
  rw [List.dropWhile_append_of_pos hw, dropWhile_eq_self hrest]

end Runs

theorem words_of_small {c : Char} (hc : isSmall c = true) (t : Text) :
    words (c :: t) = (c :: t.takeWhile isSmall) :: words (t.dropWhile isSmall) := by
  rw [words, if_neg (by simp [not_isUpper_of_isSmall hc]), if_pos hc]

/-- The search finds the first word. -/
theorem words_append {w rest : Text} (h : IsFirstWord w rest) :
    words (w ++ rest) = w :: words rest := by
  cases h with
  | capitals ne upper lower next =>
    rcases w with _ | ⟨c, w⟩
    · exact absurd rfl ne
    · have hc : c.isUpper = true := upper c (by simp)
      have hw : ∀ x ∈ w, x.isUpper = true := fun x hx => upper x (by simp [hx])
      rw [List.cons_append, words, if_pos hc]
      cases hcap : rest.head?.any Char.isUpper with
      | false =>
        have hlen : Text.leading Char.isUpper (w ++ rest) = w.length := by
          rw [Text.leading, takeWhile_run hw hcap]
        simp [hlen, lower]
      | true =>
        -- the run goes on for one capital, which is left to the small letter behind it
        rcases rest with _ | ⟨e, _ | ⟨f, rest⟩⟩
        · simp at hcap
        · simpa using next hcap
        · have he : e.isUpper = true := by simpa using hcap
          have hf : f.isLower = true := by simpa using next hcap
          have hfu : f.isUpper = false := by simpa using Char.not_isUpper_of_isLower hf
          have hrun : ∀ x ∈ w ++ [e], x.isUpper = true := by
            intro x hx
            rcases List.mem_append.1 hx with hx | hx
            · exact hw x hx
            · rw [List.mem_singleton.1 hx]
              exact he
          have hlen : Text.leading Char.isUpper (w ++ e :: f :: rest) = w.length + 1 := by
            rw [Text.leading, List.append_cons, takeWhile_run hrun (by simpa using hfu)]
            simp
          have hdrop : (w ++ e :: f :: rest).drop (w.length + 1) = f :: rest := by simp
          simp [hlen, hdrop, hf]
  | small ne small next =>
    rcases w with _ | ⟨c, w⟩
    · exact absurd rfl ne
    · have hw : ∀ x ∈ w, isSmall x = true := fun x hx => small x (by simp [hx])
      rw [List.cons_append, words_of_small (small c (by simp)), takeWhile_run hw next,
        dropWhile_run hw next]
  | capitalized upper lower small next =>
    rename_i c d w
    have hw : ∀ x ∈ d :: w, isSmall x = true := by
      intro x hx
      rcases List.mem_cons.1 hx with rfl | hx
      · exact isSmall_of_isLower lower
      · exact small x hx
    have hnone : Text.leading Char.isUpper ((d :: w) ++ rest) = 0 := by
      rw [Text.leading, takeWhile_eq_nil (by simpa using Char.not_isUpper_of_isLower lower)]
      rfl
    have hnext : (((d :: w) ++ rest).drop 0).head?.any Char.isLower = true := by simpa using lower
    rw [List.cons_append, words, if_pos upper]
    simp only [hnone, hnext, if_true]
    rw [takeWhile_run hw next, dropWhile_run hw next]

theorem any_head?_dropWhile (p : Char → Bool) (t : Text) :
    (t.dropWhile p).head?.any p = false := by
  have h := List.head?_dropWhile_not p t
  cases hd : (t.dropWhile p).head? with
  | none => rfl
  | some x => rw [hd] at h; simpa using h

/-- A name that starts with a letter or a digit starts with a word. -/
theorem exists_firstWord {c : Char} (hc : c.isAlphanum = true) (t : Text) :
    ∃ w rest, c :: t = w ++ rest ∧ IsFirstWord w rest := by
  have hsmall : ∀ u : Text, ∀ x ∈ u.takeWhile isSmall, isSmall x = true :=
    fun u => List.all_eq_true.1 List.all_takeWhile
  rcases isAlphanum_iff.1 hc with hupper | hc
  · have hcaps : ∀ x ∈ t.takeWhile Char.isUpper, x.isUpper = true :=
      List.all_eq_true.1 List.all_takeWhile
    have hnext := any_head?_dropWhile Char.isUpper t
    have ht := List.takeWhile_append_dropWhile (p := Char.isUpper) (l := t)
    -- what stands behind the run of capitals decides where the word ends
    cases hlower : (t.dropWhile Char.isUpper).head?.any Char.isLower with
    | false =>
      refine ⟨c :: t.takeWhile Char.isUpper, t.dropWhile Char.isUpper, by simp, ?_⟩
      refine .capitals (by simp) ?_ hlower (by simp [hnext])
      intro x hx
      rcases List.mem_cons.1 hx with rfl | hx
      · exact hupper
      · exact hcaps x hx
    | true =>
      rcases List.eq_nil_or_concat (t.takeWhile Char.isUpper) with hnil | ⟨caps, e, hconcat⟩
      · rw [hnil, List.nil_append] at ht
        rw [ht] at hlower
        rcases t with _ | ⟨d, t⟩
        · simp at hlower
        · refine ⟨c :: d :: t.takeWhile isSmall, t.dropWhile isSmall, by simp, ?_⟩
          exact .capitalized hupper (by simpa using hlower) (hsmall t) (any_head?_dropWhile _ _)
      · rw [hconcat] at hcaps ht
        refine ⟨c :: caps, e :: t.dropWhile Char.isUpper, ?_, ?_⟩
        · rw [List.concat_eq_append, List.append_assoc, List.singleton_append] at ht
          rw [List.cons_append, ht]
        · have he : e.isUpper = true := hcaps e (by simp)
          refine .capitals (by simp) ?_ (by simpa using Char.not_isLower_of_isUpper he) ?_
          · intro x hx
            rcases List.mem_cons.1 hx with rfl | hx
            · exact hupper
            · exact hcaps x (by simp [hx])
          · intro _
            exact hlower
  · refine ⟨c :: t.takeWhile isSmall, t.dropWhile isSmall, by simp, ?_⟩
    refine .small (by simp) ?_ (any_head?_dropWhile _ _)
    intro x hx
    rcases List.mem_cons.1 hx with rfl | hx
    · exact hc
    · exact hsmall t x hx

theorem IsFirstWord.ne_nil {w rest : Text} (h : IsFirstWord w rest) : w ≠ [] := by
  cases h with
  | capitals ne => exact ne
  | small ne => exact ne
  | capitalized => simp

theorem words_of_not_isAlphanum {c : Char} (hc : c.isAlphanum = false) (t : Text) :
    words (c :: t) = words t := by
  have hnot : ¬ (c.isUpper = true ∨ isSmall c = true) := by
    rw [← isAlphanum_iff, hc]
    simp
  rw [not_or] at hnot
  rw [words, if_neg hnot.1, if_neg hnot.2]

/-- Taking a name apart word by word. -/
theorem words_induction {motive : Text → List Text → Prop} (nil : motive [] [])
    (skip : ∀ c t, c.isAlphanum = false → motive t (words t) → motive (c :: t) (words t))
    (word : ∀ w rest, IsFirstWord w rest → motive rest (words rest) →
      motive (w ++ rest) (w :: words rest)) (t : Text) : motive t (words t) := by
  induction hlen : t.length using Nat.strongRecOn generalizing t with
  | _ len ih =>
  rcases t with _ | ⟨c, t⟩
  · rw [words]
    exact nil
  · cases hc : c.isAlphanum with
    | false =>
      rw [words_of_not_isAlphanum hc]
      exact skip c t hc (ih t.length (by rw [← hlen]; simp) t rfl)
    | true =>
      rcases exists_firstWord hc t with ⟨w, rest, ht, hw⟩
      have hshort : rest.length < len := by
        have := List.length_pos_iff.2 hw.ne_nil
        rw [← hlen, ht, List.length_append]
        omega
      rw [ht, words_append hw]
      exact word w rest hw (ih rest.length hshort rest rfl)

/-! ## What the words are made of -/

theorem IsFirstWord.isAlphanum {w rest : Text} (h : IsFirstWord w rest) :
    ∀ c ∈ w, c.isAlphanum = true := by
  intro c hc
  rw [isAlphanum_iff]
  cases h with
  | capitals ne upper => exact .inl (upper c hc)
  | small ne small => exact .inr (small c hc)
  | capitalized upper lower small =>
    rcases List.mem_cons.1 hc with rfl | hc
    · exact .inl upper
    · rcases List.mem_cons.1 hc with rfl | hc
      · exact .inr (isSmall_of_isLower lower)
      · exact .inr (small c hc)

/-- The words of a name are its letters and digits, in order. -/
theorem flatten_words (t : Text) : (words t).flatten = t.filter Char.isAlphanum := by
  induction t using words_induction with
  | nil => rfl
  | skip c t hc ih => rw [ih, List.filter_cons_of_neg (by simp [hc])]
  | word w rest hw ih =>
    rw [List.flatten_cons, ih, List.filter_append, List.filter_eq_self.2 hw.isAlphanum]

theorem ne_nil_of_mem_words {t w : Text} (h : w ∈ words t) : w ≠ [] := by
  induction t using words_induction with
  | nil => simp at h
  | skip c t hc ih => exact ih h
  | word w' rest hw ih =>
    rcases List.mem_cons.1 h with rfl | h
    · exact hw.ne_nil
    · exact ih h

theorem isAlphanum_of_mem_words {t w : Text} (h : w ∈ words t) :
    ∀ c ∈ w, c.isAlphanum = true := by
  intro c hc
  have hmem : c ∈ (words t).flatten := List.mem_flatten.2 ⟨w, h, hc⟩
  rw [flatten_words, List.mem_filter] at hmem
  exact hmem.2

/-- No word reaches over an underscore. -/
theorem words_underscore (t rest : Text) : words (t ++ '_' :: rest) = words t ++ words rest := by
  induction t using words_induction with
  | nil => exact words_of_not_isAlphanum (by decide) rest
  | skip c t hc ih => rw [List.cons_append, words_of_not_isAlphanum hc, ih]
  | word w t hw ih =>
    have hw' : IsFirstWord w (t ++ '_' :: rest) := by
      cases hw with
      | capitals ne upper lower next =>
        rcases t with _ | ⟨e, _ | ⟨f, t⟩⟩
        · exact .capitals ne upper (by simp) (by simp)
        · refine .capitals ne upper lower ?_
          intro he
          simpa using next he
        · exact .capitals ne upper lower next
      | small ne small next =>
        rcases t with _ | ⟨e, t⟩
        · exact .small ne small (by rfl)
        · exact .small ne small next
      | capitalized upper lower small next =>
        rcases t with _ | ⟨e, t⟩
        · exact .capitalized upper lower small (by rfl)
        · exact .capitalized upper lower small next
    rw [List.append_assoc, words_append hw', ih, List.cons_append]

end ShaderStyle.Naming
