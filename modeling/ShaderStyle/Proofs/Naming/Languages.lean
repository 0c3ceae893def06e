import ShaderStyle.Proofs.Naming.Suggestion

/-!
# The names of each case style

Which names are written in a case style, said as a language and not through the words that a name is
taken apart into (`isWritten_iff_mem`). The forms of the styles are regular languages
(`caseLanguage`), and in snake case and upper snake case nothing else is asked for. In camel case and
Pascal case two capitals may stand side by side only in front of a small letter
(`CapitalsLeadOn`): the second of them then starts a word, and the first is a word of its own.
-/

namespace ShaderStyle.Naming

open scoped Computability

variable {p q : Char → Bool} {w : Text}

/-! ## Languages -/

/-- The texts of one character of a class. -/
def oneOf (p : Char → Bool) : Language Char :=
  {w | ∃ c, p c = true ∧ w = [c]}

/-- One text of a language or more, one behind the other. -/
def repeated (l : Language Char) : Language Char :=
  l * l∗

/-- The form of the names of a case style. -/
def caseLanguage : CaseStyle → Language Char
  | .camel => oneOf Char.isLower * (oneOf isSmall)∗ * (oneOf Char.isUpper * (oneOf isSmall)∗)∗
  | .pascal => repeated (oneOf Char.isUpper * (oneOf isSmall)∗)
  | .snake => oneOf Char.isLower * (oneOf isSmall)∗ * (oneOf (· = '_') * repeated (oneOf isSmall))∗
  | .upperSnake => repeated (oneOf Char.isUpper) *
      (oneOf (· = '_') * (repeated (oneOf Char.isUpper) + repeated (oneOf Char.isDigit)))∗

/-- Two capitals side by side are followed by a small letter. -/
def CapitalsLeadOn (name : Text) : Prop :=
  ∀ x a b y, name = x ++ a :: b :: y → a.isUpper = true → b.isUpper = true →
    ∃ c z, y = c :: z ∧ c.isLower = true

theorem mem_oneOf : w ∈ oneOf p ↔ ∃ c, p c = true ∧ w = [c] := Iff.rfl

theorem mem_kstar_iff {l : Language Char} : w ∈ l∗ ↔ w = [] ∨ w ∈ repeated l := by
  rw [← Language.one_add_self_mul_kstar_eq_kstar, Language.mem_add, Language.mem_one]
  rfl

theorem mem_kstar_oneOf : w ∈ (oneOf p)∗ ↔ ∀ c ∈ w, p c = true := by
  constructor
  · intro h
    rcases Language.mem_kstar.1 h with ⟨ws, rfl, hws⟩
    intro c hc
    rcases List.mem_flatten.1 hc with ⟨v, hv, hcv⟩
    rcases mem_oneOf.1 (hws v hv) with ⟨x, hx, rfl⟩
    rw [List.mem_singleton.1 hcv]
    exact hx
  · intro h
    refine Language.mem_kstar.2 ⟨w.map ([·]), (List.flatMap_singleton' w).symm, ?_⟩
    intro v hv
    rcases List.mem_map.1 hv with ⟨c, hc, rfl⟩
    exact ⟨c, h c hc, rfl⟩

theorem startsAndGoes_iff :
    startsAndGoes p q w = true ↔ ∃ c u, w = c :: u ∧ p c = true ∧ ∀ x ∈ u, q x = true := by
  constructor
  · intro h
    rcases w with _ | ⟨c, u⟩
    · exact absurd h (by simp [startsAndGoes])
    · rcases Bool.and_eq_true_iff.1 h with ⟨hc, hu⟩
      exact ⟨c, u, rfl, hc, List.all_eq_true.1 hu⟩
  · rintro ⟨c, u, rfl, hc, hu⟩
    exact Bool.and_eq_true_iff.2 ⟨hc, List.all_eq_true.2 hu⟩

theorem startsAndGoes_self_iff : startsAndGoes p p w = true ↔ w ≠ [] ∧ ∀ c ∈ w, p c = true := by
  rw [startsAndGoes_iff]
  constructor
  · rintro ⟨c, u, rfl, hc, hu⟩
    refine ⟨List.cons_ne_nil c u, ?_⟩
    intro x hx
    rcases List.mem_cons.1 hx with rfl | hx
    · exact hc
    · exact hu x hx
  · rintro ⟨hne, hw⟩
    rcases List.exists_cons_of_ne_nil hne with ⟨c, u, rfl⟩
    exact ⟨c, u, rfl, hw c List.mem_cons_self, fun x hx => hw x (List.mem_cons_of_mem c hx)⟩

/-- A character of one class, and then characters of another. -/
theorem mem_oneOf_mul_kstar : w ∈ oneOf p * (oneOf q)∗ ↔ startsAndGoes p q w = true := by
  rw [Language.mem_mul, startsAndGoes_iff]
  constructor
  · rintro ⟨_, ⟨c, hc, rfl⟩, u, hu, rfl⟩
    exact ⟨c, u, rfl, hc, mem_kstar_oneOf.1 hu⟩
  · rintro ⟨c, u, rfl, hc, hu⟩
    exact ⟨[c], ⟨c, hc, rfl⟩, u, mem_kstar_oneOf.2 hu, rfl⟩

theorem mem_repeated_oneOf : w ∈ repeated (oneOf p) ↔ w ≠ [] ∧ ∀ c ∈ w, p c = true := by
  rw [repeated, mem_oneOf_mul_kstar, startsAndGoes_self_iff]

/-- Texts of a language, each behind an underscore. -/
theorem mem_kstar_underscore {m : Language Char} :
    w ∈ (oneOf (· = '_') * m)∗ ↔
      ∃ us : List Text, w = us.flatMap ('_' :: ·) ∧ ∀ v ∈ us, v ∈ m := by
  rw [Language.mem_kstar]
  constructor
  · rintro ⟨parts, rfl, hparts⟩
    induction parts with
    | nil => exact ⟨[], rfl, by simp⟩
    | cons part parts ih =>
      rcases ih fun y hy => hparts y (List.mem_cons_of_mem part hy) with ⟨us, hus, hm⟩
      rcases Language.mem_mul.1 (hparts part List.mem_cons_self) with ⟨_, ⟨c, hc, rfl⟩, v, hv, rfl⟩
      have hunderscore : c = '_' := by simpa using hc
      refine ⟨v :: us, ?_, List.forall_mem_cons.2 ⟨hv, hm⟩⟩
      rw [List.flatten_cons, List.flatMap_cons, hus, hunderscore]
      rfl
  · rintro ⟨us, rfl, hm⟩
    refine ⟨us.map ('_' :: ·), rfl, ?_⟩
    intro y hy
    rcases List.mem_map.1 hy with ⟨v, hv, rfl⟩
    exact Language.mem_mul.2 ⟨['_'], ⟨'_', by simp, rfl⟩, v, hm v hv, rfl⟩

/-- One text of a language, and then texts of another behind underscores. -/
theorem mem_separated {l m : Language Char} :
    w ∈ l * (oneOf (· = '_') * m)∗ ↔
      ∃ u us, w = ['_'].intercalate (u :: us) ∧ u ∈ l ∧ ∀ v ∈ us, v ∈ m := by
  rw [Language.mem_mul]
  constructor
  · rintro ⟨u, hu, rest, hrest, rfl⟩
    rcases mem_kstar_underscore.1 hrest with ⟨us, rfl, hm⟩
    exact ⟨u, us, (Text.intercalate_cons u us).symm, hu, hm⟩
  · rintro ⟨u, us, rfl, hu, hm⟩
    exact ⟨u, hu, _, mem_kstar_underscore.2 ⟨us, rfl, hm⟩, (Text.intercalate_cons u us).symm⟩

/-! ## Parts between underscores -/

/-- The form of the snake cases: parts between underscores. -/
theorem isSnakeOf_iff {start next : Char → Bool} (hstart : start '_' = false)
    (hnext : next '_' = false) :
    isSnakeOf start next w = true ↔ ∃ u us, w = ['_'].intercalate (u :: us) ∧
      startsAndGoes start next u = true ∧ ∀ v ∈ us, v ≠ [] ∧ ∀ c ∈ v, next c = true := by
  constructor
  · intro h
    rcases List.exists_cons_of_ne_nil (Text.split_ne_nil '_' w) with ⟨u, us, hsplit⟩
    rw [isSnakeOf, hsplit] at h
    rcases Bool.and_eq_true_iff.1 h with ⟨hu, hus⟩
    refine ⟨u, us, ?_, hu, ?_⟩
    · rw [← hsplit, Text.intercalate_split]
    · intro v hv
      exact startsAndGoes_self_iff.1 (List.all_eq_true.1 hus v hv)
  · rintro ⟨u, us, rfl, hu, hus⟩
    refine isSnakeOf_intercalate hu hus ?_
    intro v hv hmem
    rcases List.mem_cons.1 hv with rfl | hv
    · rcases startsAndGoes_iff.1 hu with ⟨c, u, rfl, hc, hmore⟩
      rcases List.mem_cons.1 hmem with rfl | hmem
      · rw [hstart] at hc
        exact absurd hc (by decide)
      · have hunderscore := hmore '_' hmem
        rw [hnext] at hunderscore
        exact absurd hunderscore (by decide)
    · have hunderscore := (hus v hv).2 '_' hmem
      rw [hnext] at hunderscore
      exact absurd hunderscore (by decide)

theorem isWritten_iff {style : CaseStyle} :
    isWritten w style = true ↔ hasForm w style = true ∧ convert w style = w := by
  rw [isWritten, Bool.and_eq_true, decide_eq_true_eq]

/-- In snake case the words of a name are the parts between its underscores. -/
theorem convert_snake {us : List Text} (hne : us ≠ [])
    (hus : ∀ u ∈ us, u ≠ [] ∧ ∀ c ∈ u, isSmall c = true) :
    convert (['_'].intercalate us) .snake = ['_'].intercalate us := by
  have hwords : AreWords us := fun u hu =>
    ⟨(hus u hu).1, fun c hc => isAlphanum_of_isSmall ((hus u hu).2 c hc)⟩
  have hlower : us.map lower = us := by
    refine (List.map_congr_left ?_).trans (List.map_id us)
    intro u hu
    refine (List.map_congr_left ?_).trans (List.map_id u)
    intro c hc
    exact toLower_of_isSmall ((hus u hu).2 c hc)
  have hjoin := convert_join_snake hwords hne
  rwa [join, hlower] at hjoin

theorem isWritten_snake_iff : isWritten w .snake = true ↔ w ∈ caseLanguage .snake := by
  have hform : hasForm w .snake = true ↔ ∃ u us, w = ['_'].intercalate (u :: us) ∧
      startsAndGoes Char.isLower isSmall u = true ∧ ∀ v ∈ us, v ≠ [] ∧ ∀ c ∈ v, isSmall c = true :=
    isSnakeOf_iff (by decide) (by decide)
  rw [isWritten_iff, hform, caseLanguage, mem_separated]
  simp only [mem_oneOf_mul_kstar, mem_repeated_oneOf]
  refine and_iff_left_of_imp ?_
  rintro ⟨u, us, rfl, hu, hus⟩
  refine convert_snake (List.cons_ne_nil u us) ?_
  intro v hv
  rcases List.mem_cons.1 hv with rfl | hv
  · rcases startsAndGoes_iff.1 hu with ⟨c, v, rfl, hc, hv⟩
    exact startsAndGoes_self_iff.1 (startsAndGoes_iff.2 ⟨c, v, rfl, isSmall_of_isLower hc, hv⟩)
  · exact hus v hv

/-- In upper snake case the parts between the underscores are the words of the name only if none mixes
capitals and digits. -/
theorem convert_upperSnake_iff {us : List Text} (hne : us ≠ [])
    (hus : ∀ u ∈ us, u ≠ [] ∧ ∀ c ∈ u, isLarge c = true) :
    convert (['_'].intercalate us) .upperSnake = ['_'].intercalate us ↔
      ∀ u ∈ us, (∀ c ∈ u, c.isUpper = true) ∨ ∀ c ∈ u, c.isDigit = true := by
  have hwords : AreWords us := fun u hu =>
    ⟨(hus u hu).1, fun c hc => isAlphanum_of_isLarge ((hus u hu).2 c hc)⟩
  have hupper : us.map upper = us := by
    refine (List.map_congr_left ?_).trans (List.map_id us)
    intro u hu
    refine (List.map_congr_left ?_).trans (List.map_id u)
    intro c hc
    exact toUpper_eq_self_iff.2 (not_isLower_of_isLarge ((hus u hu).2 c hc))
  have hjoin := convert_join_upperSnake_iff hwords hne
  rw [join, hupper, StaysApart] at hjoin
  rw [hjoin]
  refine forall₂_congr fun u hu => or_congr ?_ List.all_eq_true
  rw [List.all_eq_true]
  refine forall₂_congr fun c hc => ?_
  -- a capital or a digit is a letter only if it is a capital
  simp [Char.isAlpha, not_isLower_of_isLarge ((hus u hu).2 c hc)]

theorem isWritten_upperSnake_iff :
    isWritten w .upperSnake = true ↔ w ∈ caseLanguage .upperSnake := by
  have hform : hasForm w .upperSnake = true ↔ ∃ u us, w = ['_'].intercalate (u :: us) ∧
      startsAndGoes Char.isUpper isLarge u = true ∧ ∀ v ∈ us, v ≠ [] ∧ ∀ c ∈ v, isLarge c = true :=
    isSnakeOf_iff (by decide) (by decide)
  rw [isWritten_iff, hform, caseLanguage, mem_separated]
  simp only [Language.mem_add, mem_repeated_oneOf]
  constructor
  · rintro ⟨⟨u, us, rfl, hu, hus⟩, hconvert⟩
    rcases startsAndGoes_iff.1 hu with ⟨c, u, rfl, hc, hlarge⟩
    have hfirst : c :: u ≠ [] ∧ ∀ x ∈ c :: u, isLarge x = true :=
      startsAndGoes_self_iff.1 (startsAndGoes_iff.2 ⟨c, u, rfl, by simp [isLarge, hc], hlarge⟩)
    have hpure := (convert_upperSnake_iff (List.cons_ne_nil _ us)
      (List.forall_mem_cons.2 ⟨hfirst, hus⟩)).1 hconvert
    refine ⟨c :: u, us, rfl, ⟨hfirst.1, ?_⟩, ?_⟩
    · -- the first part starts with a capital, so it is not the digits
      rcases hpure _ List.mem_cons_self with hupper | hdigit
      · exact hupper
      · have hnot := not_isUpper_of_isDigit (hdigit c List.mem_cons_self)
        rw [hc] at hnot
        exact absurd hnot (by decide)
    · intro v hv
      rcases hpure v (List.mem_cons_of_mem _ hv) with hupper | hdigit
      · exact .inl ⟨(hus v hv).1, hupper⟩
      · exact .inr ⟨(hus v hv).1, hdigit⟩
  · rintro ⟨u, us, rfl, hu, hus⟩
    have hpure : ∀ v ∈ u :: us, v ≠ [] ∧
        ((∀ c ∈ v, c.isUpper = true) ∨ ∀ c ∈ v, c.isDigit = true) := by
      intro v hv
      rcases List.mem_cons.1 hv with rfl | hv
      · exact ⟨hu.1, .inl hu.2⟩
      · rcases hus v hv with ⟨hne, hupper⟩ | ⟨hne, hdigit⟩
        · exact ⟨hne, .inl hupper⟩
        · exact ⟨hne, .inr hdigit⟩
    have hlarge : ∀ v ∈ u :: us, v ≠ [] ∧ ∀ c ∈ v, isLarge c = true := by
      intro v hv
      refine ⟨(hpure v hv).1, ?_⟩
      intro c hc
      rcases (hpure v hv).2 with hupper | hdigit
      · exact Bool.or_eq_true_iff.2 (.inl (hupper c hc))
      · exact Bool.or_eq_true_iff.2 (.inr (hdigit c hc))
    constructor
    · refine ⟨u, us, rfl, ?_, fun v hv => hlarge v (List.mem_cons_of_mem u hv)⟩
      rcases List.exists_cons_of_ne_nil hu.1 with ⟨c, u, rfl⟩
      refine startsAndGoes_iff.2 ⟨c, u, rfl, hu.2 c List.mem_cons_self, ?_⟩
      intro x hx
      exact (hlarge _ List.mem_cons_self).2 x (List.mem_cons_of_mem c hx)
    · exact (convert_upperSnake_iff (List.cons_ne_nil u us) hlarge).2 fun v hv => (hpure v hv).2

/-! ## Parts that start with a capital -/

/-- A text can be cut in front of each character of one class, if this class and another one are all
there is behind its first character. -/
theorem mem_parts {start : Char → Bool} :
    w ∈ oneOf start * (oneOf q)∗ * (oneOf p * (oneOf q)∗)∗ ↔
      startsAndGoes start (fun c => p c || q c) w = true := by
  have hpart {r : Char → Bool} {v : Text} : v ∈ oneOf r * (oneOf q)∗ ↔ startsAndGoes r q v = true :=
    mem_oneOf_mul_kstar
  constructor
  · intro h
    rcases Language.mem_mul.1 h with ⟨u, hu, rest, hrest, rfl⟩
    rcases startsAndGoes_iff.1 (hpart.1 hu) with ⟨c, u, rfl, hc, hq⟩
    refine startsAndGoes_iff.2 ⟨c, u ++ rest, rfl, hc, ?_⟩
    intro x hx
    rcases List.mem_append.1 hx with hx | hx
    · simp [hq x hx]
    · rcases Language.mem_kstar.1 hrest with ⟨parts, rfl, hparts⟩
      rcases List.mem_flatten.1 hx with ⟨v, hv, hx⟩
      rcases startsAndGoes_iff.1 (hpart.1 (hparts v hv)) with ⟨d, v, rfl, hd, hq⟩
      rcases List.mem_cons.1 hx with rfl | hx
      · simp [hd]
      · simp [hq x hx]
  · -- a part goes up to the next character that is not of the second class
    induction hlen : w.length using Nat.strongRecOn generalizing w start with
    | _ n ih =>
    intro h
    rcases startsAndGoes_iff.1 h with ⟨c, t, rfl, hc, ht⟩
    refine Language.mem_mul.2 ⟨c :: t.takeWhile q, ?_, t.dropWhile q, ?_, by simp⟩
    · exact hpart.2 (startsAndGoes_iff.2 ⟨c, _, rfl, hc, List.all_eq_true.1 List.all_takeWhile⟩)
    · rw [mem_kstar_iff]
      rcases hdrop : t.dropWhile q with _ | ⟨d, rest⟩
      · exact .inl rfl
      · right
        have hsub : (d :: rest).Sublist t := hdrop ▸ List.dropWhile_sublist q
        have hstop := any_head?_dropWhile q t
        rw [hdrop] at hstop
        have hq : q d = false := by simpa using hstop
        have hp : p d = true := by simpa [hq] using ht d (hsub.subset List.mem_cons_self)
        refine ih (d :: rest).length ?_ rfl ?_
        · have hshort := hsub.length_le
          rw [List.length_cons] at hlen
          omega
        · refine startsAndGoes_iff.2 ⟨d, rest, rfl, hp, ?_⟩
          intro x hx
          exact ht x (hsub.subset (List.mem_cons_of_mem d hx))

theorem isUpper_or_isSmall : (fun c => Char.isUpper c || isSmall c) = Char.isAlphanum := by
  funext c
  rw [Bool.eq_iff_iff, isAlphanum_iff, Bool.or_eq_true]

theorem mem_caseLanguage_camel :
    w ∈ caseLanguage .camel ↔ startsAndGoes Char.isLower Char.isAlphanum w = true := by
  rw [caseLanguage, mem_parts, isUpper_or_isSmall]

theorem mem_caseLanguage_pascal :
    w ∈ caseLanguage .pascal ↔ startsAndGoes Char.isUpper Char.isAlphanum w = true := by
  rw [caseLanguage, repeated, mem_parts, isUpper_or_isSmall]

theorem any_head?_iff : w.head?.any p = true ↔ ∃ c t, w = c :: t ∧ p c = true := by
  constructor
  · intro h
    rcases w with _ | ⟨c, t⟩
    · exact absurd h (by simp)
    · exact ⟨c, t, rfl, h⟩
  · rintro ⟨c, t, rfl, hc⟩
    exact hc

/-- Two capitals stand side by side at the start of a name or further on. -/
theorem capitalsLeadOn_cons_cons {a b : Char} {rest : Text} :
    CapitalsLeadOn (a :: b :: rest) ↔
      (a.isUpper = true → b.isUpper = true → rest.head?.any Char.isLower = true) ∧
        CapitalsLeadOn (b :: rest) := by
  constructor
  · intro h
    constructor
    · intro ha hb
      exact any_head?_iff.2 (h [] a b rest rfl ha hb)
    · intro x c d y hcut hc hd
      exact h (a :: x) c d y (by rw [hcut, List.cons_append]) hc hd
  · rintro ⟨hhere, hmore⟩ x c d y hcut hc hd
    rcases x with _ | ⟨a', x⟩
    · simp only [List.nil_append, List.cons.injEq] at hcut
      rcases hcut with ⟨rfl, rfl, rfl⟩
      exact any_head?_iff.1 (hhere hc hd)
    · rw [List.cons_append, List.cons.injEq] at hcut
      exact hmore x c d y hcut.2 hc hd

theorem crowded_eq_false_iff_capitalsLeadOn : crowded w = false ↔ CapitalsLeadOn w := by
  fun_induction crowded w with
  | case1 a b rest ih =>
    rw [Bool.or_eq_false_iff, ih, capitalsLeadOn_cons_cons]
    refine and_congr_left' ?_
    rw [← Bool.not_eq_true, Bool.and_eq_true, Bool.and_eq_true, Bool.not_eq_true', not_and,
      Bool.not_eq_false, and_imp]
  | case2 t hshort =>
    refine ⟨fun _ => ?_, fun _ => rfl⟩
    intro x a b y hcut
    rcases x with _ | ⟨c, _ | ⟨d, x⟩⟩
    · exact absurd hcut (hshort a b y)
    · exact absurd hcut (hshort c a (b :: y))
    · exact absurd hcut (hshort c d (x ++ a :: b :: y))

theorem isWritten_camel_iff :
    isWritten w .camel = true ↔ w ∈ caseLanguage .camel ∧ CapitalsLeadOn w := by
  rw [isWritten_iff, mem_caseLanguage_camel, hasForm, ← crowded_eq_false_iff_capitalsLeadOn]
  refine and_congr_right ?_
  intro h
  rcases startsAndGoes_iff.1 h with ⟨c, t, rfl, hc, ht⟩
  have hsmall := isSmall_of_isLower hc
  rw [convert_eq_join (words_ne_nil List.mem_cons_self (isAlphanum_of_isSmall hsmall)),
    join_camel_words_iff hsmall ht]

theorem isWritten_pascal_iff :
    isWritten w .pascal = true ↔ w ∈ caseLanguage .pascal ∧ CapitalsLeadOn w := by
  rw [isWritten_iff, mem_caseLanguage_pascal, hasForm, ← crowded_eq_false_iff_capitalsLeadOn]
  refine and_congr_right ?_
  intro h
  rcases startsAndGoes_iff.1 h with ⟨c, t, rfl, hc, ht⟩
  have halnum : ∀ x ∈ c :: t, x.isAlphanum = true :=
    List.forall_mem_cons.2 ⟨isAlphanum_iff.2 (.inl hc), ht⟩
  have hnot : c.isLower = false := by simpa using Char.not_isLower_of_isUpper hc
  rw [convert_eq_join (words_ne_nil List.mem_cons_self (halnum c List.mem_cons_self)), join,
    flatMap_capitalize_words_iff halnum hnot]

/-- The names that are written in a case style. -/
theorem isWritten_iff_mem (name : Text) :
    (isWritten name .snake = true ↔ name ∈ caseLanguage .snake) ∧
    (isWritten name .upperSnake = true ↔ name ∈ caseLanguage .upperSnake) ∧
    (isWritten name .camel = true ↔ name ∈ caseLanguage .camel ∧ CapitalsLeadOn name) ∧
    (isWritten name .pascal = true ↔ name ∈ caseLanguage .pascal ∧ CapitalsLeadOn name) :=
  ⟨isWritten_snake_iff, isWritten_upperSnake_iff, isWritten_camel_iff, isWritten_pascal_iff⟩

end ShaderStyle.Naming
