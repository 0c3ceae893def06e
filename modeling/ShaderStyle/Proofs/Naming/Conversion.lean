import ShaderStyle.Proofs.Naming.Languages

/-!
# Names and their words

A name of letters, digits and underscores is its words with underscores around them: none of its
letters and digits is left out, doubled or moved, and every word has the form of a word
(`words_convert_keep`). Writing the words in a case style puts underscores between them or takes these
away and changes the case of letters, and nothing else (`lower_bare_join`).
-/

namespace ShaderStyle.Naming

open scoped Computability

/-- A text without its underscores. -/
def bare (t : Text) : Text :=
  t.filter (· ≠ '_')

/-- The form of a word: capitals, or small letters and digits behind at most one capital. -/
def wordLanguage : Language Char :=
  repeated (oneOf Char.isUpper) + (1 + oneOf Char.isUpper) * (oneOf isSmall)∗

/-! ## The words of a name -/

theorem mem_wordLanguage {w rest : Text} (h : IsFirstWord w rest) : w ∈ wordLanguage := by
  rw [wordLanguage, Language.mem_add]
  cases h with
  | capitals ne upper => exact .inl (mem_repeated_oneOf.2 ⟨ne, upper⟩)
  | small ne small =>
    right
    exact Language.mem_mul.2 ⟨[], .inl Language.nil_mem_one, w, mem_kstar_oneOf.2 small, rfl⟩
  | @capitalized c d w rest upper lower small =>
    right
    refine Language.mem_mul.2 ⟨[c], .inr ⟨c, upper, rfl⟩, d :: w, mem_kstar_oneOf.2 ?_, rfl⟩
    exact List.forall_mem_cons.2 ⟨isSmall_of_isLower lower, small⟩

theorem mem_wordLanguage_of_mem_words {t w : Text} (h : w ∈ words t) : w ∈ wordLanguage := by
  induction t using words_induction with
  | nil => simp at h
  | skip c t hc ih => exact ih h
  | word v rest hv ih =>
    rcases List.mem_cons.1 h with rfl | h
    · exact mem_wordLanguage hv
    · exact ih h

theorem isAlphanum_eq_of_isNameChar {c : Char} (h : Text.isNameChar c = true) :
    c.isAlphanum = decide (c ≠ '_') := by
  by_cases hc : c = '_'
  · subst hc
    decide
  · have halnum : c.isAlphanum = true := by simpa [Text.isNameChar, hc] using h
    rw [halnum, decide_eq_true hc]

/-- Of a name of letters, digits and underscores, the words leave out the underscores alone. -/
theorem flatten_words_eq_bare {name : Text} (h : ∀ c ∈ name, Text.isNameChar c = true) :
    (words name).flatten = bare name := by
  rw [flatten_words, bare]
  exact List.filter_congr fun c hc => isAlphanum_eq_of_isNameChar (h c hc)

/-! ## The words in a case style -/

theorem bare_eq_self {t : Text} (h : '_' ∉ t) : bare t = t := by
  rw [bare, List.filter_eq_self]
  intro c hc
  rw [decide_eq_true_eq]
  rintro rfl
  exact h hc

theorem bare_append (s t : Text) : bare (s ++ t) = bare s ++ bare t :=
  List.filter_append s t

/-- The underscores between joined parts are all that goes away. -/
theorem bare_intercalate {us : List Text} (h : ∀ u ∈ us, '_' ∉ u) :
    bare (['_'].intercalate us) = us.flatten := by
  induction us with
  | nil => rfl
  | cons u us ih =>
    have hu : bare u = u := bare_eq_self (h u List.mem_cons_self)
    have ih := ih fun v hv => h v (List.mem_cons_of_mem u hv)
    cases us with
    | nil => simpa using hu
    | cons v us =>
      rw [List.intercalate_cons_cons, bare_append, bare_append, hu, ih, List.flatten_cons]
      simp [bare]

theorem lower_append (s t : Text) : lower (s ++ t) = lower s ++ lower t :=
  List.map_append

theorem lower_upper (t : Text) : lower (upper t) = lower t := by
  simp [lower, upper]

theorem lower_capitalize (w : Text) : lower (capitalize w) = lower w := by
  cases w <;> simp [capitalize, lower]

/-- Parts that differ from the words in the case of letters only, one behind the other. -/
theorem lower_flatMap {f : Text → Text} (hf : ∀ w, lower (f w) = lower w) (ws : List Text) :
    lower (ws.flatMap f) = lower ws.flatten := by
  induction ws with
  | nil => rfl
  | cons w ws ih => rw [List.flatMap_cons, List.flatten_cons, lower_append, lower_append, hf, ih]

theorem lower_flatten_map {f : Text → Text} (hf : ∀ w, lower (f w) = lower w) (ws : List Text) :
    lower (ws.map f).flatten = lower ws.flatten := by
  rw [← List.flatMap_def]
  exact lower_flatMap hf ws

/-- Joined in a case style, words have the letters and digits that they had before, up to letter
case. -/
theorem lower_bare_join {ws : List Text} (hws : AreWords ws) (style : CaseStyle) :
    lower (bare (join style ws)) = lower ws.flatten := by
  have hparts {us : List Text} (h : AreWords us) : ∀ u ∈ us, '_' ∉ u := fun u hu =>
    not_mem_of_isAlphanum (h u hu).2
  cases style with
  | camel =>
    cases ws with
    | nil => rfl
    | cons w ws =>
      have hfirst : ∀ c ∈ lower w, c.isAlphanum = true := fun c hc =>
        isAlphanum_of_isSmall (isSmall_of_mem_lower (hws w List.mem_cons_self).2 c hc)
      have hmore : AreWords ws := fun v hv => hws v (List.mem_cons_of_mem w hv)
      have hbare : bare (join .camel (w :: ws)) = lower w ++ ws.flatMap capitalize := by
        rw [join, bare_append, bare_eq_self (not_mem_of_isAlphanum hfirst),
          bare_eq_self (not_mem_of_isAlphanum (isAlphanum_of_mem_flatMap hmore))]
      rw [hbare, lower_append, lower_lower, lower_flatMap lower_capitalize, List.flatten_cons,
        lower_append]
  | pascal =>
    rw [join, bare_eq_self (not_mem_of_isAlphanum (isAlphanum_of_mem_flatMap hws)),
      lower_flatMap lower_capitalize]
  | snake =>
    have hlower : AreWords (ws.map lower) := fun v hv =>
      ⟨(lower_of_mem_map hws v hv).1, fun c hc =>
        isAlphanum_of_isSmall ((lower_of_mem_map hws v hv).2 c hc)⟩
    rw [join, bare_intercalate (hparts hlower), lower_flatten_map lower_lower]
  | upperSnake =>
    have hupper : AreWords (ws.map upper) := fun v hv =>
      ⟨(upper_of_mem_map hws v hv).1, fun c hc =>
        isAlphanum_of_isLarge ((upper_of_mem_map hws v hv).2 c hc)⟩
    rw [join, bare_intercalate (hparts hupper), lower_flatten_map lower_upper]

/-! ## Names -/

/-- The words of a name are its letters and digits in order, each of them has the form of a word, and
in every case style the name is written with the same letters and digits, up to letter case. -/
theorem words_convert_keep (name : Text) (hname : ∀ c ∈ name, Text.isNameChar c = true) :
    (words name).flatten = bare name ∧
      (∀ w ∈ words name, w ≠ [] ∧ w ∈ wordLanguage) ∧
      ∀ style, lower (bare (convert name style)) = lower (bare name) := by
  have hflatten := flatten_words_eq_bare hname
  refine ⟨hflatten, ?_, ?_⟩
  · intro w hw
    exact ⟨ne_nil_of_mem_words hw, mem_wordLanguage_of_mem_words hw⟩
  · intro style
    by_cases hnil : words name = []
    · rw [convert, hnil]
    · rw [convert_eq_join hnil, lower_bare_join (areWords_words name), hflatten]

/-- An acronym, a digit and underscores at either end. -/
theorem words_convert_keep_acronym :
    (∀ c ∈ "_URLPath__2d_".toList, Text.isNameChar c = true) ∧
      words "_URLPath__2d_".toList = ["URL".toList, "Path".toList, "2d".toList] ∧
      (words "_URLPath__2d_".toList).flatten = "URLPath2d".toList ∧
      convert "_URLPath__2d_".toList .snake = "url_path_2d".toList ∧
      lower (bare (convert "_URLPath__2d_".toList .snake)) = "urlpath2d".toList := by
  have hname : ∀ c ∈ "_URLPath__2d_".toList, Text.isNameChar c = true :=
    List.all_eq_true.1 (by decide)
  rcases words_convert_keep "_URLPath__2d_".toList hname with ⟨hflatten, -, hconvert⟩
  refine ⟨hname, by cbv, ?_, by cbv, ?_⟩
  · rw [hflatten]
    decide
  · rw [hconvert]
    decide

end ShaderStyle.Naming
