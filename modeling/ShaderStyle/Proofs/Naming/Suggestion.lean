import ShaderStyle.Compliance
import ShaderStyle.Proofs.Naming.Words
import ShaderStyle.Proofs.Text.Split

/-!
# Suggested names

The check of a name's case suggests the name rewritten in the wanted style. The suggestion passes the
same check exactly if the words of the name can be told apart again in it (`StaysApart`):

* in snake case always;
* in upper snake case if no word mixes letters and digits, as in `color2`, since `COLOR2` reads as two
  words;
* in Pascal case if no single letter stands before a word that starts with a letter and no second one,
  as in `u_v`, since the capitals of `UV` read as one word; in camel case likewise behind the first
  word.

`isWritten_convert_iff` says so for every name whose first letter or digit is a letter.
-/

namespace ShaderStyle.Naming

/-- Both words start with a letter, and in capitals their two first letters read as one word: the
first word has no more letters, and no letter follows in the second. -/
def runsTogether (u v : Text) : Bool :=
  u.length = 1 && u.all Char.isAlpha && v.head?.any Char.isAlpha && !v.tail.head?.any Char.isAlpha

/-- The words can be told apart again when they are written in the style. -/
def StaysApart (ws : List Text) : CaseStyle → Prop
  | .camel => ws.tail.IsChain fun u v => runsTogether u v = false
  | .pascal => ws.IsChain fun u v => runsTogether u v = false
  | .snake => True
  | .upperSnake => ∀ w ∈ ws, w.all Char.isAlpha = true ∨ w.all Char.isDigit = true

/-- Nonempty words of letters and digits. -/
def AreWords (ws : List Text) : Prop :=
  ∀ w ∈ ws, w ≠ [] ∧ ∀ c ∈ w, c.isAlphanum = true

theorem areWords_words (t : Text) : AreWords (words t) :=
  fun _ hw => ⟨ne_nil_of_mem_words hw, isAlphanum_of_mem_words hw⟩

/-! ## Letters of either case -/

theorem toLower_of_isSmall {c : Char} (h : isSmall c = true) : c.toLower = c :=
  Char.toLower_eq_of_not_isUpper (by simp [not_isUpper_of_isSmall h])

theorem toUpper_eq_self_iff {c : Char} : c.toUpper = c ↔ c.isLower = false := by
  constructor
  · intro h
    rw [← h]
    simp
  · intro h
    exact Char.toUpper_eq_of_not_isLower (by simp [h])

theorem toLower_eq_self_iff {c : Char} : c.toLower = c ↔ c.isUpper = false := by
  constructor
  · intro h
    rw [← h]
    simp
  · intro h
    exact Char.toLower_eq_of_not_isUpper (by simp [h])

theorem isSmall_toLower {c : Char} (h : c.isAlphanum = true) : isSmall c.toLower = true := by
  rcases isAlphanum_iff.1 h with hupper | hsmall
  · exact isSmall_of_isLower (by simp [Char.isAlpha, hupper])
  · rwa [toLower_of_isSmall hsmall]

theorem isLarge_toUpper {c : Char} (h : c.isAlphanum = true) : isLarge c.toUpper = true := by
  rcases Bool.or_eq_true_iff.1 h with halpha | hdigit
  · simp [isLarge, halpha]
  · have hlower : c.isLower = false := (Bool.or_eq_false_iff.1 (not_isAlpha_of_isDigit hdigit)).2
    rw [toUpper_eq_self_iff.2 hlower]
    simp [isLarge, hdigit]

theorem isAlphanum_of_isSmall {c : Char} (h : isSmall c = true) : c.isAlphanum = true :=
  isAlphanum_iff.2 (.inr h)

theorem isAlphanum_of_isLarge {c : Char} (h : isLarge c = true) : c.isAlphanum = true := by
  rw [isAlphanum_iff]
  rcases Bool.or_eq_true_iff.1 h with hupper | hdigit
  · exact .inl hupper
  · exact .inr (by simp [isSmall, hdigit])

theorem not_mem_of_isAlphanum {w : Text} (h : ∀ c ∈ w, c.isAlphanum = true) : '_' ∉ w := by
  intro hmem
  exact absurd (h '_' hmem) (by decide)

/-! ## Words between underscores -/

/-- The words of joined parts are the words of the parts. -/
theorem words_intercalate (us : List Text) : words (['_'].intercalate us) = us.flatMap words := by
  induction us with
  | nil => simp [words]
  | cons u us ih =>
    cases us with
    | nil => simp
    | cons v us =>
      rw [List.intercalate_cons_cons, List.append_assoc, List.singleton_append, words_underscore, ih]
      rfl

theorem words_of_isSmall {w : Text} (hne : w ≠ []) (hw : ∀ c ∈ w, isSmall c = true) :
    words w = [w] := by
  have hfirst : IsFirstWord w [] := .small hne hw rfl
  have h := words_append hfirst
  rwa [List.append_nil, words] at h

theorem words_of_isUpper {w : Text} (hne : w ≠ []) (hw : ∀ c ∈ w, c.isUpper = true) :
    words w = [w] := by
  have hfirst : IsFirstWord w [] := .capitals hne hw rfl (by simp)
  have h := words_append hfirst
  rwa [List.append_nil, words] at h

theorem flatten_words_of_isAlphanum {t : Text} (h : ∀ c ∈ t, c.isAlphanum = true) :
    (words t).flatten = t := by
  rw [flatten_words, List.filter_eq_self.2 h]

theorem length_upper (t : Text) : (upper t).length = t.length := by
  simp [upper]

theorem isLarge_of_mem_upper {w : Text} (hw : ∀ c ∈ w, c.isAlphanum = true) :
    ∀ c ∈ upper w, isLarge c = true := by
  intro c hc
  rcases List.mem_map.1 hc with ⟨x, hx, rfl⟩
  exact isLarge_toUpper (hw x hx)

theorem not_isLower_of_isLarge {c : Char} (h : isLarge c = true) : c.isLower = false := by
  rcases Bool.or_eq_true_iff.1 h with hupper | hdigit
  · simpa using Char.not_isLower_of_isUpper hupper
  · exact (Bool.or_eq_false_iff.1 (not_isAlpha_of_isDigit hdigit)).2

/-- Capitals and digits are one word only if there are no digits or no capitals. -/
theorem words_of_isLarge_iff {u : Text} (hne : u ≠ []) (hu : ∀ c ∈ u, isLarge c = true) :
    words u = [u] ↔ u.all Char.isUpper = true ∨ u.all Char.isDigit = true := by
  constructor
  · intro h
    rcases u with _ | ⟨c, t⟩
    · exact absurd rfl hne
    · rcases exists_firstWord (isAlphanum_of_isLarge (hu c (by simp))) t with ⟨w, rest, ht, hw⟩
      rw [ht, words_append hw, List.cons.injEq] at h
      rw [ht, ← h.1] at hu ⊢
      cases hw with
      | capitals ne upper => exact .inl (List.all_eq_true.2 upper)
      | small ne small =>
        right
        rw [List.all_eq_true]
        intro x hx
        rcases Bool.or_eq_true_iff.1 (small x hx) with hlower | hdigit
        · simp [not_isLower_of_isLarge (hu x hx)] at hlower
        · exact hdigit
      | @capitalized _ d _ _ upper lower =>
        simp [not_isLower_of_isLarge (hu d (by simp))] at lower
  · rintro (hupper | hdigit)
    · exact words_of_isUpper hne (List.all_eq_true.1 hupper)
    · refine words_of_isSmall hne ?_
      intro c hc
      simp [isSmall, List.all_eq_true.1 hdigit c hc]

/-- Parts that have their own words when these are put in capitals are single words. -/
theorem map_upper_words_iff {us : List Text}
    (hus : ∀ u ∈ us, u ≠ [] ∧ ∀ c ∈ u, isLarge c = true) :
    (us.flatMap words).map upper = us ↔ ∀ u ∈ us, words u = [u] := by
  constructor
  · intro h
    induction us with
    | nil => simp
    | cons u us ih =>
      rcases hus u (by simp) with ⟨hne, hlarge⟩
      have hflat := flatten_words_of_isAlphanum fun c hc => isAlphanum_of_isLarge (hlarge c hc)
      rcases hwords : words u with _ | ⟨w, ws⟩
      · rw [hwords] at hflat
        exact absurd hflat.symm hne
      · rw [List.flatMap_cons, hwords, List.cons_append, List.map_cons, List.cons.injEq] at h
        rw [hwords, List.flatten_cons] at hflat
        -- the first word is as long as the whole part, so there is no second one
        have hlen : w.length = u.length := by rw [← h.1, length_upper]
        have hnil : ws.flatten = [] := by
          have := congrArg List.length hflat
          rw [List.length_append, hlen] at this
          exact List.length_eq_zero_iff.1 (by omega)
        have hws : ws = [] := by
          rcases ws with _ | ⟨v, ws⟩
          · rfl
          · have hv : v ≠ [] := ne_nil_of_mem_words (t := u) (by simp [hwords])
            rw [List.flatten_cons, List.append_eq_nil_iff] at hnil
            exact absurd hnil.1 hv
        subst hws
        intro u' hu'
        rcases List.mem_cons.1 hu' with rfl | hu'
        · rw [hwords]
          simpa using hflat
        · exact ih (fun v hv => hus v (by simp [hv])) h.2 u' hu'
  · intro h
    have hwords : us.flatMap words = us := by
      rw [List.flatMap_congr (g := fun u => [u]) h]
      simp
    rw [hwords]
    refine (List.map_congr_left ?_).trans (List.map_id us)
    intro u hu
    refine (List.map_congr_left ?_).trans (List.map_id u)
    intro c hc
    exact toUpper_eq_self_iff.2 (not_isLower_of_isLarge ((hus u hu).2 c hc))

/-! ## Adjacent capitals -/

/-- Two capitals stand side by side and no small letter follows them. -/
def crowded : Text → Bool
  | a :: b :: rest => (a.isUpper && b.isUpper && !rest.head?.any Char.isLower) || crowded (b :: rest)
  | _ => false

theorem crowded_cons_of_not_isUpper {c : Char} (hc : c.isUpper = false) (t : Text) :
    crowded (c :: t) = crowded t := by
  rcases t with _ | ⟨b, t⟩
  · rfl
  · simp [crowded, hc]

theorem crowded_append {x : Text} (hx : ∀ c ∈ x, c.isUpper = false) (t : Text) :
    crowded (x ++ t) = crowded t := by
  induction x with
  | nil => rfl
  | cons c x ih =>
    rw [List.cons_append, crowded_cons_of_not_isUpper (hx c (by simp)),
      ih fun c hc => hx c (by simp [hc])]

theorem crowded_cons_append {x : Text} (hne : x ≠ []) (hx : ∀ c ∈ x, c.isUpper = false) (c : Char)
    (t : Text) : crowded (c :: (x ++ t)) = crowded t := by
  rcases x with _ | ⟨d, x⟩
  · exact absurd rfl hne
  · have hd := hx d (by simp)
    rw [← crowded_append hx t]
    simp [crowded, hd]

/-- A word of two capitals or more is crowded, whatever follows it. -/
theorem crowded_capitals {a b : Char} {w rest : Text} (h : IsFirstWord (a :: b :: w) rest)
    (hb : b.isUpper = true) : crowded (a :: b :: w ++ rest) = true := by
  cases h with
  | capitals ne upper lower =>
    have ha : a.isUpper = true := upper a (by simp)
    have hnext : (w ++ rest).head?.any Char.isLower = false := by
      rcases w with _ | ⟨c, w⟩
      · exact lower
      · simpa using Char.not_isLower_of_isUpper (upper c (by simp))
    simp only [List.cons_append, crowded, ha, hb, hnext, Bool.not_false, Bool.and_self,
      Bool.true_or]
  | small ne small =>
    rw [not_isUpper_of_isSmall (small b (by simp))] at hb
    simp at hb
  | capitalized upper lower =>
    exact absurd hb (Char.not_isUpper_of_isLower lower)

/-- Behind a word with a capital at most at its start, it is as crowded as what follows. -/
theorem crowded_word {c : Char} {w rest : Text} (h : IsFirstWord (c :: w) rest)
    (hw : ∀ x ∈ w, x.isUpper = false) : crowded (c :: w ++ rest) = crowded rest := by
  rcases w with _ | ⟨d, w⟩
  · cases h with
    | capitals ne upper lower next =>
      rcases rest with _ | ⟨e, rest⟩
      · rfl
      · cases he : e.isUpper with
        | false => simp [crowded, he]
        | true =>
          have hsmall := next (by simpa using he)
          rw [List.tail_cons] at hsmall
          simp [crowded, hsmall]
    | small ne small =>
      exact crowded_cons_of_not_isUpper (not_isUpper_of_isSmall (small c (by simp))) rest
  · exact crowded_cons_append (by simp) hw c rest

/-- Only the first letter of a word may be a capital, in all words of a name, exactly if the name is
not crowded. -/
theorem crowded_eq_false_iff {t : Text} (ht : ∀ c ∈ t, c.isAlphanum = true) :
    crowded t = false ↔ ∀ w ∈ words t, ∀ c ∈ w.tail, c.isUpper = false := by
  induction t using words_induction with
  | nil => simp [crowded]
  | skip c t hc ih => simp [ht c (by simp)] at hc
  | word w rest hw ih =>
    have hih := ih fun c hc => ht c (by simp [hc])
    rcases w with _ | ⟨c, w⟩
    · exact absurd rfl hw.ne_nil
    · by_cases hsmall : ∀ x ∈ w, x.isUpper = false
      · rw [crowded_word hw hsmall, hih, List.forall_mem_cons]
        exact ⟨fun h => ⟨hsmall, h⟩, fun h => h.2⟩
      · -- a capital further on makes the word a run of capitals
        have hall : w.all Char.isUpper = true := by
          cases hw with
          | capitals ne upper => exact List.all_eq_true.2 fun x hx => upper x (by simp [hx])
          | small ne small =>
            exact absurd (fun x hx => not_isUpper_of_isSmall (small x (by simp [hx]))) hsmall
          | capitalized upper lower small =>
            refine absurd (fun x hx => ?_) hsmall
            rcases List.mem_cons.1 hx with rfl | hx
            · exact not_isUpper_of_isSmall (isSmall_of_isLower lower)
            · exact not_isUpper_of_isSmall (small x hx)
        rcases w with _ | ⟨b, w⟩
        · simp at hsmall
        · have hb : b.isUpper = true := List.all_eq_true.1 hall b (by simp)
          rw [crowded_capitals hw hb]
          simp [hb]

theorem not_isLower_of_not_isSmall {t : Text} (h : t.head?.any isSmall = false) :
    t.head?.any Char.isLower = false := by
  rcases t with _ | ⟨c, t⟩
  · rfl
  · have hc : isSmall c = false := by simpa using h
    simpa using (Bool.or_eq_false_iff.1 hc).1

/-- Behind the first word, no word starts with a small letter. -/
theorem not_isLower_of_mem_words {t : Text} (ht : ∀ c ∈ t, c.isAlphanum = true)
    (hhead : t.head?.any Char.isLower = false) :
    ∀ w ∈ words t, w.head?.any Char.isLower = false := by
  induction t using words_induction with
  | nil => simp
  | skip c t hc ih => simp [ht c (by simp)] at hc
  | word w rest hw ih =>
    have hrest : rest.head?.any Char.isLower = false := by
      cases hw with
      | capitals ne upper lower => exact lower
      | small ne small next => exact not_isLower_of_not_isSmall next
      | capitalized upper lower small next => exact not_isLower_of_not_isSmall next
    intro v hv
    rcases List.mem_cons.1 hv with rfl | hv
    · rcases v with _ | ⟨c, v⟩
      · rfl
      · simpa using hhead
    · exact ih (fun c hc => ht c (by simp [hc])) hrest v hv

theorem length_capitalize (w : Text) : (capitalize w).length = w.length := by
  cases w <;> simp [capitalize, lower]

theorem capitalize_eq_self_iff {w : Text} :
    capitalize w = w ↔ w.head?.any Char.isLower = false ∧ ∀ c ∈ w.tail, c.isUpper = false := by
  rcases w with _ | ⟨c, w⟩
  · simp [capitalize]
  · have htail : lower w = w ↔ ∀ x ∈ w, x.isUpper = false := by
      induction w with
      | nil => simp [lower]
      | cons x w ih =>
        rw [List.forall_mem_cons, ← ih, ← toLower_eq_self_iff]
        exact List.cons_eq_cons
    simp [capitalize, toUpper_eq_self_iff, htail]

theorem flatMap_capitalize_iff (ws : List Text) :
    ws.flatMap capitalize = ws.flatten ↔ ∀ w ∈ ws, capitalize w = w := by
  induction ws with
  | nil => simp
  | cons w ws ih =>
    rw [List.flatMap_cons, List.flatten_cons, List.forall_mem_cons, ← ih]
    constructor
    · intro h
      exact List.append_inj h (length_capitalize w)
    · rintro ⟨hw, hws⟩
      rw [hw, hws]

/-- A name of letters and digits that starts with no small letter is the same in Pascal case exactly
if it is not crowded. -/
theorem flatMap_capitalize_words_iff {t : Text} (ht : ∀ c ∈ t, c.isAlphanum = true)
    (hhead : t.head?.any Char.isLower = false) :
    (words t).flatMap capitalize = t ↔ crowded t = false := by
  have hflat := flatMap_capitalize_iff (words t)
  rw [flatten_words_of_isAlphanum ht] at hflat
  rw [hflat, crowded_eq_false_iff ht]
  constructor
  · intro h w hw
    exact (capitalize_eq_self_iff.1 (h w hw)).2
  · intro h w hw
    exact capitalize_eq_self_iff.2 ⟨not_isLower_of_mem_words ht hhead w hw, h w hw⟩

/-! ## Capitalized words side by side -/

theorem head?_flatMap_capitalize {ws : List Text} (hws : AreWords ws) :
    (ws.flatMap capitalize).head?.any Char.isLower = false := by
  rcases ws with _ | ⟨w, ws⟩
  · rfl
  · rcases w with _ | ⟨c, w⟩
    · exact absurd rfl (hws [] (by simp)).1
    · simp [capitalize]

theorem isUpper_of_mem_lower {w : Text} : ∀ c ∈ lower w, c.isUpper = false := by
  intro c hc
  rcases List.mem_map.1 hc with ⟨x, -, rfl⟩
  simp

/-- Two capitalized words are crowded where they meet if they run together. -/
theorem crowded_capitalize {u v : Text} {t : Text} (hu : u ≠ []) (hv : v ≠ [])
    (ht : t.head?.any Char.isLower = false) :
    crowded (capitalize u ++ (capitalize v ++ t)) =
      (runsTogether u v || crowded (capitalize v ++ t)) := by
  rcases u with _ | ⟨c, u⟩
  · exact absurd rfl hu
  rcases v with _ | ⟨d, v⟩
  · exact absurd rfl hv
  rcases u with _ | ⟨x, u⟩
  · have hnext : (lower v ++ t).head?.any Char.isLower = v.head?.any Char.isAlpha := by
      rcases v with _ | ⟨y, v⟩
      · exact ht
      · simp [lower]
    simp only [capitalize, lower, List.map_nil, List.cons_append, List.nil_append, crowded]
    rw [show (List.map Char.toLower v ++ t) = lower v ++ t from rfl, hnext]
    simp [runsTogether]
  · have hmeet := crowded_cons_append (x := lower (x :: u)) (by simp [lower]) isUpper_of_mem_lower
      c.toUpper (capitalize (d :: v) ++ t)
    rw [capitalize, List.cons_append, hmeet]
    simp [runsTogether]

theorem crowded_flatMap_capitalize_iff {ws : List Text} (hws : AreWords ws) :
    crowded (ws.flatMap capitalize) = false ↔
      ws.IsChain fun u v => runsTogether u v = false := by
  induction ws with
  | nil => simp [crowded]
  | cons u ws ih =>
    have hu := (hws u (by simp)).1
    have hmore : AreWords ws := fun w hw => hws w (by simp [hw])
    rcases ws with _ | ⟨v, ws⟩
    · rcases u with _ | ⟨c, _ | ⟨x, u⟩⟩
      · exact absurd rfl hu
      · simp [capitalize, lower, crowded]
      · have hnone := crowded_cons_append (x := lower (x :: u)) (by simp [lower])
          isUpper_of_mem_lower c.toUpper []
        simpa [capitalize, crowded] using hnone
    · have hrest : AreWords ws := fun w hw => hmore w (by simp [hw])
      have hv := (hmore v (by simp)).1
      rw [List.flatMap_cons, List.flatMap_cons,
        crowded_capitalize hu hv (head?_flatMap_capitalize hrest), List.isChain_cons_cons, ← ih hmore,
        Bool.or_eq_false_iff, List.flatMap_cons]

/-! ## Joined words -/

/-- The first letter or digit of the words is a letter. -/
def StartsWithLetter (ws : List Text) : Prop :=
  ∃ c u more, ws = (c :: u) :: more ∧ c.isAlpha = true

theorem startsWithLetter_words {name : Text}
    (h : (name.find? Char.isAlphanum).any Char.isAlpha = true) : StartsWithLetter (words name) := by
  have hfirst : (words name).flatten.head?.any Char.isAlpha = true := by
    rw [flatten_words, List.head?_filter]
    exact h
  rcases hwords : words name with _ | ⟨w, more⟩
  · simp [hwords] at hfirst
  · rcases w with _ | ⟨c, u⟩
    · exact absurd rfl (ne_nil_of_mem_words (t := name) (by simp [hwords]))
    · refine ⟨c, u, more, rfl, ?_⟩
      simpa [hwords] using hfirst

section Joined

variable {ws : List Text}

theorem isSmall_of_mem_lower {w : Text} (hw : ∀ c ∈ w, c.isAlphanum = true) :
    ∀ c ∈ lower w, isSmall c = true := by
  intro c hc
  rcases List.mem_map.1 hc with ⟨x, hx, rfl⟩
  exact isSmall_toLower (hw x hx)

theorem isAlphanum_of_mem_capitalize {w : Text} (hw : ∀ c ∈ w, c.isAlphanum = true) :
    ∀ c ∈ capitalize w, c.isAlphanum = true := by
  intro c hc
  rcases w with _ | ⟨x, w⟩
  · simp [capitalize] at hc
  · rcases List.mem_cons.1 hc with rfl | hc
    · exact isAlphanum_of_isLarge (isLarge_toUpper (hw x (by simp)))
    · exact isAlphanum_of_isSmall (isSmall_of_mem_lower (fun y hy => hw y (by simp [hy])) c hc)

theorem isAlphanum_of_mem_flatMap (hws : AreWords ws) :
    ∀ c ∈ ws.flatMap capitalize, c.isAlphanum = true := by
  intro c hc
  rcases List.mem_flatMap.1 hc with ⟨w, hw, hc⟩
  exact isAlphanum_of_mem_capitalize (hws w hw).2 c hc

theorem lower_of_mem_map (hws : AreWords ws) :
    ∀ w ∈ ws.map lower, w ≠ [] ∧ ∀ c ∈ w, isSmall c = true := by
  intro w hw
  rcases List.mem_map.1 hw with ⟨v, hv, rfl⟩
  exact ⟨by simpa [lower] using (hws v hv).1, isSmall_of_mem_lower (hws v hv).2⟩

theorem upper_of_mem_map (hws : AreWords ws) :
    ∀ w ∈ ws.map upper, w ≠ [] ∧ ∀ c ∈ w, isLarge c = true := by
  intro w hw
  rcases List.mem_map.1 hw with ⟨v, hv, rfl⟩
  exact ⟨by simpa [upper] using (hws v hv).1, isLarge_of_mem_upper (hws v hv).2⟩

/-- Parts between underscores have the form of a snake case if they have its characters. -/
theorem isSnakeOf_intercalate {start next : Char → Bool} {u : Text} {us : List Text}
    (hstart : startsAndGoes start next u = true)
    (hus : ∀ v ∈ us, v ≠ [] ∧ ∀ c ∈ v, next c = true)
    (hsep : ∀ v ∈ u :: us, '_' ∉ v) : isSnakeOf start next (['_'].intercalate (u :: us)) = true := by
  unfold isSnakeOf
  rw [Text.split_intercalate (by simp) hsep]
  refine Bool.and_eq_true_iff.2 ⟨hstart, List.all_eq_true.2 ?_⟩
  intro v hv
  rcases hus v hv with ⟨hne, hnext⟩
  rcases v with _ | ⟨c, v⟩
  · exact absurd rfl hne
  · refine Bool.and_eq_true_iff.2 ⟨hnext c (by simp), List.all_eq_true.2 ?_⟩
    intro x hx
    exact hnext x (by simp [hx])

/-- Joined words always have the form of their style. -/
theorem hasForm_join (hws : AreWords ws) (hletter : StartsWithLetter ws) (style : CaseStyle) :
    hasForm (join style ws) style = true := by
  rcases hletter with ⟨c, u, more, rfl, hc⟩
  have hfirst := (hws (c :: u) (by simp)).2
  have hu : ∀ x ∈ u, x.isAlphanum = true := fun x hx => hfirst x (by simp [hx])
  have hmore : AreWords more := fun w hw => hws w (by simp [hw])
  have hrest : ∀ x ∈ lower u ++ more.flatMap capitalize, x.isAlphanum = true := by
    intro x hx
    rcases List.mem_append.1 hx with hx | hx
    · exact isAlphanum_of_isSmall (isSmall_of_mem_lower hu x hx)
    · exact isAlphanum_of_mem_flatMap hmore x hx
  cases style with
  | camel => exact Bool.and_eq_true_iff.2 ⟨by simpa using hc, List.all_eq_true.2 hrest⟩
  | pascal => exact Bool.and_eq_true_iff.2 ⟨by simpa using hc, List.all_eq_true.2 hrest⟩
  | snake =>
    have hsmall := lower_of_mem_map hws
    refine isSnakeOf_intercalate ?_ (fun v hv => hsmall v (by simp [hv])) ?_
    · refine Bool.and_eq_true_iff.2 ⟨by simpa using hc, List.all_eq_true.2 ?_⟩
      exact isSmall_of_mem_lower hu
    · intro v hv
      exact not_mem_of_isAlphanum fun x hx => isAlphanum_of_isSmall ((hsmall v hv).2 x hx)
  | upperSnake =>
    have hlarge := upper_of_mem_map hws
    refine isSnakeOf_intercalate ?_ (fun v hv => hlarge v (by simp [hv])) ?_
    · refine Bool.and_eq_true_iff.2 ⟨by simpa using hc, List.all_eq_true.2 ?_⟩
      exact isLarge_of_mem_upper hu
    · intro v hv
      exact not_mem_of_isAlphanum fun x hx => isAlphanum_of_isLarge ((hlarge v hv).2 x hx)

theorem convert_eq_join {name : Text} (h : words name ≠ []) (style : CaseStyle) :
    convert name style = join style (words name) := by
  unfold convert
  split
  · rename_i hnil
    exact absurd hnil h
  · rfl

theorem words_ne_nil {t : Text} {c : Char} (hc : c ∈ t) (halnum : c.isAlphanum = true) :
    words t ≠ [] := by
  intro h
  have hflat := flatten_words t
  rw [h, List.flatten_nil, eq_comm, List.filter_eq_nil_iff] at hflat
  exact hflat c hc halnum

theorem lower_lower (t : Text) : lower (lower t) = lower t := by
  simp [lower]

/-! ## One style after the other -/

theorem convert_join_snake (hws : AreWords ws) (hne : ws ≠ []) :
    convert (join .snake ws) .snake = join .snake ws := by
  have hsmall := lower_of_mem_map hws
  have hwords : words (join .snake ws) = ws.map lower := by
    rw [join, words_intercalate, List.flatMap_congr (g := fun u => [u]) fun u hu =>
      words_of_isSmall (hsmall u hu).1 (hsmall u hu).2]
    simp
  rw [convert_eq_join (by simpa [hwords] using hne), hwords, join, join, List.map_map]
  simp only [Function.comp_def, lower_lower]

theorem all_upper (w : Text) : (upper w).all Char.isUpper = w.all Char.isAlpha := by
  simp [upper, List.all_map, Function.comp_def]

theorem all_digit_upper (w : Text) : (upper w).all Char.isDigit = w.all Char.isDigit := by
  have hdigit (c : Char) : c.toUpper.isDigit = c.isDigit := by
    cases hlower : c.isLower with
    | false => rw [toUpper_eq_self_iff.2 hlower]
    | true =>
      -- a letter is no digit, in either case
      have halpha : c.isAlpha = true := by simp [Char.isAlpha, hlower]
      have hnot {x : Char} (hx : x.isAlpha = true) : x.isDigit = false := by
        rw [← Bool.not_eq_true]
        intro hd
        simp [not_isAlpha_of_isDigit hd] at hx
      rw [hnot halpha, hnot (by simpa using halpha)]
  simp [upper, List.all_map, Function.comp_def, hdigit]

theorem convert_join_upperSnake_iff (hws : AreWords ws) (hne : ws ≠ []) :
    convert (join .upperSnake ws) .upperSnake = join .upperSnake ws ↔ StaysApart ws .upperSnake := by
  have hlarge := upper_of_mem_map hws
  have hwords : words (join .upperSnake ws) = (ws.map upper).flatMap words := words_intercalate _
  have hwordsNe : words (join .upperSnake ws) ≠ [] := by
    rcases ws with _ | ⟨w, ws⟩
    · exact absurd rfl hne
    · rcases hu : upper w with _ | ⟨c, u⟩
      · exact absurd hu (hlarge (upper w) (by simp)).1
      · have hc := (hlarge (upper w) (by simp)).2 c (by simp [hu])
        have := words_ne_nil (t := upper w) (by simp [hu]) (isAlphanum_of_isLarge hc)
        simp [hwords, this]
  -- the joined words are the same only if they are so one by one
  have hjoin : join .upperSnake (words (join .upperSnake ws)) = join .upperSnake ws ↔
      ((ws.map upper).flatMap words).map upper = ws.map upper := by
    rw [hwords]
    constructor
    · intro h
      have hparts := congrArg (Text.split '_') h
      have hsep : ∀ u ∈ ws.map upper, '_' ∉ u := fun u hu =>
        not_mem_of_isAlphanum fun c hc => isAlphanum_of_isLarge ((hlarge u hu).2 c hc)
      rw [join, join, Text.split_intercalate (by simpa using hne) hsep, Text.split_intercalate] at hparts
      · exact hparts
      · rw [hwords] at hwordsNe
        simpa using hwordsNe
      · intro u hu
        rcases List.mem_map.1 hu with ⟨v, hv, rfl⟩
        rcases List.mem_flatMap.1 hv with ⟨x, -, hv⟩
        have hv := isLarge_of_mem_upper (isAlphanum_of_mem_words hv)
        exact not_mem_of_isAlphanum fun c hc => isAlphanum_of_isLarge (hv c hc)
    · intro h
      rw [join, join, h]
  rw [convert_eq_join hwordsNe, hjoin, map_upper_words_iff hlarge]
  simp only [List.forall_mem_map, StaysApart]
  constructor
  · intro h w hw
    have hu := hlarge (upper w) (List.mem_map_of_mem hw)
    rw [← all_upper, ← all_digit_upper w]
    exact (words_of_isLarge_iff hu.1 hu.2).1 (h w hw)
  · intro h w hw
    have hu := hlarge (upper w) (List.mem_map_of_mem hw)
    refine (words_of_isLarge_iff hu.1 hu.2).2 ?_
    rw [all_upper, all_digit_upper]
    exact h w hw

theorem convert_join_pascal_iff (hws : AreWords ws) (hne : ws ≠ []) :
    convert (join .pascal ws) .pascal = join .pascal ws ↔ StaysApart ws .pascal := by
  have halnum := isAlphanum_of_mem_flatMap hws
  have hwords : words (ws.flatMap capitalize) ≠ [] := by
    rcases ws with _ | ⟨_ | ⟨c, w⟩, ws⟩
    · exact absurd rfl hne
    · exact absurd rfl (hws [] (by simp)).1
    · have hmem : c.toUpper ∈ ((c :: w) :: ws).flatMap capitalize := by simp [capitalize]
      exact words_ne_nil hmem (halnum _ hmem)
  rw [join, convert_eq_join hwords, join,
    flatMap_capitalize_words_iff halnum (head?_flatMap_capitalize hws),
    crowded_flatMap_capitalize_iff hws, StaysApart]

/-- A name of letters and digits that starts with a small letter is the same in camel case exactly if
it is not crowded. -/
theorem join_camel_words_iff {c : Char} {t : Text} (hc : isSmall c = true)
    (ht : ∀ x ∈ t, x.isAlphanum = true) :
    join .camel (words (c :: t)) = c :: t ↔ crowded (c :: t) = false := by
  have hsmall : ∀ x ∈ c :: t.takeWhile isSmall, isSmall x = true := by
    intro x hx
    rcases List.mem_cons.1 hx with rfl | hx
    · exact hc
    · exact List.all_eq_true.1 List.all_takeWhile x hx
  have hlower : lower (c :: t.takeWhile isSmall) = c :: t.takeWhile isSmall := by
    refine (List.map_congr_left ?_).trans (List.map_id _)
    intro x hx
    exact toLower_of_isSmall (hsmall x hx)
  have hcut : c :: t = (c :: t.takeWhile isSmall) ++ t.dropWhile isSmall := by simp
  have hrest : ∀ x ∈ t.dropWhile isSmall, x.isAlphanum = true := fun x hx =>
    ht x ((List.dropWhile_sublist isSmall).subset hx)
  have hhead : (t.dropWhile isSmall).head?.any Char.isLower = false :=
    not_isLower_of_not_isSmall (any_head?_dropWhile isSmall t)
  rw [words_of_small hc, join, hlower, hcut, List.append_cancel_left_eq,
    flatMap_capitalize_words_iff hrest hhead,
    crowded_append fun x hx => not_isUpper_of_isSmall (hsmall x hx)]

theorem convert_join_camel_iff (hws : AreWords ws) (hne : ws ≠ []) :
    convert (join .camel ws) .camel = join .camel ws ↔ StaysApart ws .camel := by
  rcases ws with _ | ⟨_ | ⟨c, w⟩, ws⟩
  · exact absurd rfl hne
  · exact absurd rfl (hws [] (by simp)).1
  · have hfirst := (hws (c :: w) (by simp)).2
    have hmore : AreWords ws := fun v hv => hws v (by simp [hv])
    have hc : isSmall c.toLower = true := isSmall_toLower (hfirst c (by simp))
    have hjoin : join .camel ((c :: w) :: ws) = c.toLower :: (lower w ++ ws.flatMap capitalize) := rfl
    have halnum : ∀ x ∈ lower w ++ ws.flatMap capitalize, x.isAlphanum = true := by
      intro x hx
      rcases List.mem_append.1 hx with hx | hx
      · exact isAlphanum_of_isSmall (isSmall_of_mem_lower (fun y hy => hfirst y (by simp [hy])) x hx)
      · exact isAlphanum_of_mem_flatMap hmore x hx
    rw [hjoin, convert_eq_join (words_ne_nil List.mem_cons_self (isAlphanum_of_isSmall hc)),
      join_camel_words_iff hc halnum, crowded_cons_of_not_isUpper (not_isUpper_of_isSmall hc),
      crowded_append isUpper_of_mem_lower, crowded_flatMap_capitalize_iff hmore, StaysApart,
      List.tail_cons]

/-- Joined words are the same when they are joined once more exactly if they stay apart. -/
theorem convert_join_iff (hws : AreWords ws) (hne : ws ≠ []) (style : CaseStyle) :
    convert (join style ws) style = join style ws ↔ StaysApart ws style := by
  cases style with
  | camel => exact convert_join_camel_iff hws hne
  | pascal => exact convert_join_pascal_iff hws hne
  | snake => simp [StaysApart, convert_join_snake hws hne]
  | upperSnake => exact convert_join_upperSnake_iff hws hne

end Joined

/-- For a name whose first letter or digit is a letter, the name rewritten in a style is written in
that style, rewriting it again changes nothing, and the check of its case finds nothing, exactly if
the words of the name stay apart in the style. -/
theorem isWritten_convert_iff (name : Text) (style : CaseStyle)
    (hletter : (name.find? Char.isAlphanum).any Char.isAlpha = true) :
    (isWritten (convert name style) style = true ↔ StaysApart (words name) style) ∧
    (convert (convert name style) style = convert name style ↔ StaysApart (words name) style) ∧
    ∀ b span rule before,
      Compliance.checkCase b span rule (some style) ⟨before, convert name style⟩ = [] ↔
        StaysApart (words name) style := by
  have hstarts := startsWithLetter_words hletter
  have hne : words name ≠ [] := by
    rcases hstarts with ⟨c, u, more, hwords, -⟩
    simp [hwords]
  have hform : hasForm (convert name style) style = true := by
    rw [convert_eq_join hne]
    exact hasForm_join (areWords_words name) hstarts style
  have hagain : convert (convert name style) style = convert name style ↔
      StaysApart (words name) style := by
    rw [convert_eq_join hne]
    exact convert_join_iff (areWords_words name) hne style
  have hwritten : isWritten (convert name style) style = true ↔ StaysApart (words name) style := by
    rw [← hagain, isWritten, hform, Bool.true_and, decide_eq_true_eq]
  refine ⟨hwritten, hagain, ?_⟩
  intro b span rule before
  have hpart : convert name style ≠ [] := by
    intro hnil
    rw [hnil] at hform
    cases style <;> simp [hasForm, startsAndGoes, isSnakeOf, Text.split] at hform
  rw [← hwritten, Compliance.checkCase]
  simp [hpart]

/-- The single letters of `a_b_c` run together in `aBC`, which is no camel case. -/
theorem isWritten_convert_iff_letters :
    ("a_b_c".toList.find? Char.isAlphanum).any Char.isAlpha = true ∧
    convert "a_b_c".toList .camel = "aBC".toList ∧
    ¬ StaysApart (words "a_b_c".toList) .camel ∧
    isWritten (convert "a_b_c".toList .camel) .camel = false := by
  have hwords : words "a_b_c".toList = [['a'], ['b'], ['c']] := by cbv
  have hclash : ¬ StaysApart (words "a_b_c".toList) .camel := by
    rw [hwords]
    simp [StaysApart, runsTogether]
  refine ⟨by decide, by cbv, hclash, ?_⟩
  have h := (isWritten_convert_iff "a_b_c".toList .camel (by decide)).1
  rwa [← Bool.not_eq_true, h]

end ShaderStyle.Naming
