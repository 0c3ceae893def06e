import ShaderStyle.Rules
import ShaderStyle.Text.Word

/-!
# Writing line breaks alike

`Text.withEnding` replaces the line breaks of a text and nothing else: it goes through a text break by
break and character by character, it may be applied to two parts of a text on their own unless a
line break lies across their border, and only the last of two replacements counts.
-/

namespace ShaderStyle.Text

/-- The texts of one line break. -/
def IsBreakText (e : Text) : Prop :=
  e = ['\n'] ∨ e = ['\r', '\n'] ∨ e = ['\r']

theorem isBreakText_lineEnding (e : LineEnding) : IsBreakText e.text := by
  cases e
  · exact .inl rfl
  · exact .inr (.inl rfl)
  · exact .inr (.inr rfl)

theorem IsBreakText.exists_cons {e : Text} (h : IsBreakText e) :
    ∃ c u, e = c :: u ∧ isBreak c = true := by
  rcases h with rfl | rfl | rfl
  · exact ⟨_, _, rfl, by decide⟩
  · exact ⟨_, _, rfl, by decide⟩
  · exact ⟨_, _, rfl, by decide⟩

theorem isBreak_of_mem {e : Text} (h : IsBreakText e) {c : Char} (hc : c ∈ e) :
    isBreak c = true := by
  rcases h with rfl | rfl | rfl <;> simp at hc <;> rcases hc with rfl | rfl <;> decide

theorem eq_of_isBreak {c : Char} (h : isBreak c = true) : c = '\r' ∨ c = '\n' := by
  simpa [isBreak] using h

theorem not_isWordChar_of_isBreak {c : Char} (h : isBreak c = true) : isWordChar c = false := by
  rcases eq_of_isBreak h with rfl | rfl <;> decide

variable {ending : Text}

@[simp] theorem withEnding_nil : withEnding ending [] = [] := by simp [withEnding]

theorem withEnding_cons {c : Char} (hc : isBreak c = false) (x : Text) :
    withEnding ending (c :: x) = c :: withEnding ending x := by
  have hcr : ∀ more, c = '\r' → x = '\n' :: more → False := by
    rintro _ rfl
    simp [isBreak] at hc
  rw [withEnding.eq_3 _ _ _ hcr]
  simp [hc]

/-- The break at the start of a text is replaced as a whole. -/
theorem withEnding_break {brk x : Text} (hbrk : IsBreakText brk)
    (hnext : brk = ['\r'] → x.head? ≠ some '\n') :
    withEnding ending (brk ++ x) = ending ++ withEnding ending x := by
  rcases hbrk with rfl | rfl | rfl
  · rw [List.cons_append, List.nil_append, withEnding.eq_3]
    · simp [isBreak]
    · simp
  · simp [withEnding]
  · have hcr : ∀ more, '\r' = '\r' → x = '\n' :: more → False := by
      rintro more - rfl
      exact hnext rfl rfl
    rw [List.cons_append, List.nil_append, withEnding.eq_3 _ _ _ hcr]
    simp [isBreak]

/-- Every text starts with a line break or with a character that is none. -/
theorem cases_break (x : Text) :
    x = [] ∨ (∃ brk y, x = brk ++ y ∧ IsBreakText brk ∧ (brk = ['\r'] → y.head? ≠ some '\n')) ∨
      ∃ c y, x = c :: y ∧ isBreak c = false := by
  cases x with
  | nil => exact .inl rfl
  | cons c x =>
    by_cases hc : isBreak c = true
    · refine .inr (.inl ?_)
      simp only [isBreak, Bool.or_eq_true, decide_eq_true_eq] at hc
      rcases hc with rfl | rfl
      · by_cases hx : x.head? = some '\n'
        · obtain ⟨y, rfl⟩ := List.head?_eq_some_iff.1 hx
          exact ⟨['\r', '\n'], y, rfl, .inr (.inl rfl), by simp⟩
        · exact ⟨['\r'], x, rfl, .inr (.inr rfl), fun _ => hx⟩
      · exact ⟨['\n'], x, rfl, .inl rfl, by simp⟩
    · exact .inr (.inr ⟨c, x, rfl, by simpa using hc⟩)

/-- Induction over the breaks and the other characters of a text. -/
theorem break_induction {motive : Text → Prop} (x : Text) (nil : motive [])
    (brk : ∀ brk y, IsBreakText brk → (brk = ['\r'] → y.head? ≠ some '\n') → motive y →
      motive (brk ++ y))
    (char : ∀ c y, isBreak c = false → motive y → motive (c :: y)) : motive x := by
  induction hsize : x.length using Nat.strongRecOn generalizing x with
  | ind size ih =>
    subst hsize
    rcases cases_break x with rfl | ⟨b, y, rfl, hb, hnext⟩ | ⟨c, y, rfl, hc⟩
    · exact nil
    · obtain ⟨c, u, rfl, -⟩ := hb.exists_cons
      have hlt : y.length < (c :: u ++ y).length := by
        simp only [List.length_append, List.length_cons]
        omega
      exact brk _ y hb hnext (ih y.length hlt y rfl)
    · exact char c y hc (ih y.length (by simp) y rfl)

/-- Two parts of a text are written on their own, unless a break lies across their border. -/
theorem withEnding_append {x y : Text} (h : x.getLast? = some '\r' → y.head? ≠ some '\n') :
    withEnding ending (x ++ y) = withEnding ending x ++ withEnding ending y := by
  induction x using break_induction with
  | nil => simp
  | brk b x hb hnext ih =>
    have hborder : b = ['\r'] → (x ++ y).head? ≠ some '\n' := by
      rintro rfl
      cases x with
      | nil => exact h rfl
      | cons c x => exact hnext rfl
    have hlast : x.getLast? = some '\r' → y.head? ≠ some '\n' := by
      intro hx
      apply h
      rw [List.getLast?_append, hx]
      rfl
    rw [List.append_assoc, withEnding_break hb hborder, withEnding_break hb hnext, ih hlast,
      List.append_assoc]
  | char c x hc ih =>
    have hlast : x.getLast? = some '\r' → y.head? ≠ some '\n' := by
      intro hx
      apply h
      rw [List.getLast?_cons, hx]
      rfl
    rw [List.cons_append, withEnding_cons hc, withEnding_cons hc, ih hlast, List.cons_append]

/-- After its breaks are written as `ending`, a text holds no line feed if `ending` is a carriage
return. -/
theorem head?_withEnding_cr {x : Text} (hending : IsBreakText ending) (h : ending = ['\r']) :
    (withEnding ending x).head? ≠ some '\n' := by
  subst h
  rcases cases_break x with rfl | ⟨b, y, rfl, hb, hnext⟩ | ⟨c, y, rfl, hc⟩
  · simp
  · rw [withEnding_break hb hnext]
    simp
  · rw [withEnding_cons hc]
    rintro heq
    simp only [List.head?_cons, Option.some.injEq] at heq
    subst heq
    simp [isBreak] at hc

/-- Of two ways of writing the line breaks the last one counts. -/
theorem withEnding_withEnding {first : Text} (hfirst : IsBreakText first) (x : Text) :
    withEnding ending (withEnding first x) = withEnding ending x := by
  induction x using break_induction with
  | nil => simp
  | brk b x hb hnext ih =>
    rw [withEnding_break hb hnext, withEnding_break hb hnext,
      withEnding_break hfirst (head?_withEnding_cr hfirst), ih]
  | char c x hc ih => rw [withEnding_cons hc, withEnding_cons hc, withEnding_cons hc, ih]

/-- Leading characters among which every line break counts are dropped before or after the breaks are
written anew. -/
theorem dropWhile_withEnding {p : Char → Bool} (hp : ∀ c, isBreak c = true → p c = true)
    (hending : IsBreakText ending) (x : Text) :
    (withEnding ending x).dropWhile p = withEnding ending (x.dropWhile p) := by
  have hdrop {b y : Text} (hb : IsBreakText b) : (b ++ y).dropWhile p = y.dropWhile p :=
    List.dropWhile_append_of_pos fun c hc => hp c (isBreak_of_mem hb hc)
  induction x using break_induction with
  | nil => simp
  | brk b x hb hnext ih => rw [withEnding_break hb hnext, hdrop hending, hdrop hb, ih]
  | char c x hc ih =>
    rw [withEnding_cons hc, List.dropWhile_cons, List.dropWhile_cons]
    split
    · exact ih
    · rw [withEnding_cons hc]

/-- Leading characters among which no line break counts stay as they are. -/
theorem takeWhile_withEnding {p : Char → Bool} (hp : ∀ c, isBreak c = true → p c = false)
    (hending : IsBreakText ending) (x : Text) :
    (withEnding ending x).takeWhile p = x.takeWhile p := by
  have hstop {b y : Text} (hb : IsBreakText b) : (b ++ y).takeWhile p = [] := by
    obtain ⟨c, u, rfl, hc⟩ := hb.exists_cons
    simp [hp c hc]
  induction x using break_induction with
  | nil => simp
  | brk b x hb hnext ih => rw [withEnding_break hb hnext, hstop hending, hstop hb]
  | char c x hc ih => rw [withEnding_cons hc, List.takeWhile_cons, List.takeWhile_cons, ih]

theorem dropWhile_withEnding_of_not {p : Char → Bool} (hp : ∀ c, isBreak c = true → p c = false)
    (hending : IsBreakText ending) (x : Text) :
    (withEnding ending x).dropWhile p = withEnding ending (x.dropWhile p) := by
  have hstop {b y : Text} (hb : IsBreakText b) : (b ++ y).dropWhile p = b ++ y := by
    obtain ⟨c, u, rfl, hc⟩ := hb.exists_cons
    simp [hp c hc]
  induction x using break_induction with
  | nil => simp
  | brk b x hb hnext ih => rw [withEnding_break hb hnext, hstop hending, hstop hb,
      withEnding_break hb hnext]
  | char c x hc ih =>
    rw [withEnding_cons hc, List.dropWhile_cons, List.dropWhile_cons]
    split
    · exact ih
    · rw [withEnding_cons hc]

/-! ## Counting line breaks -/

/-- The number of line breaks in a text. -/
def breakCount : Text → Nat
  | [] => 0
  | '\r' :: '\n' :: rest => breakCount rest + 1
  | c :: rest => breakCount rest + if isBreak c then 1 else 0

theorem breakCount_cons {c : Char} (hc : isBreak c = false) (x : Text) :
    breakCount (c :: x) = breakCount x := by
  have hcr : ∀ more, c = '\r' → x = '\n' :: more → False := by
    rintro _ rfl
    simp [isBreak] at hc
  rw [breakCount.eq_3 _ _ hcr]
  simp [hc]

theorem breakCount_break {brk x : Text} (hbrk : IsBreakText brk)
    (hnext : brk = ['\r'] → x.head? ≠ some '\n') : breakCount (brk ++ x) = breakCount x + 1 := by
  rcases hbrk with rfl | rfl | rfl
  · rw [List.cons_append, List.nil_append, breakCount.eq_3]
    · simp [isBreak]
    · simp
  · simp [breakCount]
  · have hcr : ∀ more, '\r' = '\r' → x = '\n' :: more → False := by
      rintro more - rfl
      exact hnext rfl rfl
    rw [List.cons_append, List.nil_append, breakCount.eq_3 _ _ hcr]
    simp [isBreak]

theorem breakCount_eq_zero {x : Text} (h : ∀ c ∈ x, isBreak c = false) : breakCount x = 0 := by
  induction x with
  | nil => rfl
  | cons c x ih => rw [breakCount_cons (h c (by simp)), ih fun c hc => h c (by simp [hc])]

theorem IsBreakText.breakCount {e : Text} (h : IsBreakText e) : breakCount e = 1 := by
  have hone := breakCount_break (x := []) h (by simp)
  rwa [List.append_nil] at hone

/-- The line breaks are as many however they are written. -/
theorem breakCount_withEnding (hending : IsBreakText ending) (x : Text) :
    breakCount (withEnding ending x) = breakCount x := by
  induction x using break_induction with
  | nil => simp
  | brk b x hb hnext ih =>
    rw [withEnding_break hb hnext, breakCount_break hb hnext,
      breakCount_break hending (head?_withEnding_cr hending), ih]
  | char c x hc ih => rw [withEnding_cons hc, breakCount_cons hc, breakCount_cons hc, ih]

end ShaderStyle.Text
