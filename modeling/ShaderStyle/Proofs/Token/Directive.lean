import ShaderStyle.Proofs.Token.Context

/-!
# The text of a directive

A directive is read in units: a character, a backslash with the line break after it, a block comment,
a string. `Passes s x inString escaped` says that the text `x` is made up of such units where `s`
follows it, and how it ends: inside a string or not, and with a backslash that takes along what
follows or not. The length that the scanner measures is then that of `x` and what `resume` adds for
the way in which `x` ends (`directiveLength_of_passes`). So whether a directive ends where its text
ends depends on these two facts and on the first character behind it.
-/

namespace ShaderStyle.Lexer

/-! ## Measured lengths -/

@[simp] theorem extend_ok (n m : Nat) : extend n (.ok m) = .ok (n + m) := rfl

@[simp] theorem extend_zero (r : Except Failure Nat) : extend 0 r = r := by
  cases r <;> simp [extend, Failure.shift]

@[simp] theorem extend_extend (n m : Nat) (r : Except Failure Nat) :
    extend n (extend m r) = extend (n + m) r := by
  cases r <;> simp [extend, Failure.shift, Nat.add_assoc]

theorem extend_eq_ok_iff {n k : Nat} {r : Except Failure Nat} :
    extend n r = .ok k ↔ ∃ m, r = .ok m ∧ n + m = k := by
  cases r <;> simp [extend]

theorem quotedLength_le (t : Text) : quotedLength t ≤ t.length := by
  fun_induction quotedLength t <;> simp only [List.length_cons, List.length_nil] <;> omega

/-- A directive ends at the end of the text, at a line break or at a line comment. -/
def EndsDirective (r : Text) : Prop :=
  r = [] ∨ (∃ c more, r = c :: more ∧ Text.isBreak c = true) ∨ ∃ more, r = '/' :: '/' :: more

theorem endsDirective_drop {t : Text} {n : Nat} (h : directiveLength t = .ok n) :
    n ≤ t.length ∧ EndsDirective (t.drop n) := by
  fun_induction directiveLength t generalizing n with
  | case1 =>
    simp only [Except.ok.injEq] at h
    subst h
    exact ⟨by simp, .inl rfl⟩
  | case2 rest skipped =>
    rename_i ih
    obtain ⟨m, hm, rfl⟩ := extend_eq_ok_iff.1 h
    obtain ⟨hle, hends⟩ := ih hm
    have := Text.breakLength_le rest
    simp only [List.length_drop, List.drop_drop] at hle hends
    refine ⟨by simp only [List.length_cons]; omega, ?_⟩
    rw [show 1 + Text.breakLength rest + m = (Text.breakLength rest + m) + 1 by omega,
      List.drop_succ_cons]
    exact hends
  | case3 tail =>
    simp only [Except.ok.injEq] at h
    subst h
    exact ⟨by simp, .inr (.inr ⟨tail, rfl⟩)⟩
  | case4 => simp at h
  | case5 rest m' hm' ih =>
    obtain ⟨m, hm, rfl⟩ := extend_eq_ok_iff.1 h
    obtain ⟨hle, hends⟩ := ih hm
    have := commentLength_le hm'
    simp only [List.length_drop, List.drop_drop] at hle hends
    refine ⟨by simp only [List.length_cons]; omega, ?_⟩
    rw [show 2 + m' + m = (m' + m) + 1 + 1 by omega, List.drop_succ_cons, List.drop_succ_cons]
    exact hends
  | case6 rest skipped =>
    rename_i ih
    obtain ⟨m, hm, rfl⟩ := extend_eq_ok_iff.1 h
    obtain ⟨hle, hends⟩ := ih hm
    have := quotedLength_le rest
    simp only [List.length_drop, List.drop_drop] at hle hends
    refine ⟨by simp only [List.length_cons]; omega, ?_⟩
    rw [show 1 + quotedLength rest + m = (quotedLength rest + m) + 1 by omega, List.drop_succ_cons]
    exact hends
  | case7 c rest _ _ _ _ hc =>
    simp only [Except.ok.injEq] at h
    subst h
    exact ⟨by simp, .inr (.inl ⟨c, rest, rfl, hc⟩)⟩
  | case8 c rest _ _ _ _ _ ih =>
    obtain ⟨m, hm, rfl⟩ := extend_eq_ok_iff.1 h
    obtain ⟨hle, hends⟩ := ih hm
    refine ⟨by simp only [List.length_cons]; omega, ?_⟩
    rw [show 1 + m = m + 1 by omega, List.drop_succ_cons]
    exact hends

/-! ## Units -/

/-- `q` is the beginning of a string that is not closed in it, where `s` follows; `escaped` says that
it ends in a backslash that takes the next character along. -/
inductive OpenString (s : Text) : Text → Bool → Prop
  | nil : OpenString s [] false
  | backslash : OpenString s ['\\'] true
  | escapedCrlf {q : Text} {e : Bool} (hq : OpenString s q e) :
      OpenString s ('\\' :: '\r' :: '\n' :: q) e
  | escapedChar {c : Char} {q : Text} {e : Bool} (hc : c = '\r' → (q ++ s).head? ≠ some '\n')
      (hq : OpenString s q e) : OpenString s ('\\' :: c :: q) e
  | char {c : Char} {q : Text} {e : Bool} (hslash : c ≠ '\\') (hquote : c ≠ '"')
      (hbreak : Text.isBreak c = false) (hq : OpenString s q e) : OpenString s (c :: q) e

/-- `x` consists of units of a directive, where `s` follows. It ends inside a string or not, and in a
backslash that takes along what follows or not. -/
inductive Passes (s : Text) : Text → Bool → Bool → Prop
  | nil : Passes s [] false false
  | backslash : Passes s ['\\'] false true
  | openString {q : Text} {e : Bool} (hq : OpenString s q e) : Passes s ('"' :: q) true e
  | string {q x : Text} {i e : Bool} (hq : OpenString ('"' :: (x ++ s)) q false)
      (hx : Passes s x i e) : Passes s ('"' :: (q ++ '"' :: x)) i e
  | continuation {brk x : Text} {i e : Bool} (hbrk : Text.IsBreakText brk)
      (hnext : brk = ['\r'] → (x ++ s).head? ≠ some '\n') (hx : Passes s x i e) :
      Passes s ('\\' :: (brk ++ x)) i e
  | escapedChar {c : Char} {x : Text} {i e : Bool} (hbreak : Text.isBreak c = false)
      (hx : Passes s (c :: x) i e) : Passes s ('\\' :: c :: x) i e
  | comment {body x : Text} {i e : Bool} (hbody : commentLength body = some body.length)
      (hx : Passes s x i e) : Passes s ('/' :: '*' :: (body ++ x)) i e
  | char {c : Char} {x : Text} {i e : Bool} (hslash : c ≠ '\\') (hquote : c ≠ '"')
      (hbreak : Text.isBreak c = false)
      (hcomment : c = '/' → (x ++ s).head? ≠ some '/' ∧ (x ++ s).head? ≠ some '*')
      (hx : Passes s x i e) : Passes s (c :: x) i e

/-- What the scanner reads of `s` as part of a directive whose text so far ends as told. -/
def resume (inString escaped : Bool) (s : Text) : Except Failure Nat :=
  let skipped :=
    match inString, escaped with
    | false, false => 0
    | false, true => Text.breakLength s
    | true, false => quotedLength s
    | true, true => quotedLength ('\\' :: s) - 1
  extend skipped (directiveLength (s.drop skipped))

theorem quotedLength_backslash_pos (s : Text) : 0 < quotedLength ('\\' :: s) := by
  rw [quotedLength.eq_def]
  split
  · simp_all
  · omega
  · omega
  · rename_i heq
    obtain ⟨rfl, -⟩ := List.cons.inj heq
    simp only [Text.isBreak, Char.reduceEq, decide_false, Bool.or_self, Bool.false_eq_true, if_false]
    omega

theorem quotedLength_of_openString {s q : Text} {e : Bool} (h : OpenString s q e) :
    quotedLength (q ++ s) =
      q.length + if e then quotedLength ('\\' :: s) - 1 else quotedLength s := by
  induction h with
  | nil => simp
  | backslash =>
    have hpos := quotedLength_backslash_pos s
    simp only [List.cons_append, List.nil_append, List.length_cons, List.length_nil, if_true]
    omega
  | escapedCrlf _ ih =>
    simp only [List.cons_append, quotedLength, ih, List.length_cons]
    omega
  | @escapedChar c q e hc _ ih =>
    have hne : ∀ more, c = '\r' → q ++ s = '\n' :: more → False := by
      intro more hcr hq
      exact hc hcr (by rw [hq]; rfl)
    simp only [List.cons_append]
    rw [quotedLength.eq_3 _ _ hne, ih]
    simp only [List.length_cons]
    omega
  | @char c q e hslash hquote hbreak _ ih =>
    rw [List.cons_append, quotedLength.eq_4 _ _ (fun _ hc => absurd hc hslash)
      (fun _ _ hc => absurd hc hslash), if_neg (by simp [hbreak]), if_neg hquote, ih]
    simp only [List.length_cons]
    omega

theorem breakLength_append {brk t : Text} (hbrk : Text.IsBreakText brk)
    (hnext : brk = ['\r'] → t.head? ≠ some '\n') : Text.breakLength (brk ++ t) = brk.length := by
  rcases hbrk with rfl | rfl | rfl
  · rfl
  · rfl
  · exact breakLength_cr (hnext rfl)

theorem breakLength_of_not_isBreak {c : Char} (t : Text) (hc : Text.isBreak c = false) :
    Text.breakLength (c :: t) = 0 := by
  simp only [Text.isBreak, Bool.or_eq_false_iff, decide_eq_false_iff_not] at hc
  simp [Text.breakLength, hc.1, hc.2]

/-- The length of a directive is that of its units and of what is read after them. -/
theorem directiveLength_of_passes {s x : Text} {i e : Bool} (h : Passes s x i e) :
    directiveLength (x ++ s) = extend x.length (resume i e s) := by
  induction h with
  | nil => simp [resume]
  | backslash =>
    simp only [List.cons_append, List.nil_append, directiveLength.eq_2, resume, extend_extend,
      List.length_cons, List.length_nil]
  | @openString q e hq =>
    have hlen := quotedLength_of_openString hq
    have hdrop (k : Nat) : (q ++ s).drop (q.length + k) = s.drop k := by
      rw [← List.drop_drop, List.drop_left]
    rw [List.cons_append, directiveLength.eq_5, hlen, hdrop]
    cases e <;>
      simp [resume, Nat.add_assoc, Nat.add_left_comm]
  | @string q x i e hq hx ih =>
    have hlen := quotedLength_of_openString hq
    have hquote : quotedLength ('"' :: (x ++ s)) = 1 := by simp [quotedLength, Text.isBreak]
    simp only [Bool.false_eq_true, if_false, hquote] at hlen
    have hsplit : '"' :: (q ++ '"' :: x) ++ s = '"' :: (q ++ '"' :: (x ++ s)) := by simp
    have hdrop : (q ++ '"' :: (x ++ s)).drop (q.length + 1) = x ++ s := by
      simp [List.drop_append]
    rw [hsplit, directiveLength.eq_5, hlen, hdrop, ih, extend_extend]
    congr 1
    simp only [List.length_cons, List.length_append]
    omega
  | @continuation brk x i e hbrk hnext hx ih =>
    have hlen := breakLength_append hbrk hnext
    have hsplit : '\\' :: (brk ++ x) ++ s = '\\' :: (brk ++ (x ++ s)) := by simp
    rw [hsplit, directiveLength.eq_2, hlen, List.drop_left, ih, extend_extend]
    congr 1
    simp only [List.length_cons, List.length_append]
    omega
  | @escapedChar c x i e hbreak hx ih =>
    have hlen := breakLength_of_not_isBreak (x ++ s) hbreak
    simp only [List.cons_append] at ih ⊢
    rw [directiveLength.eq_2, hlen, List.drop_zero, ih, extend_extend]
    congr 1
    simp only [List.length_cons]
    omega
  | @comment body x i e hbody hx ih =>
    have hlen := commentLength_take_append (x ++ s) hbody
    rw [List.take_length] at hlen
    have hsplit : '/' :: '*' :: (body ++ x) ++ s = '/' :: '*' :: (body ++ (x ++ s)) := by simp
    rw [hsplit, directiveLength.eq_4, hlen]
    simp only
    rw [List.drop_left, ih, extend_extend]
    congr 1
    simp only [List.length_cons, List.length_append]
    omega
  | @char c x i e hslash hquote hbreak hcomment hx ih =>
    have hline : ∀ more, c = '/' → x ++ s = '/' :: more → False := by
      intro more hc hmore
      exact (hcomment hc).1 (by rw [hmore]; rfl)
    have hblock : ∀ more, c = '/' → x ++ s = '*' :: more → False := by
      intro more hc hmore
      exact (hcomment hc).2 (by rw [hmore]; rfl)
    rw [List.cons_append, directiveLength.eq_6 _ _ hslash hline hblock hquote,
      if_neg (by simp [hbreak]), ih, extend_extend]
    congr 1
    simp only [List.length_cons]
    omega

/-! ## Units of a text that was read -/

/-- The end of a block comment is its closing delimiter. -/
theorem commentLength_closes {t : Text} {n : Nat} (h : commentLength t = some n) :
    ∃ v, t.take n = v ++ ['*', '/'] := by
  fun_induction commentLength t generalizing n with
  | case1 => simp at h
  | case2 tail =>
    simp only [Option.some.injEq] at h
    subst h
    exact ⟨[], rfl⟩
  | case3 c rest _ ih =>
    obtain ⟨m, hm, rfl⟩ := Option.map_eq_some_iff.1 h
    obtain ⟨v, hv⟩ := ih hm
    exact ⟨c :: v, by rw [Nat.add_comm, List.take_succ_cons, hv]; rfl⟩

/-- A unit that ends in no pad ends before the pads. -/
theorem take_of_getLast {x w r v : Text} {n : Nat} {c : Char} (hw : ∀ c ∈ w, Text.isPad c = true)
    (hc : Text.isPad c = false) (htake : (x ++ (w ++ r)).take n = v ++ [c])
    (hn : n ≤ x.length + w.length) : n ≤ x.length := by
  apply Nat.le_of_not_lt
  intro hlt
  have hsplit : (x ++ (w ++ r)).take n = x ++ w.take (n - x.length) := by
    rw [List.take_append, List.take_of_length_le (by omega), List.take_append,
      show n - x.length - w.length = 0 by omega, List.take_zero, List.append_nil]
  have hne : w.take (n - x.length) ≠ [] := by
    intro hnil
    have := congrArg List.length hnil
    simp only [List.length_take, List.length_nil] at this
    omega
  have hmem : c ∈ w := by
    have hlast := congrArg List.getLast? (htake.symm.trans hsplit)
    rw [List.getLast?_append, List.getLast?_append, List.getLast?_eq_some_getLast hne] at hlast
    simp only [List.getLast?_singleton, Option.some_or, Option.some.injEq] at hlast
    rw [hlast]
    exact List.mem_of_mem_take (List.getLast_mem hne)
  simp [hw c hmem] at hc

/-- Pads do not start with a line feed. -/
theorem pads_eq_nil_of_head {w r : Text} (hw : ∀ c ∈ w, Text.isPad c = true)
    (h : (w ++ r).head? = some '\n') : w = [] := by
  cases w with
  | nil => rfl
  | cons c w =>
    have hc := hw c (by simp)
    simp only [List.cons_append, List.head?_cons, Option.some.injEq] at h
    subst h
    simp [Text.isPad] at hc

theorem directiveLength_of_isBreak {c : Char} (t : Text) (hc : Text.isBreak c = true) :
    directiveLength (c :: t) = .ok 0 := by
  simp only [Text.isBreak, Bool.or_eq_true, decide_eq_true_eq] at hc
  rcases hc with rfl | rfl <;> simp [directiveLength, Text.isBreak]

/-- The string that `y` starts within runs through all of `y`, or it is closed in `y`, and what is left
is measured as part of the directive. -/
def EndsString (w r y : Text) : Prop :=
  (∃ e, OpenString (w ++ r) y e) ∨
    ∃ q x, y = q ++ '"' :: x ∧ OpenString ('"' :: (x ++ (w ++ r))) q false ∧
      directiveLength (x ++ (w ++ r)) = .ok (x.length + w.length)

theorem EndsString.escapedCrlf {w r y : Text} (h : EndsString w r y) :
    EndsString w r ('\\' :: '\r' :: '\n' :: y) := by
  rcases h with ⟨e, hopen⟩ | ⟨q, x, rfl, hq, hx⟩
  · exact .inl ⟨e, .escapedCrlf hopen⟩
  · exact .inr ⟨'\\' :: '\r' :: '\n' :: q, x, rfl, .escapedCrlf hq, hx⟩

theorem EndsString.escapedChar {w r y : Text} {c : Char}
    (hc : c = '\r' → (y ++ (w ++ r)).head? ≠ some '\n') (h : EndsString w r y) :
    EndsString w r ('\\' :: c :: y) := by
  rcases h with ⟨e, hopen⟩ | ⟨q, x, rfl, hq, hx⟩
  · exact .inl ⟨e, .escapedChar hc hopen⟩
  · refine .inr ⟨'\\' :: c :: q, x, rfl, .escapedChar ?_ hq, hx⟩
    simpa using hc

theorem EndsString.char {w r y : Text} {c : Char} (hslash : c ≠ '\\') (hquote : c ≠ '"')
    (hbreak : Text.isBreak c = false) (h : EndsString w r y) : EndsString w r (c :: y) := by
  rcases h with ⟨e, hopen⟩ | ⟨q, x, rfl, hq, hx⟩
  · exact .inl ⟨e, .char hslash hquote hbreak hopen⟩
  · exact .inr ⟨c :: q, x, rfl, .char hslash hquote hbreak hq, hx⟩

/-- A string inside a directive is closed in the directive's text or runs through all of it. -/
theorem string_of_quotedLength {y w r : Text} {m : Nat} (hw : ∀ c ∈ w, Text.isPad c = true)
    (hm : directiveLength ((y ++ (w ++ r)).drop (quotedLength (y ++ (w ++ r)))) = .ok m)
    (htotal : quotedLength (y ++ (w ++ r)) + m = y.length + w.length) : EndsString w r y := by
  induction hsize : y.length using Nat.strongRecOn generalizing y with
  | ind size ih =>
  subst hsize
  match y with
  | [] => exact .inl ⟨false, .nil⟩
  | c :: y =>
    by_cases hslash : c = '\\'
    · subst hslash
      match y with
      | [] => exact .inl ⟨true, .backslash⟩
      | c :: y =>
        by_cases hcr : c = '\r' ∧ (y ++ (w ++ r)).head? = some '\n'
        · obtain ⟨rfl, hhead⟩ := hcr
          match y with
          | [] =>
            -- the line break would be longer than what is left of the text
            rw [List.nil_append] at hhead
            obtain rfl := pads_eq_nil_of_head hw hhead
            obtain ⟨more, hmore⟩ := List.head?_eq_some_iff.1 hhead
            simp only [List.cons_append, List.nil_append] at hmore htotal
            simp only [hmore, quotedLength, List.length_cons, List.length_nil] at htotal
            omega
          | z :: y =>
            simp only [List.cons_append, List.head?_cons, Option.some.injEq] at hhead
            subst hhead
            simp only [List.cons_append, quotedLength, List.length_cons] at hm htotal
            rw [Nat.add_comm 3, List.drop_succ_cons, List.drop_succ_cons,
              List.drop_succ_cons] at hm
            exact .escapedCrlf (ih y.length (by simp only [List.length_cons]; omega) hm (by omega) rfl)
        · have hne : ∀ more, c = '\r' → y ++ (w ++ r) = '\n' :: more → False := by
            intro more hc hmore
            exact hcr ⟨hc, by rw [hmore]; rfl⟩
          simp only [List.cons_append, List.length_cons] at hm htotal
          rw [quotedLength.eq_3 _ _ hne] at hm htotal
          rw [Nat.add_comm 2, List.drop_succ_cons, List.drop_succ_cons] at hm
          exact .escapedChar (fun hc hhead => hcr ⟨hc, hhead⟩)
            (ih y.length (by simp only [List.length_cons]; omega) hm (by omega) rfl)
    · have hlen := quotedLength.eq_4 c (y ++ (w ++ r)) (fun _ hc => absurd hc hslash)
        (fun _ _ hc => absurd hc hslash)
      rw [List.cons_append] at hm htotal
      rw [hlen] at hm htotal
      by_cases hbreak : Text.isBreak c = true
      · -- the directive would end here, before the end of its text
        rw [if_pos hbreak, List.drop_zero, directiveLength_of_isBreak _ hbreak,
          Except.ok.injEq] at hm
        rw [if_pos hbreak, ← hm, List.length_cons] at htotal
        omega
      · rw [if_neg hbreak] at hm htotal
        by_cases hquote : c = '"'
        · subst hquote
          simp only [if_true, List.drop_succ_cons, List.drop_zero, List.length_cons] at hm htotal
          exact .inr ⟨[], y, rfl, .nil, by rw [hm]; congr 1; omega⟩
        · rw [if_neg hquote] at hm htotal
          rw [Nat.add_comm 1, List.drop_succ_cons] at hm
          simp only [List.length_cons] at htotal
          exact .char hslash hquote (by simpa using hbreak)
            (ih y.length (by simp) hm (by omega) rfl)

/-- The line break at the start of a text, if it does not go on behind the text. -/
theorem exists_break {c : Char} {x s : Text} (hc : Text.isBreak c = true)
    (hlast : x = [] → c = '\r' → s.head? ≠ some '\n') :
    ∃ brk y, c :: x = brk ++ y ∧ Text.IsBreakText brk ∧ (brk = ['\r'] → (y ++ s).head? ≠ some '\n') := by
  simp only [Text.isBreak, Bool.or_eq_true, decide_eq_true_eq] at hc
  rcases hc with rfl | rfl
  · cases x with
    | nil => exact ⟨['\r'], [], rfl, .inr (.inr rfl), fun _ => hlast rfl rfl⟩
    | cons z x =>
      by_cases hz : z = '\n'
      · subst hz
        exact ⟨['\r', '\n'], x, rfl, .inr (.inl rfl), by simp⟩
      · exact ⟨['\r'], z :: x, rfl, .inr (.inr rfl), fun _ => by simpa using hz⟩
  · exact ⟨['\n'], x, rfl, .inl rfl, by simp⟩

/-- A star in front of pads and the end of a directive belongs to the directive's text. -/
theorem exists_cons_of_star {x w r : Text} (hw : ∀ c ∈ w, Text.isPad c = true)
    (hr : EndsDirective r) (h : (x ++ (w ++ r)).head? = some '*') : ∃ y, x = '*' :: y := by
  cases x with
  | cons c y =>
    simp only [List.cons_append, List.head?_cons, Option.some.injEq] at h
    exact ⟨y, by rw [h]⟩
  | nil =>
    exfalso
    cases w with
    | cons c w =>
      have hc := hw c (by simp)
      simp only [List.cons_append, List.nil_append, List.head?_cons, Option.some.injEq] at h
      rw [h] at hc
      simp [Text.isPad] at hc
    | nil =>
      simp only [List.nil_append] at h
      rcases hr with rfl | ⟨c, more, rfl, hc⟩ | ⟨more, rfl⟩
      · simp at h
      · simp only [List.head?_cons, Option.some.injEq] at h
        rw [h] at hc
        simp [Text.isBreak] at hc
      · simp at h

section Units

variable {w r : Text}

/-- The text behind the first unit of `x`, which is `n` characters long and measured as before, consists
of units. -/
def RestPasses (w r x : Text) : Prop :=
  ∀ (y : Text) (n : Nat), y.length + n = x.length → 0 < n →
    extend n (directiveLength (y ++ (w ++ r))) = .ok (x.length + w.length) →
      ∃ i e, Passes (w ++ r) y i e

/-- A backslash takes along a line break behind it, or nothing. -/
theorem passes_of_backslash {c : Char} {x : Text} (hw : ∀ c ∈ w, Text.isPad c = true)
    (next : RestPasses w r ('\\' :: c :: x))
    (h : directiveLength ('\\' :: c :: x ++ (w ++ r)) =
      .ok (('\\' :: c :: x).length + w.length)) :
    ∃ i e, Passes (w ++ r) ('\\' :: c :: x) i e := by
  rw [List.cons_append, directiveLength.eq_2] at h
  by_cases hbreak : Text.isBreak c = true
  · have hlast : x = [] → c = '\r' → (w ++ r).head? ≠ some '\n' := by
      -- else the break would be longer than what is left of the text
      rintro rfl rfl hhead
      obtain rfl := pads_eq_nil_of_head hw hhead
      obtain ⟨more, hmore⟩ := List.head?_eq_some_iff.1 hhead
      rw [hmore] at h
      obtain ⟨m, -, htotal⟩ := extend_eq_ok_iff.1 h
      simp only [List.cons_append, List.nil_append, Text.breakLength, List.length_cons,
        List.length_nil] at htotal
      omega
    obtain ⟨brk, y, hsplit, hbrk, hnext⟩ := exists_break hbreak hlast
    rw [hsplit, List.append_assoc, breakLength_append hbrk hnext, List.drop_left] at h
    rw [hsplit] at next ⊢
    obtain ⟨i, e, hy⟩ := next y _ (by simp; omega) (by omega) h
    exact ⟨i, e, .continuation hbrk hnext hy⟩
  · simp only [Bool.not_eq_true] at hbreak
    rw [List.cons_append, breakLength_of_not_isBreak _ hbreak, List.drop_zero] at h
    obtain ⟨i, e, hx⟩ := next (c :: x) _ (by simp) (by omega) h
    exact ⟨i, e, .escapedChar hbreak hx⟩

/-- A string is closed in the text, or the text ends in it. -/
theorem passes_of_quote {x : Text} (hw : ∀ c ∈ w, Text.isPad c = true)
    (next : RestPasses w r ('"' :: x))
    (h : directiveLength ('"' :: x ++ (w ++ r)) = .ok (('"' :: x).length + w.length)) :
    ∃ i e, Passes (w ++ r) ('"' :: x) i e := by
  rw [List.cons_append, directiveLength.eq_5] at h
  obtain ⟨m, hm, htotal⟩ := extend_eq_ok_iff.1 h
  simp only [List.length_cons] at htotal
  rcases string_of_quotedLength hw hm (by omega) with ⟨e, hopen⟩ | ⟨q, y, rfl, hq, hy⟩
  · exact ⟨true, e, .openString hopen⟩
  · obtain ⟨i, e, hpasses⟩ := next y (q.length + 2) (by simp; omega) (by omega) (by
      rw [hy, extend_ok]
      congr 1
      simp only [List.length_cons, List.length_append]
      omega)
    exact ⟨i, e, .string hq hpasses⟩

/-- A block comment is closed in the text, since it ends in no pad. -/
theorem passes_of_comment {x : Text} (hw : ∀ c ∈ w, Text.isPad c = true)
    (next : RestPasses w r ('/' :: '*' :: x))
    (h : directiveLength ('/' :: '*' :: x ++ (w ++ r)) =
      .ok (('/' :: '*' :: x).length + w.length)) :
    ∃ i e, Passes (w ++ r) ('/' :: '*' :: x) i e := by
  rw [List.cons_append, List.cons_append, directiveLength.eq_4] at h
  split at h
  · simp at h
  · rename_i n hn
    have hle : n ≤ x.length := by
      obtain ⟨v, hv⟩ := commentLength_closes hn
      obtain ⟨m, -, htotal⟩ := extend_eq_ok_iff.1 h
      simp only [List.length_cons] at htotal
      exact take_of_getLast (v := v ++ ['*']) (c := '/') hw (by decide)
        (hv.trans (by simp)) (by omega)
    have hbody := commentLength_take_append [] hn
    rw [List.take_append_of_le_length hle, List.append_nil] at hbody
    rw [List.drop_append_of_le_length hle] at h
    obtain ⟨i, e, hx⟩ := next (x.drop n) _ (by simp; omega) (by omega) h
    rw [← List.take_append_drop n x]
    exact ⟨i, e, .comment (by rw [hbody, List.length_take, Nat.min_eq_left hle]) hx⟩

/-- Any other character is a unit of its own; the directive does not end at it. -/
theorem passes_of_char {c : Char} {x : Text} (hslash : c ≠ '\\') (hquote : c ≠ '"')
    (hblock : ¬(c = '/' ∧ (x ++ (w ++ r)).head? = some '*'))
    (next : RestPasses w r (c :: x))
    (h : directiveLength (c :: x ++ (w ++ r)) = .ok ((c :: x).length + w.length)) :
    ∃ i e, Passes (w ++ r) (c :: x) i e := by
  have hline : ¬(c = '/' ∧ (x ++ (w ++ r)).head? = some '/') := by
    -- a line comment would end the directive here
    rintro ⟨rfl, hhead⟩
    obtain ⟨more, hmore⟩ := List.head?_eq_some_iff.1 hhead
    rw [List.cons_append, hmore, directiveLength.eq_3, Except.ok.injEq, List.length_cons] at h
    omega
  have hcomment : c = '/' →
      (x ++ (w ++ r)).head? ≠ some '/' ∧ (x ++ (w ++ r)).head? ≠ some '*' := by
    intro hc
    exact ⟨fun hhead => hline ⟨hc, hhead⟩, fun hhead => hblock ⟨hc, hhead⟩⟩
  have hline' : ∀ more, c = '/' → x ++ (w ++ r) = '/' :: more → False := by
    intro more hc hmore
    exact hline ⟨hc, by rw [hmore]; rfl⟩
  have hblock' : ∀ more, c = '/' → x ++ (w ++ r) = '*' :: more → False := by
    intro more hc hmore
    exact hblock ⟨hc, by rw [hmore]; rfl⟩
  rw [List.cons_append, directiveLength.eq_6 _ _ hslash hline' hblock' hquote] at h
  by_cases hbreak : Text.isBreak c = true
  · rw [if_pos hbreak, Except.ok.injEq, List.length_cons] at h
    omega
  · rw [if_neg hbreak] at h
    simp only [Bool.not_eq_true] at hbreak
    obtain ⟨i, e, hx⟩ := next x _ (by simp) (by omega) h
    exact ⟨i, e, .char hslash hquote hbreak hcomment hx⟩

/-- The text of a directive that was read, in front of pads and the place where it ends, consists of
units. -/
theorem passes_of_directiveLength {x : Text} (hw : ∀ c ∈ w, Text.isPad c = true)
    (hr : EndsDirective r)
    (h : directiveLength (x ++ (w ++ r)) = .ok (x.length + w.length)) :
    ∃ i e, Passes (w ++ r) x i e := by
  induction hsize : x.length using Nat.strongRecOn generalizing x with
  | ind size ih =>
  subst hsize
  have next : RestPasses w r x := by
    intro y n hlen hn hy
    obtain ⟨m, hm, htotal⟩ := extend_eq_ok_iff.1 hy
    exact ih y.length (by omega) (hm.trans (by congr 1; omega)) rfl
  -- the cases are those of `directiveLength`
  match x with
  | [] => exact ⟨_, _, .nil⟩
  | c :: x =>
    by_cases hslash : c = '\\'
    · subst hslash
      cases x with
      | nil => exact ⟨_, _, .backslash⟩
      | cons c x => exact passes_of_backslash hw next h
    by_cases hquote : c = '"'
    · subst hquote
      exact passes_of_quote hw next h
    by_cases hblock : c = '/' ∧ (x ++ (w ++ r)).head? = some '*'
    · obtain ⟨rfl, hhead⟩ := hblock
      obtain ⟨y, rfl⟩ := exists_cons_of_star hw hr hhead
      exact passes_of_comment hw next h
    · exact passes_of_char hslash hquote hblock next h

end Units

end ShaderStyle.Lexer
