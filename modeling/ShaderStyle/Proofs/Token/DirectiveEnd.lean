import ShaderStyle.Proofs.Token.Rebroken

/-!
# Where a directive ends

A directive is read in front of blanks and a place where directives end (`reads_directive_iff`), but
for two exceptions: right before a line break its text may not end in a backslash that takes the break
along (`carriesOn`), and before a line comment it may not end inside a string. So it is read as before
when the blanks behind it go away or its line breaks are written differently, unless it then stands
right before a line break and carries on (`Reads.directive_withEnding`).
-/

namespace ShaderStyle.Lexer

variable {ending : Text}

/-! ## Where a directive ends -/

/-- The text starts with a line break. -/
def StartsBreak (r : Text) : Prop :=
  ∃ c more, r = c :: more ∧ Text.isBreak c = true

/-- The text starts with a line comment. -/
def StartsComment (r : Text) : Prop :=
  ∃ more, r = '/' :: '/' :: more

theorem quotedLength_pads {w r : Text} (hw : ∀ c ∈ w, Text.isPad c = true) :
    quotedLength (w ++ r) = w.length + quotedLength r := by
  induction w with
  | nil => simp
  | cons c w ih =>
    have hc := hw c (by simp)
    simp only [Text.isPad, Bool.or_eq_true, decide_eq_true_eq] at hc
    have hw' : ∀ c ∈ w, Text.isPad c = true := fun c hc => hw c (by simp [hc])
    rw [List.cons_append, quotedLength.eq_4]
    · rw [if_neg, if_neg, ih hw', List.length_cons]
      · omega
      · rintro rfl
        simp at hc
      · intro hbreak
        simp only [Text.isBreak, Bool.or_eq_true, decide_eq_true_eq] at hbreak
        rcases hbreak with rfl | rfl <;> simp at hc
    · rintro _ rfl
      simp at hc
    · rintro _ _ rfl
      simp at hc

theorem directiveLength_pads {w r : Text} (hw : ∀ c ∈ w, Text.isPad c = true) :
    directiveLength (w ++ r) = extend w.length (directiveLength r) := by
  induction w with
  | nil => simp
  | cons c w ih =>
    have hc := hw c (by simp)
    simp only [Text.isPad, Bool.or_eq_true, decide_eq_true_eq] at hc
    have hw' : ∀ c ∈ w, Text.isPad c = true := fun c hc => hw c (by simp [hc])
    have hbreak : ¬ Text.isBreak c = true := by
      simp only [Text.isBreak, Bool.or_eq_true, decide_eq_true_eq]
      rintro (rfl | rfl) <;> simp at hc
    rw [List.cons_append, directiveLength.eq_6, if_neg hbreak, ih hw', extend_extend,
      List.length_cons, Nat.add_comm]
    · rintro rfl
      simp at hc
    · rintro _ rfl
      simp at hc
    · rintro _ rfl
      simp at hc
    · rintro rfl
      simp at hc

theorem directiveLength_of_ends {r : Text} (hr : EndsDirective r) : directiveLength r = .ok 0 := by
  rcases hr with rfl | ⟨c, more, rfl, hc⟩ | ⟨more, rfl⟩
  · rw [directiveLength.eq_1]
  · exact directiveLength_of_isBreak more hc
  · rw [directiveLength.eq_3]

theorem quotedLength_eq_zero_iff {r : Text} (hr : EndsDirective r) :
    quotedLength r = 0 ↔ ¬ StartsComment r := by
  rcases hr with rfl | ⟨c, more, rfl, hc⟩ | ⟨more, rfl⟩
  · simp [quotedLength, StartsComment]
  · have hslash : c ≠ '/' := by
      rintro rfl
      simp [Text.isBreak] at hc
    have hback : c ≠ '\\' := by
      rintro rfl
      simp [Text.isBreak] at hc
    rw [quotedLength.eq_4 _ _ (fun _ h => absurd h hback) (fun _ _ h => absurd h hback), if_pos hc]
    simp [StartsComment, hslash]
  · have hlen : quotedLength ('/' :: '/' :: more) ≠ 0 := by
      rw [quotedLength.eq_4 _ _ (by simp) (by simp), if_neg (by decide), if_neg (by decide)]
      omega
    simp [hlen, StartsComment]

theorem breakLength_eq_zero_iff {r : Text} : Text.breakLength r = 0 ↔ ¬ StartsBreak r := by
  fun_cases Text.breakLength r with
  | case1 more => simp [StartsBreak, Text.isBreak]
  | case2 more => simp [StartsBreak, Text.isBreak]
  | case3 more => simp [StartsBreak, Text.isBreak]
  | case4 _ h1 h2 h3 =>
    simp only [true_iff]
    rintro ⟨c, more, rfl, hc⟩
    simp only [Text.isBreak, Bool.or_eq_true, decide_eq_true_eq] at hc
    rcases hc with rfl | rfl
    · exact h2 more rfl
    · exact h3 more rfl

theorem two_le_quotedLength (c : Char) (t : Text) : 2 ≤ quotedLength ('\\' :: c :: t) := by
  by_cases hcr : c = '\r' ∧ ∃ more, t = '\n' :: more
  · obtain ⟨rfl, more, rfl⟩ := hcr
    rw [quotedLength.eq_2]
    omega
  · rw [quotedLength.eq_3 _ _ fun more hc ht => hcr ⟨hc, more, ht⟩]
    omega

/-- A directive that has taken some of `r` along does not end before `r`. -/
theorem extend_drop_eq_iff {r : Text} {n k : Nat} (hr : EndsDirective r) :
    extend (n + k) (directiveLength (r.drop k)) = .ok n ↔ k = 0 := by
  constructor
  · intro h
    obtain ⟨m, -, hm⟩ := extend_eq_ok_iff.1 h
    omega
  · rintro rfl
    rw [List.drop_zero, directiveLength_of_ends hr]
    rfl

/-- A directive ends in front of pads and a place where directives end, unless its text ends in a
backslash right before a line break, or in an open string before a line comment. -/
theorem resume_eq_iff {w r : Text} {i e : Bool} (hw : ∀ c ∈ w, Text.isPad c = true)
    (hr : EndsDirective r) :
    resume i e (w ++ r) = .ok w.length ↔
      ¬(e = true ∧ w = [] ∧ StartsBreak r) ∧ ¬(i = true ∧ StartsComment r) := by
  have hplain : directiveLength (w ++ r) = .ok w.length := by
    rw [directiveLength_pads hw, directiveLength_of_ends hr]
    rfl
  have hdrop (k : Nat) : (w ++ r).drop (w.length + k) = r.drop k := by
    rw [← List.drop_drop, List.drop_left]
  -- inside a string, what is taken along is what the string has in `r`
  have hquoted : extend (w.length + quotedLength r)
      (directiveLength ((w ++ r).drop (w.length + quotedLength r))) = .ok w.length ↔
      ¬ StartsComment r := by
    rw [hdrop, extend_drop_eq_iff hr, quotedLength_eq_zero_iff hr]
  match i, e with
  | false, false => simp [resume, hplain]
  | false, true =>
    simp only [resume, true_and, Bool.false_eq_true, false_and, not_false_eq_true, and_true]
    cases w with
    | nil =>
      have h := extend_drop_eq_iff (n := 0) (k := Text.breakLength r) hr
      rw [Nat.zero_add] at h
      simpa [breakLength_eq_zero_iff] using h
    | cons c w =>
      have hc : Text.breakLength (c :: w ++ r) = 0 := by
        apply breakLength_of_not_isBreak
        have := hw c (by simp)
        simp only [Text.isPad, Bool.or_eq_true, decide_eq_true_eq] at this
        rcases this with ((rfl | rfl) | rfl) | rfl <;> decide
      rw [hc, List.drop_zero, extend_zero, hplain]
      simp
  | true, false =>
    simp only [resume, quotedLength_pads hw, hquoted]
    simp
  | true, true =>
    simp only [resume, true_and]
    cases w with
    | nil =>
      have h := extend_drop_eq_iff (n := 0) (k := quotedLength ('\\' :: r) - 1) hr
      rw [Nat.zero_add] at h
      simp only [List.nil_append, List.length_nil]
      rw [h]
      rcases hr with rfl | ⟨c, more, rfl, hc⟩ | ⟨more, rfl⟩
      · simp [quotedLength, StartsBreak, StartsComment, Text.isBreak]
      · have hlen := two_le_quotedLength c more
        have hbreak : StartsBreak (c :: more) := ⟨c, more, rfl, hc⟩
        simp only [hbreak, and_true, not_true_eq_false, false_and, iff_false]
        omega
      · simp [quotedLength, StartsBreak, StartsComment, Text.isBreak]
    | cons c w =>
      have hne : ∀ more, c = '\r' → w ++ r = '\n' :: more → False := by
        rintro _ rfl
        simpa [Text.isPad] using hw '\r' (by simp)
      have hlen : quotedLength ('\\' :: (c :: w ++ r)) - 1 = (c :: w).length + quotedLength r := by
        rw [List.cons_append, quotedLength.eq_3 _ _ hne,
          quotedLength_pads fun c hc => hw c (by simp [hc]), List.length_cons]
        omega
      rw [hlen, hquoted]
      simp

/-! ## Directives as lexemes -/

theorem not_isPad_of_isBreak {c : Char} (h : Text.isBreak c = true) : Text.isPad c = false := by
  simp only [Text.isBreak, Bool.or_eq_true, decide_eq_true_eq] at h
  rcases h with rfl | rfl <;> decide

theorem trimPads_append_pads {x w : Text} (hx : ∀ c ∈ x.getLast?, Text.isPad c = false)
    (hw : ∀ c ∈ w, Text.isPad c = true) : Text.trimPads (x ++ w) = x := by
  unfold Text.trimPads
  have hdrop : (x ++ w).reverse.dropWhile Text.isPad = x.reverse.dropWhile Text.isPad := by
    rw [List.reverse_append, List.dropWhile_append_of_pos]
    intro c hc
    exact hw c (List.mem_reverse.1 hc)
  rw [hdrop]
  cases hlast : x.reverse with
  | nil => rw [List.reverse_eq_nil_iff.1 hlast]; rfl
  | cons c y =>
    have hc : Text.isPad c = false := by
      apply hx
      rw [List.getLast?_eq_head?_reverse, hlast]
      rfl
    rw [List.dropWhile_cons_of_neg (by simp [hc]), ← hlast, List.reverse_reverse]

theorem exists_trimPads (x : Text) :
    ∃ w, x = Text.trimPads x ++ w ∧ (∀ c ∈ w, Text.isPad c = true) ∧
      ∀ c ∈ (Text.trimPads x).getLast?, Text.isPad c = false := by
  refine ⟨(x.reverse.takeWhile Text.isPad).reverse, ?_, ?_, ?_⟩
  · unfold Text.trimPads
    rw [← List.reverse_append, List.takeWhile_append_dropWhile, List.reverse_reverse]
  · intro c hc
    exact List.all_eq_true.1 List.all_takeWhile c (List.mem_reverse.1 hc)
  · intro c hc
    unfold Text.trimPads at hc
    rw [List.getLast?_reverse] at hc
    have := List.head?_dropWhile_not Text.isPad x.reverse
    rw [hc] at this
    simpa using this

/-- Behind the text of a directive stands nothing that could belong to a name. -/
theorem not_isNameChar_of_head? {w r : Text} {c : Char} (hw : ∀ c ∈ w, Text.isPad c = true)
    (hr : EndsDirective r) (hc : c ∈ (w ++ r).head?) : Text.isNameChar c = false := by
  have hpads : ∀ c, Text.isPad c = true → Text.isNameChar c = false := by
    intro c hc
    simp only [Text.isPad, Bool.or_eq_true, decide_eq_true_eq] at hc
    rcases hc with ((rfl | rfl) | rfl) | rfl <;> decide
  cases w with
  | cons z w =>
    simp only [List.cons_append, List.head?_cons, Option.mem_some_iff] at hc
    subst hc
    exact hpads z (hw z (by simp))
  | nil =>
    rw [List.nil_append] at hc
    rcases hr with rfl | ⟨z, more, rfl, hz⟩ | ⟨more, rfl⟩
    · simp at hc
    · simp only [List.head?_cons, Option.mem_some_iff] at hc
      subst hc
      simp only [Text.isBreak, Bool.or_eq_true, decide_eq_true_eq] at hz
      rcases hz with rfl | rfl <;> decide
    · simp only [List.head?_cons, Option.mem_some_iff] at hc
      subst hc
      decide

theorem takeWhile_append_of_head? {p : Char → Bool} {x t : Text}
    (ht : ∀ c ∈ t.head?, p c = false) : (x ++ t).takeWhile p = x.takeWhile p := by
  induction x with
  | nil =>
    cases t with
    | nil => rfl
    | cons c t => simp [ht c (by simp)]
  | cons c x ih =>
    by_cases hc : p c = true
    · simp [hc, ih]
    · simp [hc]

theorem directiveName_cons (c : Char) (rest : Text) :
    directiveName (c :: rest) =
      if c = ' ' ∨ c = '\t' then directiveName rest
      else if Text.isNameStart c then c :: rest.takeWhile Text.isNameChar else [] := by
  by_cases hc : c = ' ' ∨ c = '\t'
  · rw [if_pos hc]
    simp [directiveName, hc]
  · rw [if_neg hc]
    simp [directiveName, hc]

theorem directiveName_eq_nil {w r : Text} (hw : ∀ c ∈ w, Text.isPad c = true)
    (hr : EndsDirective r) : directiveName (w ++ r) = [] := by
  have hstart {c : Char} (h : Text.isNameChar c = false) : Text.isNameStart c = false := by
    simp only [Text.isNameChar, Char.isAlphanum, Bool.or_eq_false_iff] at h
    simp [Text.isNameStart, h.1.1, h.2]
  induction w with
  | nil =>
    cases r with
    | nil => rfl
    | cons c r =>
      have hname := not_isNameChar_of_head? (c := c) hw hr (by simp)
      have hblank : ¬ (c = ' ' ∨ c = '\t') := by
        rcases hr with h | ⟨z, more, h, hz⟩ | ⟨more, h⟩
        · simp at h
        · obtain ⟨rfl, -⟩ := List.cons.inj h
          rintro (rfl | rfl) <;> simp [Text.isBreak] at hz
        · obtain ⟨rfl, -⟩ := List.cons.inj h
          decide
      rw [List.nil_append, directiveName_cons, if_neg hblank, if_neg (by simp [hstart hname])]
  | cons c w ih =>
    have hname := hstart (not_isNameChar_of_head? (c := c) hw hr (by simp))
    rw [List.cons_append, directiveName_cons, ih fun c hc => hw c (by simp [hc])]
    simp [hname]

/-- The name of a directive stands in its text. -/
theorem directiveName_append {x w r : Text} (hx : ∀ c ∈ x.getLast?, Text.isPad c = false)
    (hw : ∀ c ∈ w, Text.isPad c = true) (hr : EndsDirective r) :
    directiveName (x ++ (w ++ r)) = directiveName x := by
  have hnext : ∀ c ∈ (w ++ r).head?, Text.isNameChar c = false :=
    fun c hc => not_isNameChar_of_head? hw hr hc
  induction x with
  | nil =>
    rw [List.nil_append]
    exact directiveName_eq_nil hw hr
  | cons c x ih =>
    have hx' : ∀ c ∈ x.getLast?, Text.isPad c = false := by
      intro z hz
      apply hx
      rw [List.getLast?_cons, hz]
      rfl
    rw [List.cons_append, directiveName_cons, directiveName_cons, ih hx',
      takeWhile_append_of_head? hnext]

theorem directiveName_withEnding (hending : Text.IsBreakText ending) (x : Text) :
    directiveName (Text.withEnding ending x) = directiveName x := by
  have hbreak {e y : Text} (he : Text.IsBreakText e) : directiveName (e ++ y) = [] := by
    obtain ⟨c, u, rfl, hc⟩ := he.exists_cons
    exact directiveName_eq_nil (w := []) (fun _ h => absurd h (by simp)) (.inr (.inl ⟨c, u ++ y, rfl, hc⟩))
  have htake (y : Text) : (Text.withEnding ending y).takeWhile Text.isNameChar =
      y.takeWhile Text.isNameChar := by
    have hstop {e z : Text} (he : Text.IsBreakText e) :
        (e ++ z).takeWhile Text.isNameChar = [] := by
      rcases he with rfl | rfl | rfl <;> simp [Text.isNameChar]
    induction y using Text.break_induction with
    | nil => rw [Text.withEnding_nil]
    | brk b y hb hnext ih => rw [Text.withEnding_break hb hnext, hstop hending, hstop hb]
    | char c y hc ih => rw [Text.withEnding_cons hc, List.takeWhile_cons, List.takeWhile_cons, ih]
  induction x using Text.break_induction with
  | nil => rw [Text.withEnding_nil]
  | brk b x hb hnext ih => rw [Text.withEnding_break hb hnext, hbreak hending, hbreak hb]
  | char c x hc ih =>
    rw [Text.withEnding_cons hc, directiveName_cons, directiveName_cons, ih, htake]

/-- A text has one cut into pads and a rest that starts with none. -/
theorem pads_append_inj {w w' r r' : Text} (hw : ∀ c ∈ w, Text.isPad c = true)
    (hw' : ∀ c ∈ w', Text.isPad c = true) (hr : ∀ c ∈ r.head?, Text.isPad c = false)
    (hr' : ∀ c ∈ r'.head?, Text.isPad c = false) (h : w ++ r = w' ++ r') : w = w' ∧ r = r' := by
  have htake := congrArg (List.takeWhile Text.isPad) h
  have hall {w : Text} (hw : ∀ c ∈ w, Text.isPad c = true) : w.takeWhile Text.isPad = w := by
    have hnil : (w ++ []).takeWhile Text.isPad = w ++ [].takeWhile Text.isPad :=
      List.takeWhile_append_of_pos hw
    simpa using hnil
  rw [takeWhile_append_of_head? hr, takeWhile_append_of_head? hr', hall hw, hall hw'] at htake
  subst htake
  exact ⟨rfl, List.append_cancel_left h⟩

theorem EndsDirective.not_isPad {r : Text} (hr : EndsDirective r) :
    ∀ c ∈ r.head?, Text.isPad c = false := by
  intro c hc
  rcases hr with rfl | ⟨z, more, rfl, hz⟩ | ⟨more, rfl⟩
  · simp at hc
  · simp only [List.head?_cons, Option.mem_some_iff] at hc
    subst hc
    exact not_isPad_of_isBreak hz
  · simp only [List.head?_cons, Option.mem_some_iff] at hc
    subst hc
    decide

/-- In front of which texts a directive is read. -/
theorem reads_directive_iff {d : Dialect} {b : Bool} {name x w r : Text}
    (hw : ∀ c ∈ w, Text.isPad c = true) (hr : ∀ c ∈ r.head?, Text.isPad c = false) :
    Reads d b ⟨.directive name, '#' :: x⟩ (w ++ r) ↔
      b = true ∧ name = directiveName x ∧ (∀ c ∈ x.getLast?, Text.isPad c = false) ∧
        EndsDirective r ∧ ∃ i e, Passes (w ++ r) x i e ∧
          ¬(e = true ∧ w = [] ∧ StartsBreak r) ∧ ¬(i = true ∧ StartsComment r) := by
  constructor
  · intro h
    obtain ⟨c, u, rest, n, k, htext, hrest, hn, hk, hcut⟩ := h.cut
    simp only [List.cons.injEq] at htext
    obtain ⟨rfl, rfl⟩ := htext
    cases hcut with
    | directive hstart hlen =>
      rename_i m
      obtain ⟨w', hsplit, hw', hx'⟩ := exists_trimPads (rest.take m)
      obtain ⟨hm, hends⟩ := endsDirective_drop hlen
      -- the directive's text is what is left of the measured text without its pads
      have htrim : Text.trimPads (rest.take m) = x ∧ w' ++ rest.drop m = w ++ r := by
        have hall := List.take_append_drop m rest
        rw [hsplit, List.append_assoc] at hall
        exact List.append_inj (hall.trans hrest.symm) hn.symm
      rw [htrim.1] at hsplit hx'
      obtain ⟨rfl, hdrop⟩ := pads_append_inj hw' hw hends.not_isPad hr htrim.2
      rw [hdrop] at hends
      have hm' : m = x.length + w'.length := by
        have := congrArg List.length hsplit
        rw [List.length_take, List.length_append] at this
        omega
      rw [← hrest, hm'] at hlen
      obtain ⟨i, e, hpasses⟩ := passes_of_directiveLength hw' hends hlen
      rw [directiveLength_of_passes hpasses, extend_eq_ok_iff] at hlen
      obtain ⟨m', hresume, hm''⟩ := hlen
      obtain rfl : m' = w'.length := by omega
      simp only [TokenKind.directive.injEq] at hk
      rw [← hrest, directiveName_append hx' hw' hends] at hk
      exact ⟨hstart, hk, hx', hends, i, e, hpasses, (resume_eq_iff hw' hends).1 hresume⟩
    | plain _ hplain =>
      have := isPlain_of_scanPlain hplain
      simp [← hk, TokenKind.isPlain] at this
    | whitespace hc => simp [Text.isPad] at hc
    | lineBreak hc => simp [Text.isBreak] at hc
    | literal hc _ => simp at hc
  · rintro ⟨rfl, rfl, hx, hends, i, e, hpasses, hresume⟩
    refine ⟨'#', x, rfl, ?_⟩
    have hlen := directiveLength_of_passes hpasses
    rw [(resume_eq_iff hw hends).2 hresume, extend_ok] at hlen
    have htake : (x ++ (w ++ r)).take (x.length + w.length) = x ++ w := by
      rw [← List.append_assoc, ← List.length_append, List.take_left]
    simp [scan, scanDirective, Text.isPad, Text.isBreak, hlen, htake, trimPads_append_pads hx hw,
      directiveName_append hx hw hends]

/-! ## Directives that carry on -/

/-- Whether a directive, put right before a line break, would go on behind it: its text ends in a
backslash that takes the break along. -/
def carriesOn (l : Lexeme) : Bool :=
  match l.kind with
  | .directive _ =>
    match directiveLength (l.text.tail ++ ['\r']) with
    | .ok n => n ≠ l.text.tail.length
    | .error _ => true
  | _ => false

theorem carriesOn_of_passes {s name x : Text} {i e : Bool} (h : Passes s x i e) :
    carriesOn ⟨.directive name, '#' :: x⟩ = e := by
  have hpasses : Passes ['\r'] x i e := h.congr (by simp) (by simp) (by simp)
  have hends : EndsDirective ['\r'] := .inr (.inl ⟨'\r', [], rfl, by decide⟩)
  have hbreak : StartsBreak ['\r'] := ⟨'\r', [], rfl, by decide⟩
  have hcomment : ¬ StartsComment ['\r'] := by simp [StartsComment]
  have hresume := resume_eq_iff (w := []) (r := ['\r']) (i := i) (e := e) (by simp) hends
  have hlen : directiveLength (x ++ ['\r']) = .ok x.length ↔ e = false := by
    rw [directiveLength_of_passes hpasses, extend_eq_ok_iff]
    constructor
    · rintro ⟨m, hm, htotal⟩
      obtain rfl : m = 0 := by omega
      simpa [hbreak] using (hresume.1 hm).1
    · rintro rfl
      exact ⟨0, hresume.2 ⟨by simp, by simp [hcomment]⟩, rfl⟩
  simp only [carriesOn, List.tail_cons]
  split
  · rename_i n hn
    rw [hn, Except.ok.injEq] at hlen
    by_cases hlen' : n = x.length
    · rw [hlen.1 hlen']
      exact decide_eq_false (not_not_intro hlen')
    · have he : e = true := by simpa using mt hlen.2 hlen'
      rw [he]
      exact decide_eq_true hlen'
  · rename_i f hf
    rw [hf] at hlen
    cases e <;> simp at hlen ⊢

/-- The text of a directive starts with the hash sign. -/
theorem Reads.exists_hash {d : Dialect} {b : Bool} {name y t : Text}
    (h : Reads d b ⟨.directive name, y⟩ t) : b = true ∧ ∃ x, y = '#' :: x := by
  obtain ⟨c, u, rest, n, k, rfl, hrest, hn, hk, hcut⟩ := h.cut
  cases hcut with
  | directive hstart _ => exact ⟨hstart, u, rfl⟩
  | plain _ hplain =>
    have := isPlain_of_scanPlain hplain
    simp [← hk, TokenKind.isPlain] at this
  | _ => simp at hk

theorem exists_pads (t : Text) :
    ∃ w r, t = w ++ r ∧ (∀ c ∈ w, Text.isPad c = true) ∧ ∀ c ∈ r.head?, Text.isPad c = false := by
  refine ⟨t.takeWhile Text.isPad, t.dropWhile Text.isPad,
    (List.takeWhile_append_dropWhile).symm, fun c hc => List.all_eq_true.1 List.all_takeWhile c hc, ?_⟩
  intro c hc
  have := List.head?_dropWhile_not Text.isPad t
  rw [hc] at this
  simpa using this

/-- A directive that carries on ends in a backslash. -/
theorem getLast?_of_carriesOn {d : Dialect} {b : Bool} {l : Lexeme} {t : Text}
    (h : Reads d b l t) (hl : carriesOn l = true) : l.text.getLast? = some '\\' := by
  obtain ⟨kind, text⟩ := l
  cases kind with
  | directive name =>
    obtain ⟨-, x, rfl⟩ := h.exists_hash
    obtain ⟨w, r, rfl, hw, hr⟩ := exists_pads t
    obtain ⟨-, -, -, -, i, e, hpasses, -⟩ := (reads_directive_iff hw hr).1 h
    rw [carriesOn_of_passes hpasses] at hl
    subst hl
    simp [List.getLast?_cons, hpasses.getLast?_of_escaped]
  | _ => simp [carriesOn] at hl

/-- A directive is read in front of the same pads and a place of the same form. -/
theorem Reads.directive_congr {d : Dialect} {b : Bool} {name x w r r' : Text}
    (h : Reads d b ⟨.directive name, x⟩ (w ++ r)) (hw : ∀ c ∈ w, Text.isPad c = true)
    (hr : EndsDirective r) (hr' : EndsDirective r') (hhead : r'.head? = r.head?)
    (hcomment : StartsComment r' → StartsComment r) : Reads d b ⟨.directive name, x⟩ (w ++ r') := by
  obtain ⟨hb, x, rfl⟩ := h.exists_hash
  obtain ⟨-, hname, hlast, -, i, e, hpasses, hbreak, hstring⟩ :=
    (reads_directive_iff hw hr.not_isPad).1 h
  have hhead' : (w ++ r').head? = (w ++ r).head? := by
    cases w with
    | nil => exact hhead
    | cons c w => rfl
  refine (reads_directive_iff hw hr'.not_isPad).2 ⟨hb, hname, hlast, hr', i, e,
    hpasses.congr (by rw [hhead']; exact id) (by rw [hhead']; exact id) (by rw [hhead']; exact id),
    ?_, ?_⟩
  · rintro ⟨rfl, rfl, c, more, rfl, hc⟩
    obtain ⟨more', hmore'⟩ := List.head?_eq_some_iff.1 hhead.symm
    exact hbreak ⟨rfl, rfl, c, more', hmore', hc⟩
  · rintro ⟨hi, hstart⟩
    exact hstring ⟨hi, hcomment hstart⟩

theorem getLast?_withEnding {x : Text} (hending : Text.IsBreakText ending)
    (hx : ∀ c ∈ x.getLast?, Text.isPad c = false) :
    ∀ c ∈ (Text.withEnding ending x).getLast?, Text.isPad c = false := by
  induction x using Text.break_induction with
  | nil => simp
  | brk b y hb hnext ih =>
    rw [Text.withEnding_break hb hnext, List.getLast?_append]
    intro c hc
    cases hy : (Text.withEnding ending y).getLast? with
    | none =>
      rw [hy, Option.none_or] at hc
      exact not_isPad_of_isBreak (Text.isBreak_of_mem hending (List.mem_of_getLast? hc))
    | some z =>
      rw [hy, Option.some_or, Option.mem_some_iff] at hc
      subst hc
      refine ih (fun c hc => hx c ?_) z hy
      rw [List.getLast?_append, hc]
      rfl
  | char c y hc ih =>
    rw [Text.withEnding_cons hc]
    cases hy : y with
    | nil =>
      subst hy
      simpa using hx
    | cons z u =>
      have hne : Text.withEnding ending y ≠ [] := by
        intro hnil
        rw [(withEnding_eq_nil_iff hending).1 hnil] at hy
        simp at hy
      obtain ⟨z', u', hz'⟩ := List.exists_cons_of_ne_nil hne
      rw [hy] at hx ih hz'
      rw [hz', List.getLast?_cons_cons, ← hz']
      rw [List.getLast?_cons_cons] at hx
      exact ih hx

/-- A directive is read with its line breaks written in another way, where it does not stand right
before a line break that it takes along. -/
theorem Reads.directive_withEnding {d : Dialect} {b : Bool} {name x w r : Text}
    (h : Reads d b ⟨.directive name, x⟩ (w ++ r)) (hw : ∀ c ∈ w, Text.isPad c = true)
    (hr : EndsDirective r) (w' r' : Text) (hw' : ∀ c ∈ w', Text.isPad c = true) (hr' : EndsDirective r')
    (hending : Text.IsBreakText ending) (hcr : ending = ['\r'] → (w' ++ r').head? ≠ some '\n')
    (hcomment : StartsComment r' → w' = w ∧ StartsComment r)
    (hbreak : w' = [] → StartsBreak r' → carriesOn ⟨.directive name, x⟩ = false) :
    Reads d b ⟨.directive name, Text.withEnding ending x⟩ (w' ++ r') := by
  obtain ⟨hb, x, rfl⟩ := h.exists_hash
  obtain ⟨-, hname, hlast, -, i, e, hpasses, -, hstring⟩ :=
    (reads_directive_iff hw hr.not_isPad).1 h
  rw [carriesOn_of_passes hpasses] at hbreak
  rw [Text.withEnding_cons (by decide)]
  -- a slash or a star right behind the text was there before
  have hslash : (w' ++ r').head? = some '/' → (w ++ r).head? = some '/' := by
    intro hhead
    have hnil : w' = [] := by
      cases w' with
      | nil => rfl
      | cons c w' =>
        have hc := hw' c (by simp)
        simp only [List.cons_append, List.head?_cons, Option.some.injEq] at hhead
        subst hhead
        simp [Text.isPad] at hc
    subst hnil
    rw [List.nil_append] at hhead
    have hstart : StartsComment r' := by
      rcases hr' with rfl | ⟨c, more, rfl, hc⟩ | hstart
      · simp at hhead
      · simp only [List.head?_cons, Option.some.injEq] at hhead
        subst hhead
        simp [Text.isBreak] at hc
      · exact hstart
    obtain ⟨rfl, more, rfl⟩ := hcomment hstart
    rfl
  have hstar : (w' ++ r').head? = some '*' → (w ++ r).head? = some '*' := by
    intro hhead
    obtain ⟨y, hy⟩ := exists_cons_of_star (x := []) hw' hr' hhead
    simp at hy
  refine (reads_directive_iff hw' hr'.not_isPad).2 ⟨hb, ?_, getLast?_withEnding hending hlast, hr', i,
    e, hpasses.withEnding hending hslash hstar hcr, ?_, ?_⟩
  · rw [directiveName_withEnding hending, hname]
  · rintro ⟨he, hnil, hstart⟩
    rw [hbreak hnil hstart] at he
    simp at he
  · rintro ⟨hi, hstart⟩
    exact hstring ⟨hi, (hcomment hstart).2⟩

/-! ## Directives that are read on -/

theorem le_length_trimPads {x u : Text} {c : Char} (hc : Text.isPad c = false) :
    x.length < (Text.trimPads (x ++ c :: u)).length := by
  obtain ⟨w, hw, hpads, -⟩ := exists_trimPads (x ++ c :: u)
  apply Nat.lt_of_not_le
  intro hle
  -- else the pads that are cut off would hold `c`
  have hmem : c ∈ w := by
    have hdrop := congrArg (List.drop x.length) hw
    rw [List.drop_left, List.drop_append, List.drop_of_length_le hle, List.nil_append] at hdrop
    exact List.mem_of_mem_drop (hdrop ▸ List.mem_cons_self)
  simp [hpads c hmem] at hc

/-- What is read behind a backslash takes a line break along. -/
theorem pos_of_resume {c : Char} {t : Text} {i : Bool} {m : Nat} (hc : Text.isBreak c = true)
    (h : resume i true (c :: t) = .ok m) : 0 < m := by
  cases i with
  | false =>
    obtain ⟨k, -, hk⟩ := extend_eq_ok_iff.1 h
    have hbreak : Text.breakLength (c :: t) ≠ 0 := by
      rw [Ne, breakLength_eq_zero_iff]
      exact fun hnot => hnot ⟨c, t, rfl, hc⟩
    have hk : Text.breakLength (c :: t) + k = m := hk
    omega
  | true =>
    obtain ⟨k, -, hk⟩ := extend_eq_ok_iff.1 h
    have hquoted := two_le_quotedLength c t
    have hk : quotedLength ('\\' :: c :: t) - 1 + k = m := hk
    omega

/-- A directive that carries on, put right before a line break, is not read as it was: lexing fails, or
the directive goes on behind the break. -/
theorem Reads.directive_reads_on {d : Dialect} {b : Bool} {name x w r : Text}
    (h : Reads d b ⟨.directive name, x⟩ (w ++ r)) (hw : ∀ c ∈ w, Text.isPad c = true)
    (hr : EndsDirective r) (hcarries : carriesOn ⟨.directive name, x⟩ = true)
    (hending : Text.IsBreakText ending) {t : Text} {ls : List Lexeme}
    (hls : lexemes d true (Text.withEnding ending x ++ (ending ++ t)) = .ok ls) :
    ∃ l more z, ls = l :: more ∧ l.kind.isLayout = false ∧
      l.text = Text.withEnding ending x ++ z ∧ z ≠ [] := by
  obtain ⟨-, x, rfl⟩ := h.exists_hash
  obtain ⟨-, -, -, -, i, e, hpasses, -⟩ := (reads_directive_iff hw hr.not_isPad).1 h
  rw [carriesOn_of_passes hpasses] at hcarries
  subst hcarries
  obtain ⟨c, u, rfl, hc⟩ := hending.exists_cons
  have hslash : c ≠ '/' := by
    rintro rfl
    simp [Text.isBreak] at hc
  have hstar : c ≠ '*' := by
    rintro rfl
    simp [Text.isBreak] at hc
  have hcr : c :: u = ['\r'] → (c :: u ++ t).head? ≠ some '\n' := by
    intro hcu
    simp [(List.cons.inj hcu).1]
  have hpasses' : Passes (c :: u ++ t) (Text.withEnding (c :: u) x) i true :=
    hpasses.withEnding hending (by simp [hslash]) (by simp [hstar]) hcr
  have hlength := directiveLength_of_passes hpasses'
  rw [Text.withEnding_cons (by decide)] at hls ⊢
  generalize Text.withEnding (c :: u) x = y at hls hlength ⊢
  have hscan (rest : Text) : scan d true '#' rest = scanDirective rest := rfl
  rw [List.cons_append, lexemes, hscan, scanDirective, hlength] at hls
  cases hresume : resume i true (c :: u ++ t) with
  | error f => simp only [hresume, extend, reduceCtorEq] at hls
  | ok m =>
    have hm := pos_of_resume hc hresume
    simp only [hresume, extend] at hls
    split at hls
    · simp at hls
    · simp only [Except.ok.injEq] at hls
      -- the break behind the text is taken along, and no blank that is cut off comes before it
      have htake : (y ++ (c :: u ++ t)).take (y.length + m) = y ++ c :: (u ++ t).take (m - 1) := by
        rw [List.take_length_add_append, List.cons_append,
          show m = m - 1 + 1 by omega, List.take_succ_cons]
        rfl
      have hlong := le_length_trimPads (x := y) (u := (u ++ t).take (m - 1)) (not_isPad_of_isBreak hc)
      rw [htake] at hls
      generalize (Text.trimPads (y ++ c :: (u ++ t).take (m - 1))).length = n at hls hlong
      refine ⟨_, _, (c :: u ++ t).take (n - y.length), hls.symm, rfl, ?_, ?_⟩
      · rw [List.take_append, List.take_of_length_le (by omega)]
        rfl
      · rw [Ne, List.take_eq_nil_iff]
        simp only [List.cons_append, reduceCtorEq, or_false]
        omega

end ShaderStyle.Lexer
