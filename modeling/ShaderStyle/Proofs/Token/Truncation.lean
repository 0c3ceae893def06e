import ShaderStyle.Proofs.Token.DirectiveEnd
import ShaderStyle.Proofs.Token.Lossless

/-!
# Texts that are cut short

The scanner takes as many characters as it can, so what it cuts off at the start of a text it also cuts
off when the text ends earlier, as long as the lexeme itself is still there (`Reads.of_append`). The one
exception is a directive in front of a line comment: if the text ends between the two slashes, the
directive takes the first of them along.
-/

namespace ShaderStyle.Lexer

variable {d : Dialect} {b : Bool} {p : Char → Bool} {c : Char} {x s : Text}

theorem head?_of_append {z : Char} (h : x.head? = some z) : (x ++ s).head? = some z := by
  rw [List.head?_append, h]
  rfl

/-- A run of characters that ends before the text does. -/
theorem leading_of_append (h : Text.leading p (x ++ s) ≤ x.length) :
    Text.leading p x = Text.leading p (x ++ s) := by
  induction x with
  | nil =>
    have hzero : Text.leading p ([] ++ s) = 0 := Nat.le_zero.1 h
    rw [hzero]
    rfl
  | cons c x ih =>
    by_cases hc : p c = true
    · simp only [Text.leading, List.cons_append, List.takeWhile_cons, hc, if_true,
        List.length_cons, Nat.add_le_add_iff_right, Nat.add_right_cancel_iff] at h ⊢
      exact ih h
    · simp only [Text.leading, List.cons_append, List.takeWhile_cons, hc, Bool.false_eq_true,
        if_false]

theorem leading_le_leading_append (p : Char → Bool) (x s : Text) :
    Text.leading p x ≤ Text.leading p (x ++ s) := by
  by_cases h : Text.leading p (x ++ s) ≤ x.length
  · exact Nat.le_of_eq (leading_of_append h)
  · exact Nat.le_trans (Text.leading_le p x) (Nat.le_of_not_le h)

/-! ## Numbers -/

theorem mantissaLength_of_append (h : mantissaLength c (x ++ s) ≤ x.length) :
    mantissaLength c x = mantissaLength c (x ++ s) := by
  unfold mantissaLength at h ⊢
  have hle : Text.leading Text.isDigit (x ++ s) ≤ x.length := by
    refine Nat.le_trans ?_ h
    simp only
    split
    · exact Nat.le_refl _
    · split <;> omega
  have hwhole := leading_of_append hle
  simp only [hwhole, List.drop_append_of_le_length hle] at h ⊢
  split
  · rfl
  · rename_i hpoint
    rw [if_neg hpoint] at h
    have hlength : (x.drop (Text.leading Text.isDigit (x ++ s))).length +
        Text.leading Text.isDigit (x ++ s) = x.length := by
      rw [List.length_drop]
      omega
    generalize x.drop (Text.leading Text.isDigit (x ++ s)) = y at h hlength ⊢
    cases y with
    | nil =>
      -- a point behind the digits would not be in the text any more
      rw [List.nil_append] at h ⊢
      split at h
      · simp only [List.length_nil] at hlength
        omega
      · rfl
    | cons z y =>
      rw [List.cons_append] at h ⊢
      by_cases hz : z = '.'
      · subst hz
        simp only [List.length_cons] at h hlength ⊢
        rw [leading_of_append (x := y) (s := s) (by omega)]
      · simp [hz]

/-- A sign is the first character or there is none. -/
theorem signLength_of_append (h : x ≠ []) : signLength x = signLength (x ++ s) := by
  rcases List.exists_cons_of_ne_nil h with ⟨c, u, rfl⟩
  by_cases hplus : c = '+'
  · simp [signLength, hplus]
  · by_cases hminus : c = '-'
    · simp [signLength, hminus]
    · simp [signLength, hplus, hminus]

theorem exponentLength_of_append (h : exponentLength (x ++ s) ≤ x.length) :
    exponentLength x = exponentLength (x ++ s) := by
  cases x with
  | nil =>
    rw [Nat.le_zero.1 h]
    rfl
  | cons e x =>
    rw [List.cons_append] at h ⊢
    simp only [exponentLength] at h ⊢
    split
    · rename_i he
      rw [if_pos he] at h
      cases x with
      | nil =>
        -- the sign and the digits would not be in the text any more
        simp only [List.nil_append, List.length_cons, List.length_nil] at h ⊢
        split at h
        · rename_i hnone
          rw [if_pos hnone]
          rfl
        · omega
      | cons z x =>
        have hle := signLength_le (z :: x)
        rw [← signLength_of_append (by simp), List.drop_append_of_le_length hle] at h ⊢
        have hdigits : Text.leading Text.isDigit ((z :: x).drop (signLength (z :: x))) =
            Text.leading Text.isDigit ((z :: x).drop (signLength (z :: x)) ++ s) := by
          apply leading_of_append
          split at h
          · rename_i hnone
            rw [hnone]
            exact Nat.zero_le _
          · rw [List.length_drop]
            simp only [List.length_cons] at h hle ⊢
            omega
        rw [hdigits]
    · rfl

theorem decimalLength_of_append (h : decimalLength c (x ++ s) ≤ x.length) :
    decimalLength c x = decimalLength c (x ++ s) := by
  simp only [decimalLength] at h ⊢
  have hmantissa := mantissaLength_of_append (c := c) (x := x) (s := s) (by omega)
  rw [hmantissa]
  generalize mantissaLength c (x ++ s) = m at h ⊢
  rw [List.drop_append_of_le_length (by omega)] at h ⊢
  have hexponent := exponentLength_of_append (x := x.drop m) (s := s)
    (by rw [List.length_drop]; omega)
  rw [hexponent]
  generalize exponentLength (x.drop m ++ s) = k at h ⊢
  rw [List.drop_append_of_le_length (by omega)] at h ⊢
  rw [leading_of_append (x := x.drop (m + k)) (s := s) (by rw [List.length_drop]; omega)]

theorem hexLength?_of_append (h : ∀ n ∈ hexLength? c (x ++ s), n ≤ x.length) :
    hexLength? c x = hexLength? c (x ++ s) := by
  cases x with
  | nil =>
    -- a hexadecimal number has something behind its zero
    cases hhex : hexLength? c ([] ++ s) with
    | none => rfl
    | some n =>
      have hzero := h n hhex
      unfold hexLength? at hhex
      split at hhex
      · simp only [Option.ite_none_right_eq_some, Option.some.injEq] at hhex
        simp only [List.length_nil] at hzero
        omega
      · exact absurd hhex (by simp)
  | cons z x =>
    have hle := leading_le_leading_append isHexDigit x s
    simp only [hexLength?, List.cons_append] at h ⊢
    by_cases hhex : (c = '0' && (z = 'x' || z = 'X') &&
        0 < Text.leading isHexDigit (x ++ s)) = true
    · rw [if_pos hhex] at h
      have hn := h _ rfl
      rw [List.length_cons] at hn
      have hdigits := leading_of_append (p := isHexDigit) (x := x) (s := s) (by omega)
      rw [List.drop_append_of_le_length (by omega)] at hn
      rw [hdigits, List.drop_append_of_le_length (by omega),
        leading_of_append (x := x.drop (Text.leading isHexDigit (x ++ s))) (s := s)
          (by rw [List.length_drop]; omega)]
    · -- with fewer characters there is no hexadecimal number either
      rw [if_neg hhex, if_neg]
      intro hless
      apply hhex
      simp only [Bool.and_eq_true, decide_eq_true_eq] at hless ⊢
      exact ⟨hless.1, Nat.lt_of_lt_of_le hless.2 hle⟩

theorem numberLength_of_append (h : numberLength c (x ++ s) ≤ x.length) :
    numberLength c x = numberLength c (x ++ s) := by
  unfold numberLength at h ⊢
  have hhex : hexLength? c x = hexLength? c (x ++ s) := by
    apply hexLength?_of_append
    intro n hn
    rw [hn] at h
    exact h
  rw [hhex]
  cases hsome : hexLength? c (x ++ s) with
  | some n => rfl
  | none =>
    rw [hsome] at h
    exact decimalLength_of_append h

/-- The digit behind a point belongs to the number. -/
theorem numberLength_point_pos (h : s.head?.any Char.isDigit = true) : 0 < numberLength '.' s := by
  have hhex : hexLength? '.' s = none := by
    unfold hexLength?
    split
    · exact if_neg (by simp)
    · rfl
  have hdigit : 0 < Text.leading Text.isDigit s := by
    cases s with
    | nil => simp at h
    | cons z s =>
      have hz : Text.isDigit z = true := isDigit_of_ascii (by simpa using h)
      simp [Text.leading, hz]
  rw [numberLength, hhex, Option.getD_none]
  simp only [decimalLength, mantissaLength, if_true]
  omega

theorem startsNumber_of_append
    (h : startsNumber c (x ++ s) = true → numberLength c (x ++ s) ≤ x.length) :
    startsNumber c x = startsNumber c (x ++ s) := by
  cases x with
  | cons z x => rfl
  | nil =>
    rw [List.nil_append] at h ⊢
    by_cases hpoint : c = '.' ∧ s.head?.any Char.isDigit = true
    · -- a point is not the whole of a number
      rcases hpoint with ⟨rfl, hdigit⟩
      have hzero : numberLength '.' s ≤ 0 := h (by simp [startsNumber, hdigit])
      exact absurd (numberLength_point_pos hdigit) (Nat.not_lt_of_le hzero)
    · have hnone : (c = '.' && s.head?.any Char.isDigit) = false := by
        rw [Bool.eq_false_iff]
        simpa using hpoint
      simp [startsNumber, hnone]

/-! ## Symbols -/

/-- The first operator that fits is the first one that fits in a text cut short behind it. -/
theorem find?_isPrefixOf_of_append {ops : List Text} {t : Text}
    (h : ∀ op ∈ ops.find? (·.isPrefixOf (t ++ s)), op.length ≤ t.length) :
    ops.find? (·.isPrefixOf t) = ops.find? (·.isPrefixOf (t ++ s)) := by
  induction ops with
  | nil => rfl
  | cons op ops ih =>
    cases hfull : op.isPrefixOf (t ++ s) with
    | true =>
      simp only [List.find?_cons, hfull] at h ⊢
      have hop : op <+: t :=
        List.prefix_of_prefix_length_le (List.isPrefixOf_iff_prefix.1 hfull)
          (List.prefix_append t s) (h op rfl)
      rw [List.isPrefixOf_iff_prefix.2 hop]
    | false =>
      have hless : op.isPrefixOf t = false := by
        rw [Bool.eq_false_iff]
        intro hop
        have hmore := (List.isPrefixOf_iff_prefix.1 hop).trans (List.prefix_append t s)
        rw [List.isPrefixOf_iff_prefix.2 hmore] at hfull
        exact absurd hfull (by decide)
      simp only [List.find?_cons, hfull, hless] at h ⊢
      exact ih h

/-- Whether a colon is the first of two is seen in the text cut short behind the symbol. -/
theorem isDoubled_of_append (h : (scanSymbol c (x ++ s)).2 ≤ x.length) :
    (c = ':' && x.head? = some ':') = (c = ':' && (x ++ s).head? = some ':') := by
  cases x with
  | cons z x => rfl
  | nil =>
    by_cases hdouble : c = ':' ∧ s.head? = some ':'
    · rcases hdouble with ⟨rfl, hs⟩
      rcases List.head?_eq_some_iff.1 hs with ⟨more, rfl⟩
      have htwo : (scanSymbol ':' (':' :: more)).2 = 1 := rfl
      rw [List.nil_append, htwo] at h
      exact absurd h (by simp)
    · have hnone : (c = ':' && s.head? = some ':') = false := by
        rw [Bool.eq_false_iff]
        simpa using hdouble
      rw [List.nil_append, hnone]
      simp

theorem scanSymbol_of_append (h : (scanSymbol c (x ++ s)).2 ≤ x.length) :
    scanSymbol c x = scanSymbol c (x ++ s) := by
  have hdouble := isDoubled_of_append h
  unfold scanSymbol at h ⊢
  rw [hdouble]
  split
  · rfl
  · rename_i hmark
    rw [if_neg hmark] at h
    have hwithin : ∀ op ∈ operators.find? (·.isPrefixOf (c :: x ++ s)),
        op.length ≤ (c :: x).length := by
      intro op hop
      rw [← List.cons_append, hop] at h
      simp only [List.length_cons] at h ⊢
      omega
    rw [find?_isPrefixOf_of_append hwithin]
    rfl

/-! ## Lexemes -/

theorem scanPlain_of_append (h : (scanPlain d c (x ++ s)).2 ≤ x.length) :
    scanPlain d c x = scanPlain d c (x ++ s) := by
  have hstarts : startsNumber c x = startsNumber c (x ++ s) := by
    apply startsNumber_of_append
    intro hnumber
    rwa [scanPlain, if_pos hnumber] at h
  unfold scanPlain at h ⊢
  rw [hstarts]
  split
  · rename_i hnumber
    rw [if_pos hnumber] at h
    rw [numberLength_of_append h]
  · rename_i hnumber
    rw [if_neg hnumber] at h
    split
    · rename_i hname
      rw [if_pos hname] at h
      rw [leading_of_append h, List.take_append_of_le_length h]
    · rename_i hname
      rw [if_neg hname] at h
      exact scanSymbol_of_append h

theorem StartsPlain.of_append (h : StartsPlain b c (x ++ s)) : StartsPlain b c x := by
  have hfollow {z : Char} (hz : (c = '/' && (x ++ s).head? = some z) = false) :
      (c = '/' && x.head? = some z) = false := by
    rw [Bool.and_eq_false_iff] at hz ⊢
    refine hz.imp id ?_
    intro hhead
    rw [decide_eq_false_iff_not] at hhead ⊢
    exact fun hx => hhead (head?_of_append hx)
  exact ⟨h.notPad, h.notBreak, h.notDirective, hfollow h.notLineComment, hfollow h.notBlockComment,
    h.notQuote⟩

theorem Reads.plain_of_append {l : Lexeme} {v : Text} (h : Reads d b l (v ++ s))
    (hk : l.kind.isPlain = true) : Reads d b l v := by
  rcases h.cut with ⟨c, u, rest, n, k, htext, hrest, hn, hkind, hcut⟩
  rw [hkind] at hk
  cases hcut with
  | plain hc hplain =>
    rw [← hrest, ← List.append_assoc] at hc hplain
    have hwithin : (scanPlain d c (u ++ v ++ s)).2 ≤ (u ++ v).length := by
      rw [hplain, ← hn, List.length_append]
      exact Nat.le_add_right _ _
    refine ⟨c, u, htext, ?_⟩
    rw [scan_of_startsPlain hc.of_append, scanPlain_of_append hwithin, hplain, hn, hkind]
  | _ => simp [TokenKind.isPlain] at hk

/-- A directive ends in front of a text that is cut short, unless the cut goes through the slashes of a
line comment. -/
theorem Reads.directive_of_append {name y v : Text} (h : Reads d b ⟨.directive name, y⟩ (v ++ s))
    (hcut : ∀ w more, (∀ c ∈ w, Text.isPad c = true) → v ++ s = w ++ '/' :: '/' :: more →
      v.length ≠ w.length + 1) : Reads d b ⟨.directive name, y⟩ v := by
  rcases h.exists_hash with ⟨-, y, rfl⟩
  rcases exists_pads v with ⟨w, r, rfl, hw, hr⟩
  have hhead (z : Char) (hz : (w ++ r).head? = some z) : (w ++ r ++ s).head? = some z :=
    head?_of_append hz
  cases r with
  | nil =>
    -- only pads are left, and a directive may end behind them
    rcases exists_pads s with ⟨w', r', rfl, hw', hr'⟩
    have hpads : ∀ c ∈ w ++ w', Text.isPad c = true := by
      intro c hc
      exact (List.mem_append.1 hc).elim (hw c) (hw' c)
    rw [List.append_nil] at hhead h ⊢
    rw [← List.append_assoc] at hhead h
    rcases (reads_directive_iff hpads hr').1 h with ⟨hb, hname, hlast, -, i, e, hpasses, -, -⟩
    have hread : Reads d b ⟨.directive name, '#' :: y⟩ (w ++ []) := by
      refine (reads_directive_iff hw hr).2 ⟨hb, hname, hlast, .inl rfl, i, e, ?_, ?_, ?_⟩
      · rw [List.append_nil]
        exact hpasses.congr (hhead '/') (hhead '*') (hhead '\n')
      · rintro ⟨-, -, c, more, hnil, -⟩
        exact absurd hnil (by simp)
      · rintro ⟨-, more, hnil⟩
        exact absurd hnil (by simp)
    rwa [List.append_nil] at hread
  | cons c r =>
    have hsplit : w ++ c :: r ++ s = w ++ (c :: (r ++ s)) := by simp
    have hr' : ∀ z ∈ (c :: (r ++ s)).head?, Text.isPad z = false := hr
    have hends : EndsDirective (c :: r) := by
      rw [hsplit] at h
      rcases ((reads_directive_iff hw hr').1 h).2.2.2.1 with hnil | ⟨z, more, hz, hbreak⟩ | ⟨more, hz⟩
      · exact absurd hnil (by simp)
      · rw [List.cons.injEq] at hz
        exact .inr (.inl ⟨c, r, rfl, hz.1 ▸ hbreak⟩)
      · -- both slashes are still there
        rw [List.cons.injEq] at hz
        rcases hz with ⟨rfl, hz⟩
        cases r with
        | nil =>
          rw [List.nil_append] at hz
          exact absurd (by simp) (hcut w more hw (by rw [hsplit, hz, List.nil_append]))
        | cons z r =>
          rw [List.cons_append, List.cons.injEq] at hz
          exact .inr (.inr ⟨r, by rw [hz.1]⟩)
    rw [hsplit] at h hhead
    rcases (reads_directive_iff hw hr').1 h with
      ⟨hb, hname, hlast, -, i, e, hpasses, hbreak, hcomment⟩
    refine (reads_directive_iff hw hr).2 ⟨hb, hname, hlast, hends, i, e,
      hpasses.congr (hhead '/') (hhead '*') (hhead '\n'), ?_, ?_⟩
    · rintro ⟨he, hnil, z, more, hz, hc⟩
      rw [List.cons.injEq] at hz
      exact hbreak ⟨he, hnil, c, r ++ s, rfl, hz.1 ▸ hc⟩
    · rintro ⟨hi, more, hz⟩
      rw [List.cons.injEq] at hz
      exact hcomment ⟨hi, more ++ s, by rw [hz.1, hz.2]; rfl⟩

/-- What is read in front of a text is also read in front of its beginning. -/
theorem Reads.of_append {l : Lexeme} {v : Text} (h : Reads d b l (v ++ s))
    (hcut : ∀ w more, (∀ c ∈ w, Text.isPad c = true) → v ++ s = w ++ '/' :: '/' :: more →
      v.length ≠ w.length + 1) : Reads d b l v := by
  have hhead {z : Char} (hz : v.head? = some z) : (v ++ s).head? = some z := head?_of_append hz
  obtain ⟨kind, text⟩ := l
  cases kind with
  | whitespace =>
    rw [reads_whitespace_iff] at h ⊢
    exact ⟨h.1, h.2.1, fun c hc => h.2.2 c (hhead hc)⟩
  | lineBreak =>
    rw [reads_lineBreak_iff] at h ⊢
    exact ⟨h.1, fun hcr hlf => h.2 hcr (hhead hlf)⟩
  | lineComment doc =>
    rw [reads_lineComment_iff] at h ⊢
    exact ⟨h.1, h.2.1, fun c hc => h.2.2 c (hhead hc)⟩
  | blockComment doc =>
    rw [reads_blockComment_iff] at h ⊢
    exact h
  | string => exact h.of_string v
  | directive name => exact h.directive_of_append hcut
  | eof => exact absurd rfl h.kind_ne_eof
  | word cls => exact h.plain_of_append rfl
  | punctuation => exact h.plain_of_append rfl
  | operator => exact h.plain_of_append rfl
  | number => exact h.plain_of_append rfl

end ShaderStyle.Lexer
