import ShaderStyle.Proofs.Text.LineEnding
import ShaderStyle.Proofs.Token.Locality

/-!
# What may follow a lexeme

For each kind of lexeme other than a directive: in front of which texts the scanner cuts it off. A
lexeme that was read somewhere is then read at another place, if what follows it there fits its kind.
-/

namespace ShaderStyle.Lexer

/-! ## Layout -/

theorem leading_append_eq_iff {p : Char → Bool} {u t : Text} :
    Text.leading p (u ++ t) = u.length ↔ (∀ c ∈ u, p c = true) ∧ ∀ c ∈ t.head?, p c = false := by
  unfold Text.leading
  induction u with
  | nil =>
    cases t with
    | nil => simp
    | cons c t => by_cases hc : p c = true <;> simp [hc]
  | cons c u ih =>
    by_cases hc : p c = true
    · simp [hc, ih]
    · simp [hc]

theorem reads_whitespace_iff {d : Dialect} {b : Bool} {w t : Text} :
    Reads d b ⟨.whitespace, w⟩ t ↔
      w ≠ [] ∧ (∀ c ∈ w, Text.isPad c = true) ∧ ∀ c ∈ t.head?, Text.isPad c = false := by
  constructor
  · intro h
    obtain ⟨c, u, rest, n, k, rfl, hr, hn, hk, hcut⟩ := h.cut
    cases hcut with
    | whitespace hc =>
      rw [← hr] at hn
      have hu := leading_append_eq_iff.1 hn.symm
      exact ⟨by simp, by simpa [hc] using hu.1, hu.2⟩
    | plain _ hrest =>
      have := isPlain_of_scanPlain hrest
      simp [← hk, TokenKind.isPlain] at this
    | _ => simp at hk
  · rintro ⟨hw, hpads, hnext⟩
    obtain ⟨c, u, rfl⟩ := List.exists_cons_of_ne_nil hw
    have hc : Text.isPad c = true := hpads c (by simp)
    have hu : Text.leading Text.isPad (u ++ t) = u.length :=
      leading_append_eq_iff.2 ⟨fun x hx => hpads x (by simp [hx]), hnext⟩
    exact ⟨c, u, rfl, by simp [scan, hc, hu]⟩

theorem breakLength_cr {t : Text} (h : t.head? ≠ some '\n') : Text.breakLength ('\r' :: t) = 1 := by
  cases t with
  | nil => rfl
  | cons x t =>
    have hx : x ≠ '\n' := by simpa using h
    simp [Text.breakLength, hx]

theorem reads_lineBreak_iff {d : Dialect} {b : Bool} {e t : Text} :
    Reads d b ⟨.lineBreak, e⟩ t ↔ Text.IsBreakText e ∧ (e = ['\r'] → t.head? ≠ some '\n') := by
  constructor
  · intro h
    obtain ⟨c, u, rest, n, k, rfl, hr, hn, hk, hcut⟩ := h.cut
    cases hcut with
    | lineBreak hc =>
      rw [← hr] at hn
      simp only [Text.isBreak, Bool.or_eq_true, decide_eq_true_eq] at hc
      rcases hc with rfl | rfl
      · by_cases hlf : (u ++ t).head? = some '\n'
        · obtain ⟨more, hmore⟩ := List.head?_eq_some_iff.1 hlf
          rw [hmore] at hn
          simp only [Text.breakLength] at hn
          obtain ⟨x, rfl⟩ := List.length_eq_one_iff.1 hn
          simp only [List.cons_append, List.nil_append, List.cons.injEq] at hmore
          rw [hmore.1]
          exact ⟨.inr (.inl rfl), by simp⟩
        · rw [breakLength_cr hlf, Nat.sub_self, List.length_eq_zero_iff] at hn
          subst hn
          exact ⟨.inr (.inr rfl), fun _ => hlf⟩
      · simp only [Text.breakLength, Nat.sub_self, List.length_eq_zero_iff] at hn
        subst hn
        exact ⟨.inl rfl, by simp⟩
    | plain _ hrest =>
      have := isPlain_of_scanPlain hrest
      simp [← hk, TokenKind.isPlain] at this
    | _ => simp at hk
  · rintro ⟨rfl | rfl | rfl, hnext⟩
    · exact ⟨'\n', [], rfl, by simp [scan, Text.isPad, Text.isBreak, Text.breakLength]⟩
    · exact ⟨'\r', ['\n'], rfl, by simp [scan, Text.isPad, Text.isBreak, Text.breakLength]⟩
    · exact ⟨'\r', [], rfl, by
        simp [scan, Text.isPad, Text.isBreak, breakLength_cr (hnext rfl)]⟩

/-! ## Literals and comments -/

theorem literalLength_ne_zero {quote : Char} {t : Text} : literalLength quote t ≠ some 0 := by
  fun_cases literalLength quote t <;> simp

/-- A literal ends with its closing quote, whatever follows. -/
theorem literalLength_take_append {quote : Char} (hquote : quote ≠ '\\') {x : Text} {n : Nat}
    (s : Text) (h : literalLength quote x = some n) :
    literalLength quote (x.take n ++ s) = some n := by
  fun_induction literalLength quote x generalizing n with
  | case1 => simp at h
  | case2 rest ih =>
    obtain ⟨m, hm, rfl⟩ := Option.map_eq_some_iff.1 h
    simp [Nat.add_comm 3 m, literalLength, ih hm]
  | case3 c rest hne ih =>
    obtain ⟨m, hm, rfl⟩ := Option.map_eq_some_iff.1 h
    rw [Nat.add_comm 2 m, List.take_succ_cons, List.take_succ_cons, List.cons_append,
      List.cons_append, literalLength.eq_3, ih hm]
    · simp [Nat.add_comm]
    · -- the rest is not empty, so its first character is still there
      intro more hc hrest
      match rest, m, hm with
      | [], _, hm => simp [literalLength] at hm
      | _ :: _, 0, hm => exact literalLength_ne_zero hm
      | y :: rest, m + 1, hm =>
        simp only [List.take_succ_cons, List.cons_append, List.cons.injEq] at hrest
        exact hne rest hc (by rw [hrest.1])
  | case4 rest h1 h2 =>
    simp only [Option.some.injEq] at h
    subst h
    have hne : ∀ more, quote = '\\' → s = '\r' :: '\n' :: more → False := by
      intro _ hq
      exact absurd hq hquote
    have hne' : ∀ x more, quote = '\\' → s = x :: more → False := by
      intro _ _ hq
      exact absurd hq hquote
    simp [literalLength.eq_4 _ _ _ hne hne']
  | case5 => simp at h
  | case6 c rest h1 h2 hq hb ih =>
    obtain ⟨m, hm, rfl⟩ := Option.map_eq_some_iff.1 h
    have hc : c ≠ '\\' := by
      rintro rfl
      cases rest with
      | nil => simp [literalLength] at hm
      | cons y rest => exact h2 y rest rfl rfl
    have hne : ∀ more, c = '\\' → rest.take m ++ s = '\r' :: '\n' :: more → False := by
      intro _ hc'
      exact absurd hc' hc
    have hne' : ∀ x more, c = '\\' → rest.take m ++ s = x :: more → False := by
      intro _ _ hc'
      exact absurd hc' hc
    rw [Nat.add_comm 1 m, List.take_succ_cons, List.cons_append,
      literalLength.eq_4 _ _ _ hne hne', if_neg hq, if_neg hb, ih hm]
    simp [Nat.add_comm]

theorem commentLength_ne_zero {t : Text} : commentLength t ≠ some 0 := by
  fun_cases commentLength t <;> simp

/-- A block comment ends with its closing delimiter, whatever follows. -/
theorem commentLength_take_append {x : Text} {n : Nat} (s : Text)
    (h : commentLength x = some n) : commentLength (x.take n ++ s) = some n := by
  fun_induction commentLength x generalizing n with
  | case1 => simp at h
  | case2 =>
    simp only [Option.some.injEq] at h
    subst h
    simp [commentLength]
  | case3 c rest hne ih =>
    obtain ⟨m, hm, rfl⟩ := Option.map_eq_some_iff.1 h
    rw [Nat.add_comm 1 m, List.take_succ_cons, List.cons_append, commentLength.eq_3, ih hm]
    · simp [Nat.add_comm]
    · intro more hc hrest
      match rest, m, hm with
      | [], _, hm => simp [commentLength] at hm
      | _ :: _, 0, hm => exact commentLength_ne_zero hm
      | y :: rest, m + 1, hm =>
        simp only [List.take_succ_cons, List.cons_append, List.cons.injEq] at hrest
        exact hne rest hc (by rw [hrest.1])

theorem Reads.of_string {d : Dialect} {b b' : Bool} {x t : Text} (t' : Text)
    (h : Reads d b ⟨.string, x⟩ t) : Reads d b' ⟨.string, x⟩ t' := by
  obtain ⟨c, u, rest, n, k, rfl, hr, hn, hk, hcut⟩ := h.cut
  cases hcut with
  | literal hc hlen =>
    have hne : c ≠ '\\' := by rcases hc with rfl | rfl <;> decide
    have hu := literalLength_take_append hne t' hlen
    rw [← hr, ← hn, List.take_left] at hu
    refine ⟨c, u, rfl, ?_⟩
    rcases hc with rfl | rfl <;>
      simp [scan, scanLiteral, Text.isPad, Text.isBreak, hu]
  | plain _ hrest =>
    have := isPlain_of_scanPlain hrest
    simp [← hk, TokenKind.isPlain] at this
  | _ => simp at hk

theorem reads_blockComment_iff {d : Dialect} {b : Bool} {doc : Bool} {x t : Text} :
    Reads d b ⟨.blockComment doc, x⟩ t ↔
      doc = isDocBlock x ∧
        ∃ body, x = '/' :: '*' :: body ∧ commentLength body = some body.length := by
  constructor
  · intro h
    obtain ⟨c, u, rest, n, k, rfl, hr, hn, hk, hcut⟩ := h.cut
    cases hcut with
    | blockComment hlen =>
      rename_i body m
      obtain ⟨v, rfl⟩ : ∃ v, u = '*' :: v := by
        cases u with
        | nil => simp only [List.length_nil] at hn; omega
        | cons y v =>
          simp only [List.cons_append, List.cons.injEq] at hr
          exact ⟨v, by rw [hr.1]⟩
      obtain rfl : m = v.length := by simp only [List.length_cons] at hn; omega
      obtain rfl : v ++ t = body := by simpa using hr
      have hv := commentLength_take_append [] hlen
      simp only [List.take_left, List.append_nil] at hv
      simp only [List.take_left, TokenKind.blockComment.injEq] at hk
      exact ⟨hk, v, rfl, hv⟩
    | plain _ hrest =>
      have := isPlain_of_scanPlain hrest
      simp [← hk, TokenKind.isPlain] at this
    | _ => simp at hk
  · rintro ⟨rfl, body, rfl, hlen⟩
    have hbody := commentLength_take_append t hlen
    rw [List.take_length] at hbody
    refine ⟨'/', '*' :: body, rfl, ?_⟩
    simp [scan, scanBlockComment, Text.isPad, Text.isBreak, hbody, Nat.add_comm]

theorem reads_lineComment_iff {d : Dialect} {b : Bool} {doc : Bool} {x t : Text} :
    Reads d b ⟨.lineComment doc, x⟩ t ↔
      doc = isDocLine x ∧ (∃ y, x = '/' :: '/' :: y ∧ ∀ c ∈ y, Text.isBreak c = false) ∧
        ∀ c ∈ t.head?, Text.isBreak c = true := by
  constructor
  · intro h
    obtain ⟨c, u, rest, n, k, rfl, hr, hn, hk, hcut⟩ := h.cut
    cases hcut with
    | lineComment hrest =>
      simp only [scanLineComment, Prod.mk.injEq, TokenKind.lineComment.injEq] at hrest
      obtain ⟨hdoc, hlen⟩ := hrest
      rw [← hr, ← hn] at hlen
      have hu := leading_append_eq_iff.1 hlen
      obtain ⟨v, rfl⟩ : ∃ v, u = '/' :: v := by
        cases u with
        | nil =>
          rw [List.nil_append] at hr
          have := hu.2 '/' (by simp [hr])
          simp [Text.isBreak] at this
        | cons y v =>
          simp only [List.cons_append, List.cons.injEq] at hr
          exact ⟨v, by rw [hr.1]⟩
      rw [← hr, hlen, List.take_left] at hdoc
      simp only [TokenKind.lineComment.injEq] at hk
      refine ⟨hk.trans hdoc.symm, ⟨v, rfl, ?_⟩, ?_⟩
      · intro c hc
        simpa using hu.1 c (by simp [hc])
      · intro c hc
        simpa using hu.2 c hc
    | plain _ hrest =>
      have := isPlain_of_scanPlain hrest
      simp [← hk, TokenKind.isPlain] at this
    | _ => simp at hk
  · rintro ⟨rfl, ⟨y, rfl, hy⟩, ht⟩
    have hlen : Text.leading (fun c => !Text.isBreak c) (('/' :: y) ++ t) = ('/' :: y).length := by
      refine leading_append_eq_iff.2 ⟨?_, ?_⟩
      · intro c hc
        rcases List.mem_cons.1 hc with rfl | hc
        · decide
        · simp [hy c hc]
      · intro c hc
        simp [ht c hc]
    refine ⟨'/', '/' :: y, rfl, ?_⟩
    have hpad : Text.isPad '/' = false := by decide
    have hbreak : Text.isBreak '/' = false := by decide
    rw [List.cons_append, List.length_cons] at hlen
    simp [scan, scanLineComment, hpad, hbreak, hlen]

/-- A lexeme that starts where two slashes stand is a line comment. -/
theorem lineComment_of_slashes {d : Dialect} {b : Bool} {l : Lexeme} {t more : Text} (h : Reads d b l t)
    (hl : l.text ++ t = '/' :: '/' :: more) :
    ∃ doc y, l.kind = .lineComment doc ∧ l.text = '/' :: '/' :: y := by
  have hcopy := h
  obtain ⟨c, u, rest, n, k, htext, hrest, -, hk, hcut⟩ := h.cut
  rw [htext, List.cons_append, List.cons.injEq, hrest] at hl
  obtain ⟨rfl, hrest'⟩ := hl
  cases hcut with
  | whitespace hc => simp [Text.isPad] at hc
  | lineBreak hc => simp [Text.isBreak] at hc
  | lineComment _ =>
    rename_i doc _
    have hl' : l = ⟨.lineComment doc, l.text⟩ := by rw [← hk]
    rw [hl'] at hcopy
    obtain ⟨-, ⟨y, hy, -⟩, -⟩ := reads_lineComment_iff.1 hcopy
    exact ⟨doc, y, hk, hy⟩
  | blockComment _ => simp at hrest'
  | literal hc _ => simp at hc
  | plain hc _ =>
    have := hc.notLineComment
    simp [hrest'] at this

/-! ## Plain lexemes -/

/-- The texts agree up to a place where both are at their end or at a character that ends a plain
lexeme. -/
def Alike (t t' : Text) : Prop :=
  ∃ u s s', t = u ++ s ∧ t' = u ++ s' ∧ Stops s ∧ Stops s'

theorem Alike.of_stops {t t' : Text} (h : Stops t) (h' : Stops t') : Alike t t' :=
  ⟨[], t, t', rfl, rfl, h, h'⟩

theorem Alike.append_left {t t' : Text} (x : Text) (h : Alike t t') : Alike (x ++ t) (x ++ t') := by
  obtain ⟨u, s, s', rfl, rfl, hs, hs'⟩ := h
  exact ⟨x ++ u, s, s', by simp, by simp, hs, hs'⟩

/-- A plain lexeme is read alike in front of alike texts. -/
theorem Reads.of_alike {d : Dialect} {b : Bool} {l : Lexeme} {t t' : Text} (h : Reads d b l t)
    (hk : l.kind.isPlain = true) (ht : Alike t t') : Reads d b l t' := by
  obtain ⟨c, x, rest, n, k, hl, hr, hn, hkind, hcut⟩ := h.cut
  obtain ⟨u, s, s', rfl, rfl, hs, hs'⟩ := ht
  rw [hkind] at hk
  cases hcut with
  | plain hc hrest =>
    rw [← hr, ← List.append_assoc] at hc hrest
    rw [startsPlain_append_stop _ _ _ hs] at hc
    rw [scanPlain_append_stop _ _ _ hs] at hrest
    refine ⟨c, x, hl, ?_⟩
    rw [← List.append_assoc, scan_of_startsPlain ((startsPlain_append_stop _ _ _ hs').2 hc),
      scanPlain_append_stop _ _ _ hs', hrest, hn, hkind]
  | _ => simp [TokenKind.isPlain] at hk

/-- A bracket is read in front of any text. -/
theorem reads_bracket (d : Dialect) (b : Bool) {c : Char} (hc : c ∈ ['(', ')', '[', ']', '{', '}'])
    (t : Text) : Reads d b ⟨.punctuation, [c]⟩ t := by
  refine ⟨c, [], rfl, ?_⟩
  simp only [List.mem_cons, List.not_mem_nil, or_false] at hc
  rcases hc with rfl | rfl | rfl | rfl | rfl | rfl <;> rfl

end ShaderStyle.Lexer
