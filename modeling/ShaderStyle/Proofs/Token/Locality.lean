import ShaderStyle.Proofs.Token.Reading

/-!
# How far the scanner looks

A word, a number, a mark or an operator ends at a blank, a line break or a bracket, and the scanner
does not look beyond these. So such a lexeme is read alike in front of two texts that agree up to
the first of these characters (`Alike`). A bracket is read alike in front of any text, and so is a
literal or a block comment; a line comment has to stand before a line break or the end.
-/

namespace ShaderStyle

/-- Words, numbers, marks and operators: what is delimited by what stands behind it. -/
def TokenKind.isPlain : TokenKind → Bool
  | .word _ | .punctuation | .operator | .number => true
  | _ => false

namespace Lexer

/-! ## Characters that end a plain lexeme -/

/-- Blanks, line breaks and brackets. -/
def stopChars : Text :=
  [' ', '\t', '\x0c', '\x0b', '\r', '\n', '(', ')', '[', ']', '{', '}']

/-- The text is empty or starts with a character that ends a plain lexeme. -/
def Stops (t : Text) : Prop :=
  ∀ c ∈ t.head?, c ∈ stopChars

@[simp] theorem stops_nil : Stops [] := by simp [Stops]

@[simp] theorem stops_cons (c : Char) (t : Text) : Stops (c :: t) ↔ c ∈ stopChars := by
  simp [Stops]

theorem mem_stopChars_of_isPad {c : Char} (h : Text.isPad c = true) : c ∈ stopChars := by
  simp only [Text.isPad, Bool.or_eq_true, decide_eq_true_eq] at h
  rcases h with ((rfl | rfl) | rfl) | rfl <;> decide

theorem mem_stopChars_of_isBreak {c : Char} (h : Text.isBreak c = true) : c ∈ stopChars := by
  simp only [Text.isBreak, Bool.or_eq_true, decide_eq_true_eq] at h
  rcases h with rfl | rfl <;> decide

theorem eq_false_of_stops {p : Char → Bool} (hp : stopChars.all (fun c => !p c) = true) {c : Char}
    {s : Text} (hs : Stops (c :: s)) : p c = false := by
  have hc := List.all_eq_true.1 hp c ((stops_cons c s).1 hs)
  simpa using hc

theorem leading_append_stop {p : Char → Bool} (hp : stopChars.all (fun c => !p c) = true) (u : Text)
    {s : Text} (hs : Stops s) : Text.leading p (u ++ s) = Text.leading p u := by
  unfold Text.leading
  induction u with
  | nil =>
    cases s with
    | nil => rfl
    | cons c s => simp [eq_false_of_stops hp hs]
  | cons c u ih =>
    by_cases hc : p c = true
    · simpa [hc] using ih
    · simp [hc]

theorem head?_append_stop {x : Char} (hx : x ∉ stopChars) (u : Text) {s : Text} (hs : Stops s) :
    ((u ++ s).head? = some x) = (u.head? = some x) := by
  cases u with
  | nil =>
    cases s with
    | nil => rfl
    | cons c s =>
      have hc : c ∈ stopChars := by simpa using hs
      have hne : c ≠ x := by rintro rfl; exact hx hc
      simp [hne]
  | cons c u => simp

theorem isPrefixOf_append_stop {op : Text} (hop : ∀ c ∈ op, c ∉ stopChars) (u : Text) {s : Text}
    (hs : Stops s) : op.isPrefixOf (u ++ s) = op.isPrefixOf u := by
  induction op generalizing u with
  | nil => simp
  | cons a op ih =>
    have ha : a ∉ stopChars := hop a (by simp)
    cases u with
    | nil =>
      cases s with
      | nil => rfl
      | cons c s =>
        have hc : c ∈ stopChars := by simpa using hs
        have hne : a ≠ c := by rintro rfl; exact ha hc
        simp [List.isPrefixOf, hne]
    | cons c u =>
      have := ih (fun c hc => hop c (by simp [hc])) u
      simp [List.isPrefixOf, this]

/-! ## Numbers and symbols -/

theorem isDigit_stop : stopChars.all (fun c => !Text.isDigit c) = true := by decide

theorem signLength_append_stop (u : Text) {s : Text} (hs : Stops s) :
    signLength (u ++ s) = signLength u := by
  cases u with
  | nil =>
    rw [List.nil_append]
    fun_cases signLength s with
    | case1 => simp [stopChars] at hs
    | case2 => simp [stopChars] at hs
    | case3 => rfl
  | cons c u =>
    by_cases hplus : c = '+'
    · simp [signLength, hplus]
    · by_cases hminus : c = '-'
      · simp [signLength, hminus]
      · simp [signLength, hplus, hminus]

theorem signLength_le (t : Text) : signLength t ≤ t.length := by
  fun_cases signLength t <;> simp

theorem exponentLength_append_stop (u : Text) {s : Text} (hs : Stops s) :
    exponentLength (u ++ s) = exponentLength u := by
  cases u with
  | nil =>
    cases s with
    | nil => rfl
    | cons c s =>
      have hc : (c = 'e' || c = 'E') = false :=
        eq_false_of_stops (p := fun c => c = 'e' || c = 'E') (by decide) hs
      simp [exponentLength, hc]
  | cons e u =>
    simp only [exponentLength, List.cons_append]
    rw [signLength_append_stop u hs, List.drop_append_of_le_length (signLength_le u),
      leading_append_stop isDigit_stop _ hs]

theorem mantissaLength_append_stop (c : Char) (u : Text) {s : Text} (hs : Stops s) :
    mantissaLength c (u ++ s) = mantissaLength c u := by
  have hwhole := leading_append_stop isDigit_stop u hs
  have hle := Text.leading_le Text.isDigit u
  simp only [mantissaLength, hwhole]
  split
  · rfl
  · rw [List.drop_append_of_le_length hle]
    generalize u.drop (Text.leading Text.isDigit u) = v
    cases v with
    | nil =>
      cases s with
      | nil => rfl
      | cons x s =>
        have hx : x ≠ '.' := by
          rintro rfl
          simp [stopChars] at hs
        simp [hx]
    | cons x v =>
      by_cases hx : x = '.'
      · subst hx
        simp [leading_append_stop isDigit_stop v hs]
      · simp [hx]

theorem numberLength_append_stop (c : Char) (u : Text) {s : Text} (hs : Stops s) :
    numberLength c (u ++ s) = numberLength c u := by
  have hdecimal : decimalLength c (u ++ s) = decimalLength c u := by
    have h1 := mantissaLength_le c u
    have h2 := exponentLength_le (u.drop (mantissaLength c u))
    rw [List.length_drop] at h2
    simp only [decimalLength, mantissaLength_append_stop c u hs]
    rw [List.drop_append_of_le_length h1, exponentLength_append_stop _ hs,
      List.drop_append_of_le_length (by omega), leading_append_stop (by decide) _ hs]
  have hhex : hexLength? c (u ++ s) = hexLength? c u := by
    cases u with
    | nil =>
      cases s with
      | nil => rfl
      | cons x s =>
        have hx : (x = 'x' || x = 'X') = false :=
          eq_false_of_stops (p := fun x => x = 'x' || x = 'X') (by decide) hs
        simp [hexLength?, hx]
    | cons x u =>
      have hle := Text.leading_le isHexDigit u
      simp only [hexLength?, List.cons_append]
      rw [leading_append_stop (by decide) u hs, List.drop_append_of_le_length hle,
        leading_append_stop (by decide) _ hs]
  simp [numberLength, hdecimal, hhex]

theorem startsNumber_append_stop (c : Char) (u : Text) {s : Text} (hs : Stops s) :
    startsNumber c (u ++ s) = startsNumber c u := by
  unfold startsNumber
  cases u with
  | nil =>
    cases s with
    | nil => rfl
    | cons x s =>
      have hx : x.isDigit = false := eq_false_of_stops (by decide) hs
      simp [hx]
  | cons x u => simp

theorem scanSymbol_append_stop (c : Char) (u : Text) {s : Text} (hs : Stops s) :
    scanSymbol c (u ++ s) = scanSymbol c u := by
  have hops : (operators.all fun op => op.all fun c => !stopChars.contains c) = true := by decide
  have hfind : operators.find? (·.isPrefixOf (c :: (u ++ s))) =
      operators.find? (·.isPrefixOf (c :: u)) := by
    rw [← List.head?_filter, ← List.head?_filter]
    congr 1
    apply List.filter_congr
    intro op hop
    refine isPrefixOf_append_stop ?_ (c :: u) hs
    intro z hz
    have := List.all_eq_true.1 (List.all_eq_true.1 hops op hop) z hz
    simpa using this
  unfold scanSymbol
  rw [hfind]
  simp only [head?_append_stop (x := ':') (by decide) u hs]

/-! ## What the scanner cuts off -/

/-- A number, a word, a mark or an operator. -/
def scanPlain (d : Dialect) (c : Char) (rest : Text) : TokenKind × Nat :=
  if startsNumber c rest then (.number, numberLength c rest)
  else if Text.isNameStart c then
    (.word (d.classify (c :: rest.take (Text.leading Text.isNameChar rest))),
      Text.leading Text.isNameChar rest)
  else scanSymbol c rest

/-- Nothing but a plain lexeme starts with `c` in front of `rest`. -/
structure StartsPlain (lineStart : Bool) (c : Char) (rest : Text) : Prop where
  notPad : Text.isPad c = false
  notBreak : Text.isBreak c = false
  notDirective : (c = '#' && lineStart) = false
  notLineComment : (c = '/' && rest.head? = some '/') = false
  notBlockComment : (c = '/' && rest.head? = some '*') = false
  notQuote : (c = '"' || c = '\'') = false

/-- The ways in which the scanner cuts off a lexeme that starts with `c`: its kind, and the number of
characters it has after `c`. -/
inductive Cut (d : Dialect) (lineStart : Bool) : Char → Text → TokenKind → Nat → Prop
  | whitespace {c : Char} {rest : Text} (hc : Text.isPad c = true) :
      Cut d lineStart c rest .whitespace (Text.leading Text.isPad rest)
  | lineBreak {c : Char} {rest : Text} (hc : Text.isBreak c = true) :
      Cut d lineStart c rest .lineBreak (Text.breakLength (c :: rest) - 1)
  | directive {rest : Text} {n : Nat} (hstart : lineStart = true)
      (hlen : directiveLength rest = .ok n) :
      Cut d lineStart '#' rest (.directive (directiveName rest)) (Text.trimPads (rest.take n)).length
  | lineComment {rest : Text} {doc : Bool} {n : Nat}
      (hrest : scanLineComment ('/' :: rest) = (.lineComment doc, n)) :
      Cut d lineStart '/' ('/' :: rest) (.lineComment doc) n
  | blockComment {body : Text} {n : Nat} (hlen : commentLength body = some n) :
      Cut d lineStart '/' ('*' :: body) (.blockComment (isDocBlock ('/' :: '*' :: body.take n)))
        (1 + n)
  | literal {c : Char} {rest : Text} {n : Nat} (hc : c = '"' ∨ c = '\'')
      (hlen : literalLength c rest = some n) : Cut d lineStart c rest .string n
  | plain {c : Char} {rest : Text} {k : TokenKind} {n : Nat} (hc : StartsPlain lineStart c rest)
      (hrest : scanPlain d c rest = (k, n)) : Cut d lineStart c rest k n

theorem isPlain_of_scanPlain {d : Dialect} {c : Char} {rest : Text} {k : TokenKind} {n : Nat}
    (h : scanPlain d c rest = (k, n)) : k.isPlain = true := by
  have hsymbol : (scanSymbol c rest).1.isPlain = true := by
    unfold scanSymbol
    split
    · rfl
    · split <;> rfl
  unfold scanPlain at h
  split at h
  · obtain ⟨rfl, -⟩ := Prod.mk.inj h
    rfl
  · split at h
    · obtain ⟨rfl, -⟩ := Prod.mk.inj h
      rfl
    · rw [h] at hsymbol
      exact hsymbol

theorem scan_of_startsPlain {d : Dialect} {b : Bool} {c : Char} {rest : Text}
    (h : StartsPlain b c rest) : scan d b c rest = .ok (scanPlain d c rest) := by
  unfold scan scanPlain
  simp only [h.notPad, h.notBreak, h.notDirective, h.notLineComment, h.notBlockComment, h.notQuote,
    Bool.false_eq_true, if_false]
  split
  · rfl
  · split <;> rfl

theorem cut_of_scan {d : Dialect} {b : Bool} {c : Char} {rest : Text} {k : TokenKind} {n : Nat}
    (h : scan d b c rest = .ok (k, n)) : Cut d b c rest k n := by
  by_cases hpad : Text.isPad c = true
  · simp only [scan, hpad, if_true, Except.ok.injEq, Prod.mk.injEq] at h
    obtain ⟨rfl, rfl⟩ := h
    exact .whitespace hpad
  by_cases hbreak : Text.isBreak c = true
  · simp only [scan, hpad, hbreak, if_true, Bool.false_eq_true, if_false, Except.ok.injEq,
      Prod.mk.injEq] at h
    obtain ⟨rfl, rfl⟩ := h
    exact .lineBreak hbreak
  by_cases hhash : (c = '#' && b) = true
  · simp only [scan, hpad, hbreak, hhash, if_true, Bool.false_eq_true, if_false, scanDirective] at h
    simp only [Bool.and_eq_true, decide_eq_true_eq] at hhash
    obtain ⟨rfl, hb⟩ := hhash
    split at h
    · simp at h
    · rename_i m hm
      simp only [Except.ok.injEq, Prod.mk.injEq] at h
      obtain ⟨rfl, rfl⟩ := h
      exact .directive hb hm
  by_cases hslash : (c = '/' && rest.head? = some '/') = true
  · simp only [scan, hpad, hbreak, hhash, hslash, if_true, Bool.false_eq_true, if_false,
      Except.ok.injEq] at h
    simp only [Bool.and_eq_true, decide_eq_true_eq] at hslash
    obtain ⟨rfl, hr⟩ := hslash
    obtain ⟨more, rfl⟩ := List.head?_eq_some_iff.1 hr
    simp only [scanLineComment, Prod.mk.injEq] at h
    obtain ⟨rfl, rfl⟩ := h
    exact .lineComment rfl
  by_cases hstar : (c = '/' && rest.head? = some '*') = true
  · simp only [scan, hpad, hbreak, hhash, hslash, hstar, if_true, Bool.false_eq_true, if_false,
      scanBlockComment] at h
    simp only [Bool.and_eq_true, decide_eq_true_eq] at hstar
    obtain ⟨rfl, hr⟩ := hstar
    obtain ⟨body, rfl⟩ := List.head?_eq_some_iff.1 hr
    split at h
    · simp at h
    · rename_i m hm
      simp only [Except.ok.injEq, Prod.mk.injEq, List.tail_cons] at h hm
      obtain ⟨rfl, rfl⟩ := h
      exact .blockComment hm
  by_cases hquote : (c = '"' || c = '\'') = true
  · simp only [scan, hpad, hbreak, hhash, hslash, hstar, hquote, if_true, Bool.false_eq_true,
      if_false, scanLiteral] at h
    simp only [Bool.or_eq_true, decide_eq_true_eq] at hquote
    split at h
    · simp at h
    · rename_i m hm
      simp only [Except.ok.injEq, Prod.mk.injEq] at h
      obtain ⟨rfl, rfl⟩ := h
      exact .literal hquote hm
  · simp only [Bool.not_eq_true] at hpad hbreak hhash hslash hstar hquote
    have hc : StartsPlain b c rest := ⟨hpad, hbreak, hhash, hslash, hstar, hquote⟩
    rw [scan_of_startsPlain hc, Except.ok.injEq] at h
    exact .plain hc h

/-- How a lexeme that is read is cut off. -/
theorem Reads.cut {d : Dialect} {b : Bool} {l : Lexeme} {t : Text} (h : Reads d b l t) :
    ∃ c u rest n k, l.text = c :: u ∧ u ++ t = rest ∧ u.length = n ∧ l.kind = k ∧
      Cut d b c rest k n := by
  obtain ⟨c, u, hl, hscan⟩ := h
  exact ⟨c, u, _, _, _, hl, rfl, rfl, rfl, cut_of_scan hscan⟩

/-- Punctuation is cut off mark by mark. -/
theorem Reads.length_of_punctuation {d : Dialect} {b : Bool} {l : Lexeme} {t : Text}
    (h : Reads d b l t) (hl : l.kind = .punctuation) : l.text.length = 1 := by
  rcases h.cut with ⟨c, u, rest, n, k, htext, -, hn, hk, hcut⟩
  have hzero : n = 0 := by
    obtain rfl : k = .punctuation := hk.symm.trans hl
    cases hcut with
    | plain _ hplain =>
      unfold scanPlain scanSymbol at hplain
      split at hplain
      · simp at hplain
      split at hplain
      · simp at hplain
      split at hplain
      · exact (Prod.mk.inj hplain).2.symm
      split at hplain
      · simp at hplain
      · exact (Prod.mk.inj hplain).2.symm
  rw [htext, List.length_cons, hn, hzero]

/-- What lexing gives is no end of file. -/
theorem Reads.kind_ne_eof {d : Dialect} {b : Bool} {l : Lexeme} {t : Text} (h : Reads d b l t) :
    l.kind ≠ .eof := by
  obtain ⟨c, u, rest, n, k, -, -, -, hk, hcut⟩ := h.cut
  rw [hk]
  cases hcut with
  | plain _ hplain =>
    intro heof
    have := isPlain_of_scanPlain hplain
    simp [heof, TokenKind.isPlain] at this
  | _ => simp

theorem scanPlain_append_stop (d : Dialect) (c : Char) (u : Text) {s : Text} (hs : Stops s) :
    scanPlain d c (u ++ s) = scanPlain d c u := by
  have hname := leading_append_stop (p := Text.isNameChar) (by decide) u hs
  have hlen := Text.leading_le Text.isNameChar u
  unfold scanPlain
  rw [startsNumber_append_stop c u hs, numberLength_append_stop c u hs,
    scanSymbol_append_stop c u hs, hname, List.take_append_of_le_length hlen]

theorem startsPlain_append_stop (b : Bool) (c : Char) (u : Text) {s : Text} (hs : Stops s) :
    StartsPlain b c (u ++ s) ↔ StartsPlain b c u := by
  have hslash := head?_append_stop (x := '/') (by decide) u hs
  have hstar := head?_append_stop (x := '*') (by decide) u hs
  constructor
  · rintro ⟨h1, h2, h3, h4, h5, h6⟩
    simp only [hslash, hstar] at h4 h5
    exact ⟨h1, h2, h3, h4, h5, h6⟩
  · rintro ⟨h1, h2, h3, h4, h5, h6⟩
    refine ⟨h1, h2, h3, ?_, ?_, h6⟩
    · simpa only [hslash] using h4
    · simpa only [hstar] using h5

end Lexer

end ShaderStyle
