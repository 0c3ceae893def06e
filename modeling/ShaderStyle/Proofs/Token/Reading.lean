import ShaderStyle.Token.Lexer

/-!
# What the scanner reads

`Reads d b l t` says that the scanner cuts off the lexeme `l` where the text `t` follows it. A list
of lexemes is what lexing gives for its own text (`IsLexed`) exactly when every lexeme is read in
front of the texts of those behind it (`isLexed_cons`), so a statement about a whole text comes down
to one about each lexeme and what follows it.
-/

namespace ShaderStyle.Lexer

/-! ## Lengths -/

theorem literalLength_le {quote : Char} {t : Text} {n : Nat} (h : literalLength quote t = some n) :
    n ≤ t.length := by
  fun_induction literalLength quote t generalizing n with
  | case1 => simp at h
  | case2 rest ih =>
    obtain ⟨m, hm, rfl⟩ := Option.map_eq_some_iff.1 h
    have := ih hm
    simp only [List.length_cons]
    omega
  | case3 _ rest _ ih =>
    obtain ⟨m, hm, rfl⟩ := Option.map_eq_some_iff.1 h
    have := ih hm
    simp only [List.length_cons]
    omega
  | case4 rest =>
    simp only [Option.some.injEq] at h
    simp only [List.length_cons]
    omega
  | case5 => simp at h
  | case6 c rest _ _ _ _ ih =>
    obtain ⟨m, hm, rfl⟩ := Option.map_eq_some_iff.1 h
    have := ih hm
    simp only [List.length_cons]
    omega

theorem commentLength_le {t : Text} {n : Nat} (h : commentLength t = some n) : n ≤ t.length := by
  fun_induction commentLength t generalizing n with
  | case1 => simp at h
  | case2 => simp only [Option.some.injEq] at h; simp [← h]
  | case3 _ rest _ ih =>
    obtain ⟨m, hm, rfl⟩ := Option.map_eq_some_iff.1 h
    have := ih hm
    simp only [List.length_cons]
    omega

theorem exponentLength_le (t : Text) : exponentLength t ≤ t.length := by
  cases t with
  | nil => simp [exponentLength]
  | cons e rest =>
    have hdigits (sign : Nat) :
        (if Text.leading Text.isDigit (rest.drop sign) = 0 then 0
          else 1 + sign + Text.leading Text.isDigit (rest.drop sign)) ≤ (e :: rest).length := by
      have hle := Text.leading_le Text.isDigit (rest.drop sign)
      simp only [List.length_drop] at hle
      simp only [List.length_cons]
      split <;> omega
    simp only [exponentLength]
    split
    · exact hdigits _
    · simp

theorem mantissaLength_le (c : Char) (rest : Text) : mantissaLength c rest ≤ rest.length := by
  have hwhole := Text.leading_le Text.isDigit rest
  simp only [mantissaLength]
  split
  · exact hwhole
  · split
    · rename_i more hd
      have hlen := congrArg List.length hd
      have hmore := Text.leading_le Text.isDigit more
      simp only [List.length_drop, List.length_cons] at hlen
      omega
    · exact hwhole

theorem numberLength_le (c : Char) (rest : Text) : numberLength c rest ≤ rest.length := by
  have hdecimal : decimalLength c rest ≤ rest.length := by
    have h1 := mantissaLength_le c rest
    have h2 := exponentLength_le (rest.drop (mantissaLength c rest))
    have h3 := Text.leading_le isNumberSuffix
      (rest.drop (mantissaLength c rest + exponentLength (rest.drop (mantissaLength c rest))))
    simp only [List.length_drop] at h2 h3
    simp only [decimalLength]
    omega
  unfold numberLength
  cases hh : hexLength? c rest with
  | none => simpa using hdecimal
  | some n =>
    cases rest with
    | nil => simp [hexLength?] at hh
    | cons x more =>
      simp only [hexLength?] at hh
      split at hh
      · have h1 := Text.leading_le isHexDigit more
        have h2 := Text.leading_le isIntegerSuffix (more.drop (Text.leading isHexDigit more))
        simp only [Option.some.injEq] at hh
        simp only [List.length_drop] at h2
        simp only [Option.getD_some, List.length_cons]
        omega
      · simp at hh

theorem scanSymbol_le (c : Char) (rest : Text) : (scanSymbol c rest).2 ≤ rest.length := by
  unfold scanSymbol
  split
  · simp
  · split
    · rename_i op hop
      have hpre := List.find?_some hop
      have hlen := (List.isPrefixOf_iff_prefix.1 hpre).length_le
      simp only [List.length_cons] at hlen
      simp only
      omega
    · simp

/-- The scanner never reads past the end of the text. -/
theorem scan_le {d : Dialect} {b : Bool} {c : Char} {rest : Text} {k : TokenKind} {n : Nat}
    (h : scan d b c rest = .ok (k, n)) : n ≤ rest.length := by
  unfold scan at h
  split at h
  · simp only [Except.ok.injEq, Prod.mk.injEq] at h
    rw [← h.2]
    exact Text.leading_le _ _
  split at h
  · have := Text.breakLength_le (c :: rest)
    simp only [Except.ok.injEq, Prod.mk.injEq, List.length_cons] at h this
    omega
  split at h
  · unfold scanDirective at h
    split at h
    · simp at h
    · rename_i m _
      have := Text.length_trimPads_le (rest.take m)
      simp only [Except.ok.injEq, Prod.mk.injEq, List.length_take] at h this
      omega
  split at h
  · have := Text.leading_le (fun c => !Text.isBreak c) rest
    simp only [scanLineComment, Except.ok.injEq, Prod.mk.injEq] at h
    omega
  split at h
  · rename_i hc
    unfold scanBlockComment at h
    split at h
    · simp at h
    · rename_i m hm
      have := commentLength_le hm
      cases rest with
      | nil => simp at hc
      | cons x more =>
        simp only [Except.ok.injEq, Prod.mk.injEq, List.tail_cons, List.length_cons] at h this ⊢
        omega
  split at h
  · unfold scanLiteral at h
    split at h
    · simp at h
    · rename_i m hm
      have := literalLength_le hm
      simp only [Except.ok.injEq, Prod.mk.injEq] at h
      omega
  split at h
  · have := numberLength_le c rest
    simp only [Except.ok.injEq, Prod.mk.injEq] at h
    omega
  split at h
  · have := Text.leading_le Text.isNameChar rest
    simp only [Except.ok.injEq, Prod.mk.injEq] at h
    omega
  · have := scanSymbol_le c rest
    simp only [Except.ok.injEq] at h
    rw [h] at this
    exact this

/-! ## Reading one lexeme after the other -/

/-- The texts of some lexemes, one after the other. -/
def textOf (ls : List Lexeme) : Text :=
  ls.flatMap fun l => l.text

@[simp] theorem textOf_nil : textOf [] = [] := rfl

@[simp] theorem textOf_cons (l : Lexeme) (ls : List Lexeme) :
    textOf (l :: ls) = l.text ++ textOf ls := rfl

@[simp] theorem textOf_append (ls ms : List Lexeme) : textOf (ls ++ ms) = textOf ls ++ textOf ms := by
  simp [textOf]

/-- In front of `l` and then `t`, the scanner cuts off `l`. -/
def Reads (d : Dialect) (lineStart : Bool) (l : Lexeme) (t : Text) : Prop :=
  ∃ c u, l.text = c :: u ∧ scan d lineStart c (u ++ t) = .ok (l.kind, u.length)

/-- The lexemes are what lexing gives for their own text. -/
def IsLexed (d : Dialect) (lineStart : Bool) (ls : List Lexeme) : Prop :=
  lexemes d lineStart (textOf ls) = .ok ls

/-- Lexing loses nothing of the text. -/
theorem textOf_lexemes {d : Dialect} {b : Bool} {t : Text} {ls : List Lexeme}
    (h : lexemes d b t = .ok ls) : textOf ls = t := by
  fun_induction lexemes d b t generalizing ls with
  | case1 => simp only [Except.ok.injEq] at h; simp [← h]
  | case2 => simp at h
  | case3 => simp at h
  | case4 b c rest k n hscan more hmore ih =>
    simp only [Except.ok.injEq] at h
    rw [← h, textOf_cons, ih hmore]
    simp

theorem isLexed_of_lexemes {d : Dialect} {b : Bool} {t : Text} {ls : List Lexeme}
    (h : lexemes d b t = .ok ls) : IsLexed d b ls := by
  unfold IsLexed
  rw [textOf_lexemes h]
  exact h

@[simp] theorem isLexed_nil (d : Dialect) (b : Bool) : IsLexed d b [] := by
  simp [IsLexed, lexemes]

theorem lexemes_of_reads {d : Dialect} {b : Bool} {l : Lexeme} {t : Text} (h : Reads d b l t) :
    lexemes d b (l.text ++ t) =
      match lexemes d (lineStartAfter b l.kind) t with
      | .error f => .error (f.shift l.text.length)
      | .ok more => .ok (l :: more) := by
  obtain ⟨c, u, hl, hscan⟩ := h
  have hl' : l = ⟨l.kind, c :: u⟩ := by rw [← hl]
  rw [hl, List.cons_append, lexemes, hscan]
  simp only [List.drop_left, List.take_left, List.length_cons]
  cases lexemes d (lineStartAfter b l.kind) t with
  | error f => simp only [Nat.add_comm 1]
  | ok more => simp only [← hl']

/-- One step of lexing: the first lexeme is read, and the rest is lexed from behind it. -/
theorem lexemes_append_eq_iff {d : Dialect} {b : Bool} {l : Lexeme} {t : Text}
    {more : List Lexeme} :
    lexemes d b (l.text ++ t) = .ok (l :: more) ↔
      Reads d b l t ∧ lexemes d (lineStartAfter b l.kind) t = .ok more := by
  constructor
  · intro h
    cases ht : l.text ++ t with
    | nil => rw [ht] at h; simp [lexemes] at h
    | cons c rest =>
      rw [ht, lexemes] at h
      split at h
      · simp at h
      · rename_i k n hscan
        split at h
        · simp at h
        · rename_i ms hms
          simp only [Except.ok.injEq, List.cons.injEq] at h
          obtain ⟨rfl, rfl⟩ := h
          have hn := scan_le hscan
          have hrest : rest = rest.take n ++ t := by simpa using ht.symm
          have hdrop : rest.drop n = t :=
            List.append_cancel_left ((List.take_append_drop n rest).trans hrest)
          refine ⟨⟨c, rest.take n, rfl, ?_⟩, ?_⟩
          · rw [← hrest, hscan]
            simp [hn]
          · rw [← hdrop]
            exact hms
  · rintro ⟨hread, hmore⟩
    rw [lexemes_of_reads hread, hmore]

/-- Lexemes are lexed exactly if each is read in front of the texts behind it. -/
theorem isLexed_cons {d : Dialect} {b : Bool} {l : Lexeme} {more : List Lexeme} :
    IsLexed d b (l :: more) ↔
      Reads d b l (textOf more) ∧ IsLexed d (lineStartAfter b l.kind) more := by
  unfold IsLexed
  rw [textOf_cons]
  exact lexemes_append_eq_iff

theorem exists_reads_of_mem {d : Dialect} {b : Bool} {ls : List Lexeme} (h : IsLexed d b ls)
    {l : Lexeme} (hl : l ∈ ls) : ∃ b t, Reads d b l t := by
  induction ls generalizing b with
  | nil => simp at hl
  | cons k ls ih =>
    rw [isLexed_cons] at h
    rcases List.mem_cons.1 hl with rfl | hl
    · exact ⟨b, _, h.1⟩
    · exact ih h.2 hl

instance (d : Dialect) (b : Bool) (l : Lexeme) (t : Text) : Decidable (Reads d b l t) :=
  match h : l.text with
  | [] => isFalse (by simp [Reads, h])
  | c :: u =>
    decidable_of_iff ((scan d b c (u ++ t)).toOption = some (l.kind, u.length)) (by
      constructor
      · intro hscan
        refine ⟨c, u, h, ?_⟩
        cases hs : scan d b c (u ++ t) <;> simp_all [Except.toOption]
      · rintro ⟨c', u', hl, hscan⟩
        obtain ⟨rfl, rfl⟩ := List.cons.inj (h.symm.trans hl)
        rw [hscan]
        rfl)

/-- Whether some lexemes are lexed can be seen lexeme by lexeme. -/
instance decidableIsLexed (d : Dialect) : (b : Bool) → (ls : List Lexeme) → Decidable (IsLexed d b ls)
  | b, [] => isTrue (isLexed_nil d b)
  | b, l :: more =>
    have := decidableIsLexed d (lineStartAfter b l.kind) more
    decidable_of_iff _ isLexed_cons.symm

/-! ## Tokens -/

theorem map_toLexeme_place (offset : Nat) (position : Position) (ls : List Lexeme) :
    (place offset position ls).map Token.toLexeme = ls ++ [⟨.eof, []⟩] := by
  induction ls generalizing offset position with
  | nil => rfl
  | cons l ls ih => rw [place, List.map_cons, ih]; rfl

/-- The tokens of a text are its lexemes, placed. -/
theorem tokenize_eq_ok_iff {d : Dialect} {t : Text} {tokens : List Token} :
    tokenize d t = .ok tokens ↔
      ∃ ls, IsLexed d true ls ∧ textOf ls = t ∧ tokens = place 0 .origin ls := by
  unfold tokenize
  constructor
  · intro h
    split at h
    · simp at h
    · rename_i ls hls
      simp only [Except.ok.injEq] at h
      exact ⟨ls, isLexed_of_lexemes hls, textOf_lexemes hls, h.symm⟩
  · rintro ⟨ls, hlexed, rfl, rfl⟩
    rw [hlexed]

end ShaderStyle.Lexer
