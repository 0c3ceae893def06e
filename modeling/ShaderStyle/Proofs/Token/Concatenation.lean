import ShaderStyle.Proofs.Token.Positions

/-!
# Lexing one text after another

A text that ends with a line break can be lexed on its own: whatever stands behind the break, the
tokens up to it are the same, and what stands behind it is lexed as if it were a text by itself
(`tokenize_append`). Its tokens, or its fault, only stand further down (`Token.shift`, `LexFault.shift`).

The step is that no lexeme is read differently if text is added behind a line break that stands
somewhere behind it (`Reads.append_break`); the run goes through the lexemes up to the break, where a
line starts, as at the beginning of a text (`lexemes_append_break`).
-/

namespace ShaderStyle

/-! ## Further down -/

/-- The same column, some lines further down. -/
def Position.down (p : Position) (lines : Nat) : Position :=
  ⟨p.line + lines, p.column⟩

/-- The token with some more characters in front of its text, and with them some more lines. -/
def Token.shift (characters lines : Nat) (k : Token) : Token :=
  ⟨k.toLexeme, characters + k.offset, ⟨k.span.start.down lines, k.span.stop.down lines⟩⟩

/-- The fault with some more characters in front of its text, and with them some more lines. -/
def LexFault.shift (characters lines : Nat) (f : LexFault) : LexFault :=
  ⟨f.cause, characters + f.offset, f.position.down lines⟩

namespace Position

/-- Moving over a text does not depend on the line where it starts. -/
theorem advance_down (p : Position) (lines : Nat) (t : Text) :
    (p.down lines).advance t = (p.advance t).down lines := by
  rw [advance_eq, advance_eq]
  split
  · rfl
  · simp only [down, mk.injEq, and_true]
    omega

/-- Behind a line break a line starts, as many lines further down as there are breaks. -/
theorem behind_break (t : Text) {e : Text} (he : Text.IsBreakText e) :
    behind (t ++ e) = origin.down (Text.breakCount (t ++ e)) := by
  have hbreak : ∃ c ∈ e, Text.isBreak c = true := by
    rcases he.exists_cons with ⟨c, u, rfl, hc⟩
    exact ⟨c, List.mem_cons_self, hc⟩
  have hline : Text.lastLine e = [] := by
    have hnone := Text.lastLine_break (x := []) he
    rwa [List.append_nil] at hnone
  rw [behind, Text.lastLine_append hbreak, hline, down, origin]
  simp [Int.add_comm]

/-- What stands behind a line break is as far down as it would be by itself, and the lines before it
further. -/
theorem after_append_break {t e u : Text} (he : Text.IsBreakText e)
    (hborder : (t ++ e).getLast? = some '\r' → u.head? ≠ some '\n') :
    after (t ++ e ++ u) = (after u).down (Text.breakCount (t ++ e)) := by
  calc after (t ++ e ++ u) = (after (t ++ e)).advance u := advance_append hborder origin
    _ = (origin.down (Text.breakCount (t ++ e))).advance u := by
      rw [after_eq_behind, behind_break t he]
    _ = (after u).down (Text.breakCount (t ++ e)) := advance_down origin _ u

end Position

namespace Lexer

variable {d : Dialect} {b : Bool} {e s : Text}

/-! ## One lexeme -/

theorem endsDirective_append {r : Text} (hr : EndsDirective r) (hne : r ≠ []) (s : Text) :
    EndsDirective (r ++ s) := by
  rcases hr with rfl | ⟨c, more, rfl, hc⟩ | ⟨more, rfl⟩
  · exact absurd rfl hne
  · exact .inr (.inl ⟨c, more ++ s, rfl, hc⟩)
  · exact .inr (.inr ⟨more ++ s, rfl⟩)

theorem startsComment_of_append {r : Text} (hr : EndsDirective r) (hne : r ≠ [])
    (h : StartsComment (r ++ s)) : StartsComment r := by
  rcases h with ⟨more, hmore⟩
  rcases hr with rfl | ⟨c, u, rfl, hc⟩ | hcomment
  · exact absurd rfl hne
  · -- a line break is no slash
    rw [List.cons_append, List.cons.injEq] at hmore
    rw [hmore.1] at hc
    exact absurd hc (by decide)
  · exact hcomment

/-- A lexeme in front of a line break is read alike whatever is added behind the break. -/
theorem Reads.append_break {l : Lexeme} {t : Text} (h : Reads d b l (t ++ e))
    (he : Text.IsBreakText e) (s : Text) : Reads d b l (t ++ (e ++ s)) := by
  rcases he.exists_cons with ⟨c, u, rfl, hc⟩
  have hhead : (t ++ (c :: u ++ s)).head? = (t ++ c :: u).head? := by
    cases t with
    | nil => rfl
    | cons x t => rfl
  obtain ⟨kind, text⟩ := l
  have hplain (hk : kind.isPlain = true) : Reads d b ⟨kind, text⟩ (t ++ (c :: u ++ s)) := by
    -- the break is a place where plain lexemes end, whatever follows it
    have hstop := mem_stopChars_of_isBreak hc
    exact h.of_alike hk ⟨t, c :: u, c :: u ++ s, rfl, rfl, (stops_cons c u).2 hstop,
      (stops_cons c (u ++ s)).2 hstop⟩
  cases kind with
  | whitespace =>
    rw [reads_whitespace_iff] at h ⊢
    rwa [hhead]
  | lineBreak =>
    rw [reads_lineBreak_iff] at h ⊢
    rwa [hhead]
  | lineComment doc =>
    rw [reads_lineComment_iff] at h ⊢
    rwa [hhead]
  | blockComment doc =>
    rw [reads_blockComment_iff] at h ⊢
    exact h
  | string => exact h.of_string _
  | directive name =>
    rcases exists_pads (t ++ c :: u) with ⟨w, r, hsplit, hw, hr⟩
    have hends : EndsDirective r := by
      rcases h.exists_hash with ⟨-, x, rfl⟩
      rw [hsplit] at h
      exact ((reads_directive_iff hw hr).1 h).2.2.2.1
    have hne : r ≠ [] := by
      -- there is more than pads, namely the break
      rintro rfl
      have hpad : Text.isPad c = true := by
        apply hw
        rw [List.append_nil] at hsplit
        rw [← hsplit]
        simp
      rw [not_isPad_of_isBreak hc] at hpad
      exact absurd hpad (by decide)
    rw [hsplit] at h
    have hfirst : (r ++ s).head? = r.head? := by
      rcases List.exists_cons_of_ne_nil hne with ⟨x, v, rfl⟩
      rfl
    have hread := h.directive_congr hw hends (endsDirective_append hends hne s) hfirst
      (startsComment_of_append hends hne)
    rwa [← List.append_assoc, ← hsplit, List.append_assoc] at hread
  | eof => exact absurd rfl h.kind_ne_eof
  | word cls => exact hplain rfl
  | punctuation => exact hplain rfl
  | operator => exact hplain rfl
  | number => exact hplain rfl

/-! ## All lexemes -/

theorem Failure.shift_shift (f : Failure) (n m : Nat) : (f.shift n).shift m = f.shift (m + n) := by
  simp only [Failure.shift, Nat.add_assoc]

/-- Lexemes that end with a line break are lexed alike whatever stands behind it, and what stands
behind it is lexed from the start of a line. -/
theorem lexemes_append_break {ls : List Lexeme} (h : IsLexed d b (ls ++ [⟨.lineBreak, e⟩]))
    {t : Text} (hborder : e = ['\r'] → t.head? ≠ some '\n') :
    lexemes d b (textOf (ls ++ [⟨.lineBreak, e⟩]) ++ t) =
      match lexemes d true t with
      | .error f => .error (f.shift (textOf (ls ++ [⟨.lineBreak, e⟩])).length)
      | .ok more => .ok (ls ++ ⟨.lineBreak, e⟩ :: more) := by
  induction ls generalizing b with
  | nil =>
    have hread : Reads d b ⟨.lineBreak, e⟩ t :=
      reads_lineBreak_iff.2 ⟨(reads_lineBreak_iff.1 (isLexed_cons.1 h).1).1, hborder⟩
    rw [List.nil_append, textOf_cons, textOf_nil, List.append_nil, lexemes_of_reads hread]
    cases hrest : lexemes d true t with
    | error f => simp only [lineStartAfter, hrest]
    | ok more => simp only [lineStartAfter, hrest, List.nil_append]
  | cons l ls ih =>
    rw [List.cons_append, isLexed_cons] at h
    have he : Text.IsBreakText e := by
      rcases exists_reads_of_mem h.2 (l := ⟨.lineBreak, e⟩) (by simp) with ⟨b', t', hread⟩
      exact (reads_lineBreak_iff.1 hread).1
    have hread : Reads d b l (textOf (ls ++ [⟨.lineBreak, e⟩]) ++ t) := by
      have hfirst := h.1
      rw [textOf_append] at hfirst ⊢
      rw [List.append_assoc]
      have hone : textOf [⟨.lineBreak, e⟩] = e := by simp
      rw [hone] at hfirst ⊢
      exact hfirst.append_break he t
    rw [List.cons_append, textOf_cons, List.append_assoc, lexemes_of_reads hread, ih h.2]
    cases lexemes d true t with
    | error f => simp only [Failure.shift_shift, List.length_append]
    | ok more => rfl

/-! ## Placing -/

theorem place_shift (characters lines offset : Nat) (p : Position) (ls : List Lexeme) :
    place (characters + offset) (p.down lines) ls =
      (place offset p ls).map (Token.shift characters lines) := by
  induction ls generalizing offset p with
  | nil => rfl
  | cons l ls ih =>
    rw [place, place, List.map_cons, Position.advance_down, Nat.add_assoc, ih]
    rfl

/-- Lexemes behind others are placed from where the end of the file stood. -/
theorem place_append (offset : Nat) (p : Position) (ls : List Lexeme) :
    ∃ q, ⟨⟨.eof, []⟩, offset + (textOf ls).length, ⟨q, q⟩⟩ ∈ place offset p ls ∧
      ∀ ms, place offset p (ls ++ ms) =
        (place offset p ls).dropLast ++ place (offset + (textOf ls).length) q ms := by
  induction ls generalizing offset p with
  | nil => exact ⟨p, by simp [place], fun ms => rfl⟩
  | cons l ls ih =>
    rcases ih (offset + l.text.length) (p.advance l.text) with ⟨q, hend, happend⟩
    have hoffset : offset + (textOf (l :: ls)).length =
        offset + l.text.length + (textOf ls).length := by
      rw [textOf_cons, List.length_append, Nat.add_assoc]
    refine ⟨q, ?_, ?_⟩
    · rw [place, hoffset]
      exact List.mem_cons_of_mem _ hend
    · intro ms
      rw [List.cons_append, place, place, happend, hoffset,
        List.dropLast_cons_of_ne_nil (List.ne_nil_of_mem hend)]
      rfl

end Lexer

/-! ## Two texts -/

/-- A text whose last token is a line break may be lexed by itself: the tokens of the text and another
one behind it are those of the text without its end of file, and then those of the other text, further
down. If the other text has a fault, so have both, further down; only a line break of two characters
may not lie across the border. -/
theorem tokenize_append (d : Dialect) (a b : Text) (tokens : List Token)
    (htokens : tokenize d a = .ok tokens)
    (hlast : ∃ k, tokens.dropLast.getLast? = some k ∧ k.kind = .lineBreak)
    (hborder : ¬ (a.getLast? = some '\r' ∧ b.head? = some '\n')) :
    tokenize d (a ++ b) =
      match tokenize d b with
      | .error f => .error (f.shift a.length (Text.breakCount a))
      | .ok more => .ok (tokens.dropLast ++ more.map (Token.shift a.length (Text.breakCount a))) := by
  have hplaced := tokenize_positions d a tokens htokens
  rcases Lexer.tokenize_eq_ok_iff.1 htokens with ⟨ls, hlexed, rfl, rfl⟩
  -- the last lexeme is a line break, so the other text starts on a line of its own
  have hbreak : ∃ ms e, ls = ms ++ [⟨.lineBreak, e⟩] := by
    rcases hlast with ⟨⟨⟨kind, e⟩, offset, span⟩, hk, rfl⟩
    have hmap := congrArg (Option.map Token.toLexeme) hk
    rw [← List.getLast?_map, List.map_dropLast, Lexer.map_toLexeme_place, List.dropLast_concat] at hmap
    rcases List.getLast?_eq_some_iff.1 hmap with ⟨ms, rfl⟩
    exact ⟨ms, e, rfl⟩
  rcases hbreak with ⟨ms, e, rfl⟩
  have he : Text.IsBreakText e := by
    rcases Lexer.exists_reads_of_mem hlexed (l := ⟨.lineBreak, e⟩) (by simp) with ⟨b', t, hread⟩
    exact (Lexer.reads_lineBreak_iff.1 hread).1
  have htext : Lexer.textOf (ms ++ [⟨.lineBreak, e⟩]) = Lexer.textOf ms ++ e := by simp
  have hborder' : (Lexer.textOf ms ++ e).getLast? = some '\r' → b.head? ≠ some '\n' := by
    intro hcr hhead
    rw [htext] at hborder
    exact hborder ⟨hcr, hhead⟩
  have hnext : e = ['\r'] → b.head? ≠ some '\n' := by
    rintro rfl
    exact hborder' List.getLast?_concat
  unfold tokenize
  rw [Lexer.lexemes_append_break hlexed hnext]
  cases Lexer.lexemes d true b with
  | error f =>
    have hcut : (b.take f.offset).head? = some '\n' → b.head? = some '\n' := by
      intro hhead
      rw [List.head?_take] at hhead
      split at hhead
      · simp at hhead
      · exact hhead
    have hplace := Position.after_append_break (u := b.take f.offset) he
      fun hcr hhead => hborder' hcr (hcut hhead)
    simp only [LexFault.shift, Lexer.Failure.shift, List.take_length_add_append]
    rw [htext, hplace]
  | ok more =>
    rcases Lexer.place_append 0 .origin (ms ++ [⟨.lineBreak, e⟩]) with ⟨q, hend, happend⟩
    -- where the end of the file stood in the first text, the other one starts
    have hq : q = Position.origin.down (Text.breakCount (Lexer.textOf ms ++ e)) := by
      rw [← Position.behind_break _ he, ← htext]
      have hstart := (hplaced _ hend).start
      rwa [Nat.zero_add, List.take_length] at hstart
    have hshift := Lexer.place_shift (Lexer.textOf ms ++ e).length
      (Text.breakCount (Lexer.textOf ms ++ e)) 0 .origin more
    have hmore := happend more
    rw [hq, htext, Nat.zero_add, ← Nat.add_zero (Lexer.textOf ms ++ e).length, hshift] at hmore
    simp only [htext]
    rw [← hmore, List.append_assoc]
    rfl

/-- A directive of two lines, and another one behind it: it is read as a directive again, on the third
line. -/
theorem tokenize_append_directives :
    ∃ tokens more, tokenize .hlsl ['#', '\\', '\n', 'a', '\r'] = .ok tokens ∧
      (∃ k, tokens.dropLast.getLast? = some k ∧ k.kind = .lineBreak) ∧
      ¬ (['#', '\\', '\n', 'a', '\r'].getLast? = some '\r' ∧ ['#', 'e'].head? = some '\n') ∧
      tokenize .hlsl (['#', '\\', '\n', 'a', '\r'] ++ ['#', 'e']) =
        .ok (tokens.dropLast ++ more) ∧
      more.head? = some ⟨⟨.directive ['e'], ['#', 'e']⟩, 5, ⟨⟨3, 1⟩, ⟨3, 3⟩⟩⟩ := by
  have htokens : tokenize .hlsl ['#', '\\', '\n', 'a', '\r'] = .ok _ :=
    Lexer.tokenize_eq_ok_iff.2 ⟨[⟨.directive [], ['#', '\\', '\n', 'a']⟩, ⟨.lineBreak, ['\r']⟩],
      by decide +kernel, rfl, rfl⟩
  have hmore : tokenize .hlsl ['#', 'e'] = .ok _ :=
    Lexer.tokenize_eq_ok_iff.2 ⟨[⟨.directive ['e'], ['#', 'e']⟩], by decide +kernel, rfl, rfl⟩
  have hborder : ¬ (['#', '\\', '\n', 'a', '\r'].getLast? = some '\r' ∧
      ['#', 'e'].head? = some '\n') := by decide
  have happend := tokenize_append .hlsl _ _ _ htokens ⟨_, rfl, rfl⟩ hborder
  rw [hmore] at happend
  exact ⟨_, _, htokens, ⟨_, rfl, rfl⟩, hborder, happend, rfl⟩

end ShaderStyle
