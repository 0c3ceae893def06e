import ShaderStyle.Proofs.Token.Positions
import ShaderStyle.Proofs.Token.Truncation

/-!
# Where lexing fails

A fault points at what was left open (`tokenize_fault`): everything before it can be lexed, and at its
place starts a block comment that is never closed, or a literal whose quote does not come before the
line or the text ends (`OpenEnd.IsLeftOpen`). A text that holds neither quotes nor the beginning of a
block comment is lexed.

A fault may lie in the middle of a directive, behind line breaks that the directive took along. What
is left of the directive before it is a directive of its own then (`directiveLength_take`). For all
other lexemes it matters only that the text is cut short behind them (`Reads.of_append`).
-/

namespace ShaderStyle

namespace Text

/-- Reading on in a literal, the line or the text ends before the quote comes. A backslash takes the
character or the line break behind it along. -/
inductive StaysOpen (quote : Char) : Text → Prop
  | atEnd : StaysOpen quote []
  | atBreak {c : Char} {t : Text} (hc : isBreak c = true) : StaysOpen quote (c :: t)
  | backslashAtEnd : StaysOpen quote ['\\']
  | escapedBreak {e t : Text} (he : IsBreakText e) (hnext : e = ['\r'] → t.head? ≠ some '\n')
      (ht : StaysOpen quote t) : StaysOpen quote ('\\' :: (e ++ t))
  | escapedChar {c : Char} {t : Text} (hc : isBreak c = false) (ht : StaysOpen quote t) :
      StaysOpen quote ('\\' :: c :: t)
  | char {c : Char} {t : Text} (hslash : c ≠ '\\') (hquote : c ≠ quote) (hbreak : isBreak c = false)
      (ht : StaysOpen quote t) : StaysOpen quote (c :: t)

end Text

/-- The text starts with something that is left open in it. -/
def OpenEnd.IsLeftOpen : OpenEnd → Text → Prop
  | .blockComment, t => ['/', '*'] <+: t ∧ ¬ ['*', '/'] <:+: t.drop 2
  | .string, t => ∃ rest, t = '"' :: rest ∧ Text.StaysOpen '"' rest
  | .character, t => ∃ rest, t = '\'' :: rest ∧ Text.StaysOpen '\'' rest

namespace Lexer

variable {d : Dialect} {b : Bool} {t : Text} {f : Failure}

/-! ## Literals and block comments -/

/-- A block comment is not closed if no closing delimiter stands anywhere behind its opening one. -/
theorem commentLength_eq_none_iff : commentLength t = none ↔ ¬ ['*', '/'] <:+: t := by
  fun_induction commentLength t with
  | case1 => simp
  | case2 rest =>
    have hcloses : ['*', '/'] <:+: '*' :: '/' :: rest := ⟨[], rest, rfl⟩
    simp [hcloses]
  | case3 c rest hnot ih =>
    have hhere : ¬ ['*', '/'] <+: c :: rest := by
      rintro ⟨more, hmore⟩
      rw [List.cons_append, List.cons.injEq] at hmore
      exact hnot more hmore.1.symm hmore.2.symm
    rw [Option.map_eq_none_iff, ih, List.infix_cons_iff, not_or]
    exact (and_iff_right hhere).symm

/-- A literal is not closed if reading on does not come to its quote. -/
theorem literalLength_eq_none_iff {quote : Char} (hquote : quote = '"' ∨ quote = '\'') :
    literalLength quote t = none ↔ Text.StaysOpen quote t := by
  have hslash : quote ≠ '\\' := by rcases hquote with rfl | rfl <;> decide
  have hnoBreak : Text.isBreak quote = false := by rcases hquote with rfl | rfl <;> decide
  constructor
  · intro h
    fun_induction literalLength quote t with
    | case1 => exact .atEnd
    | case2 rest ih =>
      rw [Option.map_eq_none_iff] at h
      exact .escapedBreak (.inr (.inl rfl)) (by simp) (ih h)
    | case3 c rest hcrlf ih =>
      rw [Option.map_eq_none_iff] at h
      by_cases hc : Text.isBreak c = true
      · have he : Text.IsBreakText [c] := by
          rcases Text.eq_of_isBreak hc with rfl | rfl
          · exact .inr (.inr rfl)
          · exact .inl rfl
        refine .escapedBreak he ?_ (ih h)
        intro hcr hlf
        rcases List.head?_eq_some_iff.1 hlf with ⟨more, rfl⟩
        exact hcrlf more (List.cons.inj hcr).1 rfl
      · exact .escapedChar (by simpa using hc) (ih h)
    | case4 => exact absurd h (by simp)
    | case5 c rest _ _ _ hbreak => exact .atBreak hbreak
    | case6 c rest _ hescape hnot hbreak ih =>
      rw [Option.map_eq_none_iff] at h
      by_cases hc : c = '\\'
      · -- nothing stands behind the backslash
        subst hc
        cases rest with
        | nil => exact .backslashAtEnd
        | cons z rest => exact (hescape z rest rfl rfl).elim
      · exact .char hc hnot (by simpa using hbreak) (ih h)
  · intro h
    have hplain {c : Char} (hc : c ≠ '\\') (rest : Text) := literalLength.eq_4 quote c rest
      (fun _ hback => absurd hback hc) (fun _ _ hback => absurd hback hc)
    induction h with
    | atEnd => rfl
    | @atBreak c t hc =>
      have hback : c ≠ '\\' := by
        rintro rfl
        exact absurd hc (by decide)
      have hne : c ≠ quote := by
        rintro rfl
        rw [hnoBreak] at hc
        exact absurd hc (by decide)
      rw [hplain hback, if_neg hne, if_pos hc]
    | backslashAtEnd =>
      rw [literalLength.eq_4 _ _ _ (by simp) (by simp), if_neg hslash.symm, if_neg (by decide)]
      rfl
    | @escapedBreak e t he hnext ht ih =>
      rcases he with rfl | rfl | rfl
      · rw [List.cons_append, literalLength.eq_3 _ _ _ (by simp), List.nil_append, ih]
        rfl
      · rw [List.cons_append, List.cons_append, literalLength.eq_2, List.nil_append, ih]
        rfl
      · rw [List.cons_append, List.nil_append, literalLength.eq_3, ih]
        · rfl
        · rintro more - rfl
          exact hnext rfl rfl
    | @escapedChar c t hc ht ih =>
      rw [literalLength.eq_3, ih]
      · rfl
      · rintro more rfl
        exact absurd hc (by decide)
    | @char c t hback hne hbreak ht ih =>
      rw [hplain hback, if_neg hne, if_neg (by simp [hbreak]), ih]
      rfl

/-! ## Directives -/

theorem extend_eq_error_iff {n : Nat} {r : Except Failure Nat} :
    extend n r = .error f ↔ ∃ g, r = .error g ∧ f = g.shift n := by
  cases r with
  | ok m => simp [extend]
  | error g => simp [extend, eq_comm]

theorem head?_of_take {n : Nat} {z : Char} (h : (t.take n).head? = some z) : t.head? = some z := by
  rw [← List.take_append_drop n t]
  exact head?_of_append h

theorem breakLength_take {n : Nat} (h : Text.breakLength t ≤ n) :
    Text.breakLength (t.take n) = Text.breakLength t := by
  rcases Text.cases_break t with rfl | ⟨e, u, rfl, he, hnext⟩ | ⟨c, u, rfl, hc⟩
  · rw [List.take_nil]
  · rw [breakLength_append he hnext] at h ⊢
    rw [List.take_append, List.take_of_length_le h]
    exact breakLength_append he fun hcr hlf => hnext hcr (head?_of_take hlf)
  · rw [breakLength_of_not_isBreak u hc]
    cases n with
    | zero => rfl
    | succ n => exact breakLength_of_not_isBreak _ hc

theorem quotedLength_take {n : Nat} (h : quotedLength t ≤ n) :
    quotedLength (t.take n) = quotedLength t := by
  fun_induction quotedLength t generalizing n with
  | case1 => rw [List.take_nil]; rfl
  | case2 rest ih =>
    rcases Nat.exists_eq_add_of_le h with ⟨m, rfl⟩
    have hrest := ih (n := quotedLength rest + m) (Nat.le_add_right _ _)
    rw [Nat.add_assoc, Nat.add_comm 3, List.take_succ_cons, List.take_succ_cons,
      List.take_succ_cons, quotedLength.eq_2, hrest]
  | case3 c rest hcrlf ih =>
    rcases Nat.exists_eq_add_of_le h with ⟨m, rfl⟩
    have hrest := ih (n := quotedLength rest + m) (Nat.le_add_right _ _)
    rw [Nat.add_assoc, Nat.add_comm 2, List.take_succ_cons, List.take_succ_cons,
      quotedLength.eq_3, hrest]
    intro more hc hmore
    rcases List.head?_eq_some_iff.1 (head?_of_take (congrArg List.head? hmore)) with ⟨u, hu⟩
    exact hcrlf u hc hu
  | case4 c rest hcrlf hescape hbreak =>
    cases n with
    | zero => rfl
    | succ n =>
      have hback : c ≠ '\\' := by
        rintro rfl
        exact absurd hbreak (by decide)
      rw [List.take_succ_cons, quotedLength.eq_4 _ _ (fun _ hc => absurd hc hback)
        (fun _ _ hc => absurd hc hback), if_pos hbreak]
  | case5 rest hcrlf hescape hbreak =>
    rcases Nat.exists_eq_add_of_le' h with ⟨m, rfl⟩
    rw [List.take_succ_cons, quotedLength.eq_4 _ _ (by simp) (by simp), if_neg hbreak, if_pos rfl]
  | case6 c rest hcrlf hescape hbreak hquote ih =>
    rcases Nat.exists_eq_add_of_le h with ⟨m, rfl⟩
    have hrest := ih (n := quotedLength rest + m) (Nat.le_add_right _ _)
    rw [Nat.add_assoc, Nat.add_comm 1, List.take_succ_cons, quotedLength.eq_4, if_neg hbreak,
      if_neg hquote, hrest]
    · intro more hc hmore
      rcases List.head?_eq_some_iff.1 (head?_of_take (congrArg List.head? hmore)) with ⟨u, hu⟩
      exact hescape _ u hc hu
    · intro z more hc hmore
      rcases List.head?_eq_some_iff.1 (head?_of_take (congrArg List.head? hmore)) with ⟨u, hu⟩
      exact hescape z u hc hu

theorem drop_cons_add (c : Char) (u : Text) (k m : Nat) :
    (c :: u).drop (1 + k + m) = (u.drop k).drop m := by
  rw [List.drop_drop, Nat.add_assoc, Nat.add_comm 1, List.drop_succ_cons]

theorem take_cons_add (c : Char) (u : Text) (k m : Nat) :
    (c :: u).take (1 + k + m) = c :: u.take (k + m) := by
  rw [Nat.add_assoc, Nat.add_comm 1, List.take_succ_cons]

/-- What a directive leaves open is a block comment. -/
theorem isLeftOpen_of_directiveLength (h : directiveLength t = .error f) :
    f.cause = .blockComment ∧ OpenEnd.blockComment.IsLeftOpen (t.drop f.offset) := by
  fun_induction directiveLength t generalizing f with
  | case1 => exact absurd h (by simp)
  | case2 rest skipped =>
    rename_i ih
    rcases extend_eq_error_iff.1 h with ⟨g, hg, rfl⟩
    rw [Failure.shift, drop_cons_add]
    exact ih hg
  | case3 => exact absurd h (by simp)
  | case4 rest hnone =>
    rw [Except.error.injEq] at h
    subst h
    exact ⟨rfl, ⟨rest, rfl⟩, commentLength_eq_none_iff.1 hnone⟩
  | case5 rest n hn ih =>
    rcases extend_eq_error_iff.1 h with ⟨g, hg, rfl⟩
    have hdrop : ('/' :: '*' :: rest).drop (2 + n + g.offset) = (rest.drop n).drop g.offset := by
      rw [show 2 + n + g.offset = n + g.offset + 1 + 1 by omega, List.drop_succ_cons,
        List.drop_succ_cons, List.drop_drop]
    rw [Failure.shift, hdrop]
    exact ih hg
  | case6 rest n =>
    rename_i ih
    rcases extend_eq_error_iff.1 h with ⟨g, hg, rfl⟩
    rw [Failure.shift, drop_cons_add]
    exact ih hg
  | case7 => exact absurd h (by simp)
  | case8 c rest _ _ _ _ _ ih =>
    rcases extend_eq_error_iff.1 h with ⟨g, hg, rfl⟩
    rw [Failure.shift, ← Nat.add_zero 1, drop_cons_add]
    exact ih hg

/-- What stands before the fault of a directive belongs to the directive. -/
theorem directiveLength_take (h : directiveLength t = .error f) :
    directiveLength (t.take f.offset) = .ok f.offset := by
  fun_induction directiveLength t generalizing f with
  | case1 => exact absurd h (by simp)
  | case2 rest skipped =>
    rename_i ih
    rcases extend_eq_error_iff.1 h with ⟨g, hg, rfl⟩
    have hbreak : Text.breakLength (rest.take (skipped + g.offset)) = skipped :=
      breakLength_take (Nat.le_add_right _ _)
    rw [Failure.shift, take_cons_add, directiveLength.eq_2, hbreak, List.drop_take,
      Nat.add_sub_cancel_left, ih hg, extend_ok]
  | case3 => exact absurd h (by simp)
  | case4 rest hnone =>
    rw [Except.error.injEq] at h
    subst h
    rw [List.take_zero, directiveLength.eq_1]
  | case5 rest n hn ih =>
    rcases extend_eq_error_iff.1 h with ⟨g, hg, rfl⟩
    have hcomment : commentLength (rest.take (n + g.offset)) = some n := by
      rw [List.take_add]
      exact commentLength_take_append _ hn
    have htake : ('/' :: '*' :: rest).take (2 + n + g.offset) =
        '/' :: '*' :: rest.take (n + g.offset) := by
      rw [show 2 + n + g.offset = n + g.offset + 1 + 1 by omega, List.take_succ_cons,
        List.take_succ_cons]
    rw [Failure.shift, htake, directiveLength.eq_4, hcomment]
    simp only
    rw [List.drop_take, Nat.add_sub_cancel_left, ih hg, extend_ok]
  | case6 rest n =>
    rename_i ih
    rcases extend_eq_error_iff.1 h with ⟨g, hg, rfl⟩
    have hquoted : quotedLength (rest.take (n + g.offset)) = n :=
      quotedLength_take (Nat.le_add_right _ _)
    rw [Failure.shift, take_cons_add, directiveLength.eq_5, hquoted, List.drop_take,
      Nat.add_sub_cancel_left, ih hg, extend_ok]
  | case7 => exact absurd h (by simp)
  | case8 c rest hback hline hblock hquote hbreak ih =>
    rcases extend_eq_error_iff.1 h with ⟨g, hg, rfl⟩
    have hnext {z : Char} (hno : ∀ more, c = '/' → rest = z :: more → False) (more : Text)
        (hc : c = '/') (hmore : rest.take g.offset = z :: more) : False := by
      rcases List.head?_eq_some_iff.1 (head?_of_take (congrArg List.head? hmore)) with ⟨u, hu⟩
      exact hno u hc hu
    rw [Failure.shift, ← Nat.add_zero 1, take_cons_add, Nat.zero_add,
      directiveLength.eq_6 _ _ hback (hnext hline) (hnext hblock) hquote, if_neg hbreak, ih hg,
      extend_ok]

/-! ## One lexeme -/

theorem exists_lexemes_of_reads {l : Lexeme} (h : Reads d b l t)
    (hmore : ∃ ls, lexemes d (lineStartAfter b l.kind) t = .ok ls) :
    ∃ ls, lexemes d b (l.text ++ t) = .ok ls := by
  rcases hmore with ⟨ls, hls⟩
  exact ⟨l :: ls, by rw [lexemes_of_reads h, hls]⟩

theorem exists_lexemes_pads (d : Dialect) (b : Bool) {w : Text} (hw : ∀ c ∈ w, Text.isPad c = true) :
    ∃ ls, lexemes d b w = .ok ls := by
  cases w with
  | nil => exact ⟨[], isLexed_nil d b⟩
  | cons c w =>
    have hread : Reads d b ⟨.whitespace, c :: w⟩ [] :=
      reads_whitespace_iff.2 ⟨by simp, hw, by simp⟩
    have hmore := exists_lexemes_of_reads hread ⟨[], isLexed_nil d _⟩
    rwa [List.append_nil] at hmore

/-- A text that is a directive with pads behind it is lexed. -/
theorem exists_lexemes_directive (h : directiveLength t = .ok t.length) :
    ∃ ls, lexemes d true ('#' :: t) = .ok ls := by
  rcases exists_trimPads t with ⟨w, hsplit, hw, -⟩
  have hread : Reads d true ⟨.directive (directiveName t), '#' :: Text.trimPads t⟩ w := by
    refine ⟨'#', Text.trimPads t, rfl, ?_⟩
    rw [← hsplit]
    simp [scan, scanDirective, Text.isPad, Text.isBreak, h]
  have hmore := exists_lexemes_of_reads hread (exists_lexemes_pads d _ hw)
  rwa [List.cons_append, ← hsplit] at hmore

/-- The scanner fails at a literal or a block comment that is not closed, or inside a directive at such
a comment, and what stands before it is lexed. -/
theorem isLeftOpen_of_scan {c : Char} (h : scan d b c t = .error f) :
    f.cause.IsLeftOpen ((c :: t).drop f.offset) ∧
      ∃ ls, lexemes d b ((c :: t).take f.offset) = .ok ls := by
  have hnone : ∃ ls, lexemes d b ((c :: t).take 0) = .ok ls := ⟨[], isLexed_nil d b⟩
  unfold scan at h
  split at h
  · exact absurd h (by simp)
  split at h
  · exact absurd h (by simp)
  split at h
  · -- inside a directive
    rename_i hhash
    simp only [Bool.and_eq_true, decide_eq_true_eq] at hhash
    rcases hhash with ⟨rfl, rfl⟩
    unfold scanDirective at h
    split at h
    · rename_i g hg
      rw [Except.error.injEq] at h
      subst h
      rcases isLeftOpen_of_directiveLength hg with ⟨hcause, hopen⟩
      have htake := directiveLength_take hg
      have hlength : (t.take g.offset).length = g.offset :=
        Nat.le_antisymm (List.length_take_le _ _) (endsDirective_drop htake).1
      rw [Failure.shift, hcause, Nat.add_comm, List.drop_succ_cons, List.take_succ_cons]
      exact ⟨hopen, exists_lexemes_directive (htake.trans (by rw [hlength]))⟩
    · exact absurd h (by simp)
  split at h
  · exact absurd h (by simp)
  split at h
  · rename_i hstar
    simp only [Bool.and_eq_true, decide_eq_true_eq] at hstar
    rcases hstar with ⟨rfl, hhead⟩
    rcases List.head?_eq_some_iff.1 hhead with ⟨body, rfl⟩
    unfold scanBlockComment at h
    split at h
    · rename_i hopen
      rw [Except.error.injEq] at h
      subst h
      exact ⟨⟨⟨body, rfl⟩, commentLength_eq_none_iff.1 hopen⟩, hnone⟩
    · exact absurd h (by simp)
  split at h
  · rename_i hquote
    simp only [Bool.or_eq_true, decide_eq_true_eq] at hquote
    unfold scanLiteral at h
    split at h
    · rename_i hopen
      rw [Except.error.injEq] at h
      subst h
      refine ⟨?_, hnone⟩
      rw [literalLength_eq_none_iff hquote] at hopen
      rcases hquote with rfl | rfl
      · exact ⟨t, rfl, hopen⟩
      · exact ⟨t, rfl, hopen⟩
    · exact absurd h (by simp)
  split at h
  · exact absurd h (by simp)
  · split at h <;> exact absurd h (by simp)

/-! ## All lexemes -/

/-- A fault lies behind the first lexeme that is read. -/
theorem exists_fault_of_reads {l : Lexeme} (hread : Reads d b l t)
    (h : lexemes d b (l.text ++ t) = .error f) :
    ∃ g, lexemes d (lineStartAfter b l.kind) t = .error g ∧ f = g.shift l.text.length := by
  rw [lexemes_of_reads hread] at h
  split at h
  · rename_i g hg
    rw [Except.error.injEq] at h
    exact ⟨g, hg, h.symm⟩
  · exact absurd h (by simp)

theorem two_le_offset_of_lexemes {more : Text}
    (h : lexemes d b ('/' :: '/' :: more) = .error f) : 2 ≤ f.offset := by
  have hscan : scan d b '/' ('/' :: more) = .ok (scanLineComment ('/' :: more)) := by
    simp [scan, Text.isPad, Text.isBreak]
  have hslash : 1 ≤ (scanLineComment ('/' :: more)).2 := by
    simp [scanLineComment, Text.leading, Text.isBreak]
  rw [lexemes, hscan] at h
  simp only at h
  split at h
  · rw [Except.error.injEq] at h
    subst h
    simp only [Failure.shift]
    omega
  · exact absurd h (by simp)

/-- No fault lies between the slashes of a line comment. -/
theorem le_offset_of_lexemes {w more : Text} (hw : ∀ c ∈ w, Text.isPad c = true)
    (h : lexemes d b (w ++ '/' :: '/' :: more) = .error f) : w.length + 2 ≤ f.offset := by
  cases w with
  | nil => exact two_le_offset_of_lexemes h
  | cons c w =>
    have hread : Reads d b ⟨.whitespace, c :: w⟩ ('/' :: '/' :: more) :=
      reads_whitespace_iff.2 ⟨by simp, hw, by simp [Text.isPad]⟩
    rcases exists_fault_of_reads hread h with ⟨g, hg, rfl⟩
    exact Nat.add_le_add_left (two_le_offset_of_lexemes hg) _

/-- Lexing fails where something is left open, and what stands before it is lexed. -/
theorem isLeftOpen_of_lexemes (h : lexemes d b t = .error f) :
    f.cause.IsLeftOpen (t.drop f.offset) ∧ ∃ ls, lexemes d b (t.take f.offset) = .ok ls := by
  fun_induction lexemes d b t generalizing f with
  | case1 => exact absurd h (by simp)
  | case2 b c rest g hscan =>
    rw [Except.error.injEq] at h
    subst h
    exact isLeftOpen_of_scan hscan
  | case3 b c rest kind n hscan g hg ih =>
    rw [Except.error.injEq] at h
    subst h
    rcases ih hg with ⟨hopen, hbefore⟩
    have hn := scan_le hscan
    rw [Failure.shift, drop_cons_add, take_cons_add]
    refine ⟨hopen, ?_⟩
    have hread : Reads d b ⟨kind, c :: rest.take n⟩ ((rest.drop n).take g.offset) := by
      have hall : Reads d b ⟨kind, c :: rest.take n⟩ (rest.drop n) :=
        ⟨c, rest.take n, rfl, by rw [List.take_append_drop, hscan, List.length_take_of_le hn]⟩
      rw [← List.take_append_drop g.offset (rest.drop n)] at hall
      refine hall.of_append ?_
      -- the text is not cut short between two slashes, since no fault lies there
      intro w more hw hslashes
      rw [List.take_append_drop] at hslashes
      have hlength := congrArg List.length hslashes
      rw [hslashes] at hg
      have hbehind := le_offset_of_lexemes hw hg
      rw [List.length_take]
      simp only [List.length_append, List.length_cons] at hlength
      omega
    have hmore := exists_lexemes_of_reads hread hbefore
    rwa [List.cons_append, ← List.take_add] at hmore
  | case4 => exact absurd h (by simp)

end Lexer

/-! ## Faults of a text -/

/-- The fault is the first thing that is left open in the text: what stands before it is lexed. -/
structure LexFault.IsFirstIn (d : Dialect) (t : Text) (f : LexFault) : Prop where
  position : f.position = .behind (t.take f.offset)
  before : ∃ tokens, tokenize d (t.take f.offset) = .ok tokens
  leftOpen : f.cause.IsLeftOpen (t.drop f.offset)

namespace LexFault

variable {d : Dialect} {t : Text} {f : LexFault}

theorem isFirstIn_of_tokenize (h : tokenize d t = .error f) : f.IsFirstIn d t := by
  unfold tokenize at h
  split at h
  · rename_i g hg
    rw [Except.error.injEq] at h
    subst h
    rcases Lexer.isLeftOpen_of_lexemes hg with ⟨hopen, ls, hls⟩
    refine ⟨Position.after_eq_behind _, ⟨Lexer.place 0 .origin ls, ?_⟩, hopen⟩
    rw [tokenize, hls]
  · exact absurd h (by simp)

/-- What is left open starts with a quote or with the beginning of a block comment. -/
theorem opens_of_isLeftOpen {cause : OpenEnd} (h : cause.IsLeftOpen t) :
    (∃ c ∈ t, c = '"' ∨ c = '\'') ∨ ['/', '*'] <:+: t := by
  cases cause with
  | blockComment => exact .inr h.1.isInfix
  | string =>
    rcases h with ⟨rest, rfl, -⟩
    exact .inl ⟨_, List.mem_cons_self, .inl rfl⟩
  | character =>
    rcases h with ⟨rest, rfl, -⟩
    exact .inl ⟨_, List.mem_cons_self, .inr rfl⟩

end LexFault

/-- Lexing fails only at the first thing that is left open, and it gives the place where that starts. A
text without quotes and without the beginning of a block comment is lexed. -/
theorem tokenize_fault (d : Dialect) (t : Text) :
    (∀ f, tokenize d t = .error f → f.IsFirstIn d t) ∧
      ((∀ c ∈ t, c ≠ '"' ∧ c ≠ '\'') → ¬ ['/', '*'] <:+: t → ∃ tokens, tokenize d t = .ok tokens) := by
  refine ⟨fun f => LexFault.isFirstIn_of_tokenize, ?_⟩
  intro hquotes hcomment
  cases htokens : tokenize d t with
  | ok tokens => exact ⟨tokens, rfl⟩
  | error f =>
    exfalso
    have hsuffix := List.drop_suffix f.offset t
    rcases LexFault.opens_of_isLeftOpen (LexFault.isFirstIn_of_tokenize htokens).leftOpen with
      ⟨c, hc, hquote⟩ | hopen
    · have hnone := hquotes c (hsuffix.subset hc)
      exact hquote.elim hnone.1 hnone.2
    · exact hcomment (hopen.trans hsuffix.isInfix)

/-- A directive that goes on in a second line, where a comment starts that is not closed. -/
theorem tokenize_fault_directive :
    tokenize .hlsl ['#', 'a', '\\', '\n', '"', '/', '*', '"', '/', '*'] =
        .error ⟨.blockComment, 8, ⟨2, 5⟩⟩ ∧
      LexFault.IsFirstIn .hlsl ['#', 'a', '\\', '\n', '"', '/', '*', '"', '/', '*']
        ⟨.blockComment, 8, ⟨2, 5⟩⟩ ∧
      (∀ c ∈ ['#', 'a', '\\', '\n', '/'], c ≠ '"' ∧ c ≠ '\'') ∧
      ¬ ['/', '*'] <:+: ['#', 'a', '\\', '\n', '/'] ∧
      ∃ tokens, tokenize .hlsl ['#', 'a', '\\', '\n', '/'] = .ok tokens := by
  have hfault : tokenize .hlsl ['#', 'a', '\\', '\n', '"', '/', '*', '"', '/', '*'] =
      .error ⟨.blockComment, 8, ⟨2, 5⟩⟩ := by cbv
  have hquotes : ∀ c ∈ ['#', 'a', '\\', '\n', '/'], c ≠ '"' ∧ c ≠ '\'' := by simp
  have hcomment : ¬ ['/', '*'] <:+: ['#', 'a', '\\', '\n', '/'] := by
    intro h
    exact absurd (h.subset (List.mem_cons_of_mem _ List.mem_cons_self)) (by decide : '*' ∉ _)
  exact ⟨hfault, (tokenize_fault .hlsl _).1 _ hfault, hquotes, hcomment,
    (tokenize_fault .hlsl _).2 hquotes hcomment⟩

end ShaderStyle
