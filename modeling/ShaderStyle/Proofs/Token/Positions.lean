import ShaderStyle.Proofs.Token.DirectiveEnd

/-!
# Where tokens are

Lexing keeps a running position and moves it over one lexeme after the other. `Position.behind` in
contrast looks at the whole text before an offset: it counts the line breaks and measures from the end
of the last one. Both agree at every token (`tokenize_positions`), since no lexeme ends between the two
characters of a line break (`Reads.keepsBreaks`).
-/

namespace ShaderStyle

namespace Text

/-- What stands behind the last line break of a text. -/
def lastLine (t : Text) : Text :=
  (t.reverse.takeWhile fun c => !isBreak c).reverse

/-- The offset falls between the two characters of one line break. -/
def PartsBreak (t : Text) (n : Nat) : Prop :=
  (t.take n).getLast? = some '\r' ∧ (t.drop n).head? = some '\n'

theorem lastLine_append {x y : Text} (h : ∃ c ∈ y, isBreak c = true) :
    lastLine (x ++ y) = lastLine y := by
  rcases h with ⟨c, hc, hbreak⟩
  have hstops : (y.reverse.takeWhile fun c => !isBreak c).length ≠ y.reverse.length := by
    intro hlen
    have heq := (List.takeWhile_sublist fun c => !isBreak c).eq_of_length hlen
    have hmem : c ∈ y.reverse.takeWhile fun c => !isBreak c := by
      rw [heq]
      exact List.mem_reverse.2 hc
    have hnot := List.all_eq_true.1 List.all_takeWhile c hmem
    simp [hbreak] at hnot
  rw [lastLine, List.reverse_append, List.takeWhile_append, if_neg hstops]
  rfl

theorem lastLine_eq_self {x : Text} (h : ∀ c ∈ x, isBreak c = false) : lastLine x = x := by
  have hall : ∀ c ∈ x.reverse, (!isBreak c) = true := by
    intro c hc
    simp [h c (List.mem_reverse.1 hc)]
  have hself : (x.reverse.takeWhile fun c => !isBreak c) = x.reverse := by
    rw [← List.append_nil x.reverse, List.takeWhile_append_of_pos hall]
    rfl
  rw [lastLine, hself, List.reverse_reverse]

theorem lastLine_break {brk x : Text} (hbrk : IsBreakText brk) :
    lastLine (brk ++ x) = lastLine x := by
  by_cases h : ∃ c ∈ x, isBreak c = true
  · exact lastLine_append h
  · have hx : ∀ c ∈ x, isBreak c = false := by
      intro c hc
      rw [← Bool.not_eq_true]
      intro hbreak
      exact h ⟨c, hc, hbreak⟩
    have hall : ∀ c ∈ x.reverse, (!isBreak c) = true := by
      intro c hc
      simp [hx c (List.mem_reverse.1 hc)]
    have hnone : brk.reverse.takeWhile (fun c => !isBreak c) = [] := by
      rcases hbrk with rfl | rfl | rfl <;> rfl
    rw [lastLine_eq_self hx, lastLine, List.reverse_append, List.takeWhile_append_of_pos hall, hnone,
      List.append_nil, List.reverse_reverse]

theorem not_isBreak_of_breakCount {x : Text} (h : breakCount x = 0) : ∀ c ∈ x, isBreak c = false := by
  induction x using break_induction with
  | nil => simp
  | brk b x hb hnext ih =>
    rw [breakCount_break hb hnext] at h
    simp at h
  | char c x hc ih =>
    rw [breakCount_cons hc] at h
    intro z hz
    rcases List.mem_cons.1 hz with rfl | hz
    · exact hc
    · exact ih h z hz

theorem exists_isBreak_of_breakCount {x : Text} (h : breakCount x ≠ 0) :
    ∃ c ∈ x, isBreak c = true := by
  apply Classical.byContradiction
  intro hnone
  apply h
  apply breakCount_eq_zero
  intro c hc
  rw [← Bool.not_eq_true]
  intro hbreak
  exact hnone ⟨c, hc, hbreak⟩

end Text

namespace Position

/-- The position behind a text, from the whole of it: its line breaks are counted, and the column is
measured from the end of the last one. -/
def behind (t : Text) : Position :=
  ⟨Text.breakCount t + 1, (Text.lastLine t).length + 1⟩

/-! ## Moving over a text -/

theorem advance_cons {c : Char} (hc : Text.isBreak c = false) (p : Position) (x : Text) :
    p.advance (c :: x) = p.nextColumn.advance x := by
  have hcr : ∀ more, c = '\r' → x = '\n' :: more → False := by
    rintro _ rfl
    simp [Text.isBreak] at hc
  rw [advance.eq_3 _ _ _ hcr]
  simp [hc]

theorem advance_break {brk x : Text} (hbrk : Text.IsBreakText brk)
    (hnext : brk = ['\r'] → x.head? ≠ some '\n') (p : Position) :
    p.advance (brk ++ x) = p.nextLine.advance x := by
  rcases hbrk with rfl | rfl | rfl
  · rw [List.cons_append, List.nil_append, advance.eq_3]
    · simp [Text.isBreak]
    · simp
  · simp [advance]
  · have hcr : ∀ more, '\r' = '\r' → x = '\n' :: more → False := by
      rintro more - rfl
      exact hnext rfl rfl
    rw [List.cons_append, List.nil_append, advance.eq_3 _ _ _ hcr]
    simp [Text.isBreak]

/-- A text is moved over in two parts, unless a break lies across their border. -/
theorem advance_append {x y : Text} (h : x.getLast? = some '\r' → y.head? ≠ some '\n')
    (p : Position) : p.advance (x ++ y) = (p.advance x).advance y := by
  induction x using Text.break_induction generalizing p with
  | nil => simp [advance]
  | brk b x hb hnext ih =>
    have hborder : b = ['\r'] → (x ++ y).head? ≠ some '\n' := by
      rintro rfl
      cases x with
      | nil => exact h rfl
      | cons c x => exact hnext rfl
    have hlast : x.getLast? = some '\r' → y.head? ≠ some '\n' := by
      intro hx
      apply h
      rw [List.getLast?_append, hx]
      rfl
    rw [List.append_assoc, advance_break hb hborder, advance_break hb hnext, ih hlast]
  | char c x hc ih =>
    have hlast : x.getLast? = some '\r' → y.head? ≠ some '\n' := by
      intro hx
      apply h
      rw [List.getLast?_cons, hx]
      rfl
    rw [List.cons_append, advance_cons hc, advance_cons hc, ih hlast]

/-- Where moving over a text ends. Only the first line goes on from the column at its start. -/
theorem advance_eq (p : Position) (x : Text) :
    p.advance x =
      if Text.breakCount x = 0 then ⟨p.line, p.column + x.length⟩
      else ⟨p.line + Text.breakCount x, (Text.lastLine x).length + 1⟩ := by
  induction x using Text.break_induction generalizing p with
  | nil => simp [advance, Text.breakCount]
  | brk b x hb hnext ih =>
    rw [advance_break hb hnext, ih, Text.breakCount_break hb hnext, Text.lastLine_break hb,
      if_neg (Nat.succ_ne_zero _)]
    split
    · rename_i hnone
      rw [Text.lastLine_eq_self (Text.not_isBreak_of_breakCount hnone), hnone]
      simp [nextLine, Int.add_comm]
    · simp only [nextLine, mk.injEq, and_true]
      omega
  | char c x hc ih =>
    rw [advance_cons hc, ih, Text.breakCount_cons hc]
    split
    · simp only [nextColumn, List.length_cons, mk.injEq, true_and]
      omega
    · rename_i hsome
      rw [← List.singleton_append, Text.lastLine_append (Text.exists_isBreak_of_breakCount hsome)]
      rfl

/-- Moving over a text from its start ends where counting in the whole text says. -/
theorem after_eq_behind (t : Text) : after t = behind t := by
  rw [after, advance_eq, behind, origin]
  split
  · rename_i hnone
    rw [Text.lastLine_eq_self (Text.not_isBreak_of_breakCount hnone), hnone]
    simp [Int.add_comm]
  · simp [Int.add_comm]

end Position

namespace Lexer

/-! ## Ends of lexemes -/

/-- A plain lexeme holds no character that ends one. -/
theorem not_mem_stopChars_of_scanPlain {d : Dialect} {b : Bool} {c : Char} {u t : Text}
    {k : TokenKind} (hc : StartsPlain b c (u ++ t)) (h : scanPlain d c (u ++ t) = (k, u.length)) :
    ∀ z ∈ u, z ∉ stopChars := by
  intro z hz hstop
  rcases List.append_of_mem hz with ⟨v, w, rfl⟩
  have hsplit : v ++ z :: w ++ t = v ++ (z :: (w ++ t)) := by simp
  have hstops : Stops (z :: (w ++ t)) := by simpa using hstop
  rw [hsplit] at hc h
  rw [startsPlain_append_stop b c v hstops] at hc
  rw [scanPlain_append_stop d c v hstops] at h
  have hscan : scan d b c v = .ok (k, (v ++ z :: w).length) := by rw [scan_of_startsPlain hc, h]
  have hle := scan_le hscan
  simp only [List.length_append, List.length_cons] at hle
  omega

theorem OpenString.keepsBreaks {s q : Text} {e : Bool} (h : OpenString s q e) :
    q.getLast? = some '\r' → s.head? ≠ some '\n' := by
  induction h with
  | nil => simp
  | backslash => simp
  | @escapedCrlf q e hq ih =>
    cases q with
    | nil => simp
    | cons z q => simpa [List.getLast?_cons] using ih
  | @escapedChar c q e hc hq ih =>
    cases q with
    | nil => simpa using hc
    | cons z q => simpa [List.getLast?_cons] using ih
  | @char c q e hslash hquote hbreak hq ih =>
    cases q with
    | nil =>
      intro hlast
      simp only [List.getLast?_singleton, Option.some.injEq] at hlast
      subst hlast
      simp [Text.isBreak] at hbreak
    | cons z q => simpa [List.getLast?_cons] using ih

theorem Passes.keepsBreaks {s x : Text} {i e : Bool} (h : Passes s x i e) :
    x.getLast? = some '\r' → s.head? ≠ some '\n' := by
  induction h with
  | nil => simp
  | backslash => simp
  | @openString q e hq =>
    cases q with
    | nil => simp
    | cons z q => simpa [List.getLast?_cons] using hq.keepsBreaks
  | @string q x i e hq hx ih =>
    cases x with
    | nil => simp [List.getLast?_cons, List.getLast?_append]
    | cons z x => simpa [List.getLast?_cons, List.getLast?_append] using ih
  | @continuation brk x i e hbrk hnext hx ih =>
    cases x with
    | nil =>
      intro hlast
      apply hnext
      rcases hbrk with rfl | rfl | rfl <;> simp at hlast ⊢
    | cons z x => simpa [List.getLast?_cons, List.getLast?_append] using ih
  | @escapedChar c x i e hbreak hx ih => simpa [List.getLast?_cons] using ih
  | @comment body x i e hbody hx ih =>
    cases x with
    | nil =>
      rcases commentLength_closes hbody with ⟨v, hv⟩
      rw [List.take_length] at hv
      simp [hv, List.getLast?_cons]
    | cons z x => simpa [List.getLast?_cons, List.getLast?_append] using ih
  | @char c x i e hslash hquote hbreak hcomment hx ih =>
    cases x with
    | nil =>
      intro hlast
      simp only [List.getLast?_singleton, Option.some.injEq] at hlast
      subst hlast
      simp [Text.isBreak] at hbreak
    | cons z x => simpa [List.getLast?_cons] using ih

/-- A literal ends with its quote. -/
theorem getLast?_of_literalLength {quote : Char} {t : Text} {n : Nat}
    (h : literalLength quote t = some n) : (t.take n).getLast? = some quote := by
  fun_induction literalLength quote t generalizing n with
  | case1 => simp at h
  | case2 rest ih =>
    rcases Option.map_eq_some_iff.1 h with ⟨m, hm, rfl⟩
    simp [Nat.add_comm 3 m, List.getLast?_cons, ih hm]
  | case3 c rest _ ih =>
    rcases Option.map_eq_some_iff.1 h with ⟨m, hm, rfl⟩
    simp [Nat.add_comm 2 m, List.getLast?_cons, ih hm]
  | case4 rest =>
    simp only [Option.some.injEq] at h
    subst h
    rfl
  | case5 => simp at h
  | case6 c rest _ _ _ _ ih =>
    rcases Option.map_eq_some_iff.1 h with ⟨m, hm, rfl⟩
    simp [Nat.add_comm 1 m, List.getLast?_cons, ih hm]

/-- No lexeme ends between the two characters of a line break. -/
theorem Reads.keepsBreaks {d : Dialect} {b : Bool} {l : Lexeme} {t : Text} (h : Reads d b l t) :
    l.text.getLast? = some '\r' → t.head? ≠ some '\n' := by
  rcases h.cut with ⟨c, u, rest, n, k, htext, hrest, hn, hk, hcut⟩
  have hnone {x : Text} (hx : ∀ c ∈ x, Text.isBreak c = false) : x.getLast? ≠ some '\r' := by
    intro hlast
    have hbreak := hx '\r' (List.mem_of_getLast? hlast)
    simp [Text.isBreak] at hbreak
  obtain ⟨kind, text⟩ := l
  simp only at htext hk
  subst hk
  cases hcut with
  | whitespace _ =>
    intro hlast
    have hpad := (reads_whitespace_iff.1 h).2.1 '\r' (List.mem_of_getLast? hlast)
    simp [Text.isPad] at hpad
  | lineBreak _ =>
    rcases reads_lineBreak_iff.1 h with ⟨hbreak, hnext⟩
    intro hlast
    apply hnext
    rcases hbreak with rfl | rfl | rfl <;> simp at hlast ⊢
  | directive _ _ =>
    rcases h.exists_hash.2 with ⟨x, rfl⟩
    rcases exists_pads t with ⟨w, r, rfl, hw, hr⟩
    rcases ((reads_directive_iff hw hr).1 h).2.2.2.2 with ⟨i, e, hpasses, -, -⟩
    cases x with
    | nil => simp
    | cons z x => simpa [List.getLast?_cons] using hpasses.keepsBreaks
  | lineComment _ =>
    rcases (reads_lineComment_iff.1 h).2.1 with ⟨y, rfl, hy⟩
    intro hlast
    refine absurd hlast (hnone ?_)
    intro z hz
    rcases List.mem_cons.1 hz with rfl | hz
    · decide
    rcases List.mem_cons.1 hz with rfl | hz
    · decide
    · exact hy z hz
  | blockComment _ =>
    rcases (reads_blockComment_iff.1 h).2 with ⟨body, rfl, hbody⟩
    rcases commentLength_closes hbody with ⟨v, hv⟩
    rw [List.take_length] at hv
    simp [hv, List.getLast?_cons]
  | literal hc hlen =>
    have hlast := getLast?_of_literalLength hlen
    rw [← hrest, ← hn, List.take_left] at hlast
    rw [htext, List.getLast?_cons, hlast]
    rcases hc with rfl | rfl <;> simp
  | plain hc hplain =>
    rw [← hrest, ← hn] at hplain
    rw [← hrest] at hc
    have hu := not_mem_stopChars_of_scanPlain hc hplain
    intro hlast
    rw [htext] at hlast
    refine absurd hlast (hnone ?_)
    intro z hz
    rcases List.mem_cons.1 hz with rfl | hz
    · exact hc.notBreak
    · rw [← Bool.not_eq_true]
      intro hbreak
      exact hu z hz (mem_stopChars_of_isBreak hbreak)

/-! ## Positions of tokens -/

/-- The token stands where its offsets say, and neither of them parts a line break. -/
structure IsPlacedIn (t : Text) (k : Token) : Prop where
  start : k.span.start = .behind (t.take k.offset)
  stop : k.span.stop = .behind (t.take k.stop)
  startWhole : ¬ t.PartsBreak k.offset
  stopWhole : ¬ t.PartsBreak k.stop

theorem not_partsBreak {x y : Text} (h : x.getLast? = some '\r' → y.head? ≠ some '\n') :
    ¬ (x ++ y).PartsBreak x.length := by
  rintro ⟨hlast, hhead⟩
  rw [List.take_left] at hlast
  rw [List.drop_left] at hhead
  exact h hlast hhead

/-- One lexeme after the other is placed behind the text before it. -/
theorem isPlacedIn_place {d : Dialect} {b : Bool} {ls : List Lexeme} (h : IsLexed d b ls)
    (before : Text) (hborder : before.getLast? = some '\r' → (textOf ls).head? ≠ some '\n') :
    ∀ k ∈ place before.length (.after before) ls, IsPlacedIn (before ++ textOf ls) k := by
  induction ls generalizing b before with
  | nil =>
    intro k hk
    rw [place, List.mem_singleton] at hk
    subst hk
    have hwhole := not_partsBreak hborder
    refine ⟨?_, ?_, hwhole, hwhole⟩
    · simp [Position.after_eq_behind]
    · simp [Token.stop, Position.after_eq_behind]
  | cons l ls ih =>
    rcases isLexed_cons.1 h with ⟨hread, hmore⟩
    rcases hread with ⟨c, u, htext, hscan⟩
    have hread : Reads d b l (textOf ls) := ⟨c, u, htext, hscan⟩
    have hsplit : before ++ textOf (l :: ls) = (before ++ l.text) ++ textOf ls := by simp
    have hlength : before.length + l.text.length = (before ++ l.text).length := by simp
    -- the running position is the one behind the text up to the end of the lexeme
    have hadvance : (Position.after before).advance l.text = .after (before ++ l.text) := by
      rw [Position.after, Position.after, Position.advance_append]
      intro hlast
      have := hborder hlast
      simpa [htext] using this
    have hborder' : (before ++ l.text).getLast? = some '\r' → (textOf ls).head? ≠ some '\n' := by
      intro hlast
      apply hread.keepsBreaks
      rw [← hlast, List.getLast?_append, htext, List.getLast?_cons]
      rfl
    rw [place, hadvance, hlength]
    intro k hk
    rcases List.mem_cons.1 hk with rfl | hk
    · refine ⟨?_, ?_, not_partsBreak hborder, ?_⟩
      · simp [Position.after_eq_behind]
      · simp only [Token.stop, hlength, hsplit, List.take_left, Position.after_eq_behind]
      · simp only [Token.stop, hlength, hsplit]
        exact not_partsBreak hborder'
    · rw [hsplit]
      exact ih hmore (before ++ l.text) hborder' k hk

end Lexer

/-- Every token of a text, the end of the file included, stands where counting the line breaks before
it says, and so does its end; and no line break is parted. -/
theorem tokenize_positions (d : Dialect) (t : Text) (tokens : List Token)
    (h : tokenize d t = .ok tokens) : ∀ k ∈ tokens, Lexer.IsPlacedIn t k := by
  rcases Lexer.tokenize_eq_ok_iff.1 h with ⟨ls, hlexed, rfl, rfl⟩
  exact Lexer.isPlacedIn_place hlexed [] (by simp)

/-- A string that goes on behind an escaped line break of two characters. -/
theorem tokenize_positions_string :
    ∃ tokens, tokenize .glsl ['"', '\\', '\r', '\n', '"', '\r', 'x'] = .ok tokens ∧
      ∀ k ∈ tokens, Lexer.IsPlacedIn ['"', '\\', '\r', '\n', '"', '\r', 'x'] k := by
  have htokens : tokenize .glsl ['"', '\\', '\r', '\n', '"', '\r', 'x'] = .ok _ :=
    Lexer.tokenize_eq_ok_iff.2 ⟨[⟨.string, ['"', '\\', '\r', '\n', '"']⟩, ⟨.lineBreak, ['\r']⟩,
      ⟨.word .identifier, ['x']⟩], by decide +kernel, rfl, rfl⟩
  exact ⟨_, htokens, tokenize_positions .glsl _ _ htokens⟩

/-- The string starts on the first line and ends on the second, and the name is on the third. -/
example :
    (tokenize .glsl ['"', '\\', '\r', '\n', '"', '\r', 'x']).toOption.map
        (List.map fun k => (k.span.start, k.span.stop)) =
      some [(⟨1, 1⟩, ⟨2, 2⟩), (⟨2, 2⟩, ⟨3, 1⟩), (⟨3, 1⟩, ⟨3, 2⟩), (⟨3, 2⟩, ⟨3, 2⟩)] := by
  decide +kernel

end ShaderStyle
