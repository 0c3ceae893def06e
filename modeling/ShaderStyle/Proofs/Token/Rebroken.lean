import ShaderStyle.Proofs.Token.Directive

/-!
# Lexemes whose line breaks are written differently

A block comment is read as before when its line breaks are written in another way
(`Reads.blockComment_withEnding`). The units of a directive stay its units (`Passes.withEnding`), and
they do not depend on what follows the directive but for the character right behind it
(`Passes.congr`).
-/

namespace ShaderStyle.Lexer

variable {ending : Text}

/-! ## Block comments -/

theorem head?_withEnding_iff (hending : Text.IsBreakText ending) {x : Text} {z : Char}
    (hz : Text.isBreak z = false) :
    (Text.withEnding ending x).head? = some z ↔ x.head? = some z := by
  rcases Text.cases_break x with rfl | ⟨b, y, rfl, hb, hnext⟩ | ⟨c, y, rfl, hc⟩
  · simp
  · rw [Text.withEnding_break hb hnext]
    obtain ⟨c, u, rfl, hc⟩ := hending.exists_cons
    obtain ⟨c', u', rfl, hc'⟩ := hb.exists_cons
    have h : c ≠ z := by rintro rfl; simp [hc] at hz
    have h' : c' ≠ z := by rintro rfl; simp [hc'] at hz
    simp [h, h']
  · rw [Text.withEnding_cons hc]
    simp

theorem withEnding_eq_nil_iff (hending : Text.IsBreakText ending) {x : Text} :
    Text.withEnding ending x = [] ↔ x = [] := by
  rcases Text.cases_break x with rfl | ⟨b, y, rfl, hb, hnext⟩ | ⟨c, y, rfl, hc⟩
  · simp
  · rw [Text.withEnding_break hb hnext]
    obtain ⟨c, u, rfl, hc⟩ := hending.exists_cons
    obtain ⟨c', u', rfl, hc'⟩ := hb.exists_cons
    simp
  · rw [Text.withEnding_cons hc]
    simp

theorem commentLength_cons {c : Char} {x : Text} (h : c = '*' → x.head? ≠ some '/') :
    commentLength (c :: x) = (commentLength x).map (1 + ·) := by
  apply commentLength.eq_3
  rintro more hc rfl
  exact h hc rfl

theorem commentLength_break {brk : Text} (hbrk : Text.IsBreakText brk) (x : Text) :
    commentLength (brk ++ x) = (commentLength x).map (brk.length + ·) := by
  rcases hbrk with rfl | rfl | rfl
  · simp [commentLength_cons]
  · simp only [List.cons_append, List.nil_append]
    rw [commentLength_cons (by simp), commentLength_cons (by simp)]
    cases commentLength x with
    | none => rfl
    | some n => simp only [Option.map_some, Option.some.injEq, List.length_cons, List.length_nil]; omega
  · simp [commentLength_cons]

theorem commentLength_withEnding (hending : Text.IsBreakText ending) {x : Text}
    (h : commentLength x = some x.length) :
    commentLength (Text.withEnding ending x) = some (Text.withEnding ending x).length := by
  induction x using Text.break_induction with
  | nil => simp [commentLength] at h
  | brk b y hb hnext ih =>
    rw [commentLength_break hb, Option.map_eq_some_iff] at h
    obtain ⟨m, hm, hlen⟩ := h
    have hy : m = y.length := by simp only [List.length_append] at hlen; omega
    rw [Text.withEnding_break hb hnext, commentLength_break hending, ih (hm.trans (by rw [hy]))]
    simp
  | char c y hc ih =>
    rw [Text.withEnding_cons hc]
    by_cases hclose : c = '*' ∧ y.head? = some '/'
    · obtain ⟨rfl, hhead⟩ := hclose
      obtain ⟨z, rfl⟩ := List.head?_eq_some_iff.1 hhead
      simp only [commentLength, List.length_cons, Option.some.injEq] at h
      obtain rfl : z = [] := List.eq_nil_of_length_eq_zero (by omega)
      rw [Text.withEnding_cons (by decide), Text.withEnding_nil]
      rfl
    · have hy : c = '*' → y.head? ≠ some '/' := fun h1 h2 => hclose ⟨h1, h2⟩
      have hy' : c = '*' → (Text.withEnding ending y).head? ≠ some '/' := by
        intro h1 h2
        exact hclose ⟨h1, (head?_withEnding_iff hending (by decide)).1 h2⟩
      rw [commentLength_cons hy, Option.map_eq_some_iff] at h
      obtain ⟨m, hm, hlen⟩ := h
      have hm' : m = y.length := by simp only [List.length_cons] at hlen; omega
      rw [commentLength_cons hy', ih (hm.trans (by rw [hm']))]
      simp [Nat.add_comm]

theorem isDocBlock_withEnding (hending : Text.IsBreakText ending) (body : Text) :
    isDocBlock (Text.withEnding ending ('/' :: '*' :: body)) = isDocBlock ('/' :: '*' :: body) := by
  rw [Text.withEnding_cons (by decide), Text.withEnding_cons (by decide)]
  rcases Text.cases_break body with rfl | ⟨b, y, rfl, hb, hnext⟩ | ⟨c, y, rfl, hc⟩
  · simp
  · -- a comment that starts with a line break documents nothing, however the break is written
    have hplain {e z : Text} (he : Text.IsBreakText e) :
        isDocBlock ('/' :: '*' :: (e ++ z)) = false := by
      rcases he with rfl | rfl | rfl <;> simp [isDocBlock]
    rw [Text.withEnding_break hb hnext, hplain hending, hplain hb]
  · rw [Text.withEnding_cons hc]
    have hslash : Text.withEnding ending y = ['/'] ↔ y = ['/'] := by
      constructor
      · intro h
        have hhead := (head?_withEnding_iff (x := y) hending (z := '/') (by decide)).1 (by rw [h]; rfl)
        obtain ⟨z, rfl⟩ := List.head?_eq_some_iff.1 hhead
        rw [Text.withEnding_cons (by decide)] at h
        rw [(withEnding_eq_nil_iff hending).1 (List.cons.inj h).2]
      · rintro rfl
        rw [Text.withEnding_cons (by decide), Text.withEnding_nil]
    by_cases hstar : c = '*'
    · subst hstar
      by_cases hy : y = ['/']
      · rw [hslash.2 hy, hy]
      · have hdoc {z : Text} (hz : z ≠ ['/']) : isDocBlock ('/' :: '*' :: '*' :: z) = true := by
          simp [isDocBlock]
        rw [hdoc hy, hdoc (fun h => hy (hslash.1 h))]
    · by_cases hbang : c = '!'
      · subst hbang
        simp [isDocBlock]
      · simp [isDocBlock, hstar, hbang]

/-- A block comment is read with its line breaks written in any way. -/
theorem Reads.blockComment_withEnding {d : Dialect} {b b' doc : Bool} {x t : Text} (t' : Text)
    (hending : Text.IsBreakText ending) (h : Reads d b ⟨.blockComment doc, x⟩ t) :
    Reads d b' ⟨.blockComment doc, Text.withEnding ending x⟩ t' := by
  obtain ⟨rfl, body, rfl, hlen⟩ := reads_blockComment_iff.1 h
  refine reads_blockComment_iff.2 ⟨(isDocBlock_withEnding hending body).symm,
    Text.withEnding ending body, ?_, commentLength_withEnding hending hlen⟩
  rw [Text.withEnding_cons (by decide), Text.withEnding_cons (by decide)]

theorem exists_of_commentLength {body : Text} (h : commentLength body = some body.length) :
    ∃ mid, body = mid ++ ['*', '/'] := by
  fun_induction commentLength body with
  | case1 => simp at h
  | case2 rest =>
    simp only [Option.some.injEq, List.length_cons] at h
    have hrest : rest = [] := List.eq_nil_of_length_eq_zero (by omega)
    exact ⟨[], by rw [hrest]; rfl⟩
  | case3 c rest _ ih =>
    obtain ⟨n, hn, hlen⟩ := Option.map_eq_some_iff.1 h
    simp only [List.length_cons] at hlen
    obtain ⟨mid, hmid⟩ := ih (by rw [hn, show n = rest.length by omega])
    exact ⟨c :: mid, by rw [hmid]; rfl⟩

/-- The line breaks in the body of a block comment are those between its delimiters. -/
theorem Reads.commentBody_withEnding {d : Dialect} {b doc : Bool} {x t : Text}
    (h : Reads d b ⟨.blockComment doc, x⟩ t) (ending : Text) :
    Lexeme.commentBody ⟨.blockComment doc, Text.withEnding ending x⟩ =
      Text.withEnding ending (Lexeme.commentBody ⟨.blockComment doc, x⟩) := by
  obtain ⟨rfl, body, rfl, hlen⟩ := reads_blockComment_iff.1 h
  obtain ⟨mid, rfl⟩ := exists_of_commentLength hlen
  have hinner (u : Text) : ('/' :: '*' :: (u ++ ['*', '/'])).take
      (('/' :: '*' :: (u ++ ['*', '/'])).length - 2) = '/' :: '*' :: u := by
    simp
  have hsplit : Text.withEnding ending ('/' :: '*' :: (mid ++ ['*', '/'])) =
      '/' :: '*' :: (Text.withEnding ending mid ++ ['*', '/']) := by
    rw [Text.withEnding_cons (by decide), Text.withEnding_cons (by decide),
      Text.withEnding_append (by simp), Text.withEnding_cons (by decide),
      Text.withEnding_cons (by decide), Text.withEnding_nil]
  simp only [Lexeme.commentBody]
  rw [hsplit, hinner, hinner]
  cases hdoc : isDocBlock ('/' :: '*' :: (mid ++ ['*', '/'])) with
  | false => rfl
  | true =>
    -- the mark of documentation is no line break
    obtain ⟨c, m, rfl, hc⟩ : ∃ c m, mid = c :: m ∧ Text.isBreak c = false := by
      cases mid with
      | nil => simp [isDocBlock] at hdoc
      | cons c m =>
        refine ⟨c, m, rfl, ?_⟩
        rw [← Bool.not_eq_true]
        intro hc
        simp only [Text.isBreak, Bool.or_eq_true, decide_eq_true_eq] at hc
        rcases hc with rfl | rfl
        · simp [isDocBlock] at hdoc
        · simp [isDocBlock] at hdoc
    rw [Text.withEnding_cons hc]
    rfl

/-! ## Units of a directive -/

/-- The first character behind `x` is one behind `x` as well when another text follows, if it can
only be so at the end of `x`. -/
theorem head?_append_of {x s s' : Text} {z : Char} (h : s'.head? = some z → s.head? = some z)
    (hx : (x ++ s').head? = some z) : (x ++ s).head? = some z := by
  cases x with
  | nil => exact h hx
  | cons c x => exact hx

theorem OpenString.congr {s s' q : Text} {e : Bool} (h : OpenString s q e)
    (hlf : s'.head? = some '\n' → s.head? = some '\n') : OpenString s' q e := by
  induction h with
  | nil => exact .nil
  | backslash => exact .backslash
  | escapedCrlf _ ih => exact .escapedCrlf ih
  | escapedChar hc _ ih => exact .escapedChar (fun hcr hx => hc hcr (head?_append_of hlf hx)) ih
  | char h1 h2 h3 _ ih => exact .char h1 h2 h3 ih

/-- The units of a directive are the same in front of another text that does not start with a
character that could belong to the last of them. -/
theorem Passes.congr {s s' x : Text} {i e : Bool} (h : Passes s x i e)
    (hslash : s'.head? = some '/' → s.head? = some '/')
    (hstar : s'.head? = some '*' → s.head? = some '*')
    (hlf : s'.head? = some '\n' → s.head? = some '\n') : Passes s' x i e := by
  induction h with
  | nil => exact .nil
  | backslash => exact .backslash
  | openString hq => exact .openString (hq.congr hlf)
  | string hq _ ih => exact .string (hq.congr (by simp)) ih
  | continuation hbrk hnext _ ih =>
    exact .continuation hbrk (fun hcr hx => hnext hcr (head?_append_of hlf hx)) ih
  | escapedChar hbreak _ ih => exact .escapedChar hbreak ih
  | comment hbody _ ih => exact .comment hbody ih
  | char h1 h2 h3 hcomment _ ih =>
    refine .char h1 h2 h3 (fun hc => ⟨?_, ?_⟩) ih
    · exact fun hx => (hcomment hc).1 (head?_append_of hslash hx)
    · exact fun hx => (hcomment hc).2 (head?_append_of hstar hx)

/-- Nothing that starts with a line feed stands behind breaks written as carriage returns. -/
theorem head?_withEnding_append {s : Text} (hending : Text.IsBreakText ending) (x : Text)
    (hcr : ending = ['\r'] → s.head? ≠ some '\n') :
    ending = ['\r'] → (Text.withEnding ending x ++ s).head? ≠ some '\n' := by
  intro h
  have hx := Text.head?_withEnding_cr (x := x) hending h
  cases hw : Text.withEnding ending x with
  | nil => exact hcr h
  | cons c u =>
    rw [hw] at hx
    exact hx

theorem OpenString.escapedBreak {s q brk : Text} {e : Bool} (hbrk : Text.IsBreakText brk)
    (hnext : brk = ['\r'] → (q ++ s).head? ≠ some '\n') (h : OpenString s q e) :
    OpenString s ('\\' :: (brk ++ q)) e := by
  rcases hbrk with rfl | rfl | rfl
  · exact .escapedChar (by simp) h
  · exact .escapedCrlf h
  · exact .escapedChar (fun _ => hnext rfl) h

theorem OpenString.withEnding {s s' q : Text} {e : Bool} (h : OpenString s q e)
    (hending : Text.IsBreakText ending) (hcr : ending = ['\r'] → s'.head? ≠ some '\n') :
    OpenString s' (Text.withEnding ending q) e := by
  induction h with
  | nil => rw [Text.withEnding_nil]; exact .nil
  | backslash =>
    rw [Text.withEnding_cons (by decide), Text.withEnding_nil]
    exact .backslash
  | @escapedCrlf q e _ ih =>
    have hbreak : Text.withEnding ending ('\r' :: '\n' :: q) = ending ++ Text.withEnding ending q :=
      Text.withEnding_break (.inr (.inl rfl)) (by simp)
    rw [Text.withEnding_cons (by decide), hbreak]
    exact .escapedBreak hending (head?_withEnding_append hending q hcr) ih
  | @escapedChar c q e hc _ ih =>
    rw [Text.withEnding_cons (by decide)]
    by_cases hbreak : Text.isBreak c = true
    · have hbrk : Text.IsBreakText [c] := by
        simp only [Text.isBreak, Bool.or_eq_true, decide_eq_true_eq] at hbreak
        rcases hbreak with rfl | rfl
        · exact .inr (.inr rfl)
        · exact .inl rfl
      have hnext : [c] = ['\r'] → q.head? ≠ some '\n' := by
        intro h hq
        obtain ⟨z, rfl⟩ := List.head?_eq_some_iff.1 hq
        exact hc (List.cons.inj h).1 rfl
      have hw : Text.withEnding ending (c :: q) = ending ++ Text.withEnding ending q :=
        Text.withEnding_break hbrk hnext
      rw [hw]
      exact .escapedBreak hending (head?_withEnding_append hending q hcr) ih
    · simp only [Bool.not_eq_true] at hbreak
      rw [Text.withEnding_cons hbreak]
      refine .escapedChar ?_ ih
      rintro rfl
      simp [Text.isBreak] at hbreak
  | char h1 h2 h3 _ ih =>
    rw [Text.withEnding_cons h3]
    exact .char h1 h2 h3 ih

/-- The units of a directive stay units when its line breaks are written in another way. -/
theorem Passes.withEnding {s s' x : Text} {i e : Bool} (h : Passes s x i e)
    (hending : Text.IsBreakText ending) (hslash : s'.head? = some '/' → s.head? = some '/')
    (hstar : s'.head? = some '*' → s.head? = some '*')
    (hcr : ending = ['\r'] → s'.head? ≠ some '\n') :
    Passes s' (Text.withEnding ending x) i e := by
  have hhead {y : Text} {z : Char} (hz : Text.isBreak z = false)
      (hs : s'.head? = some z → s.head? = some z)
      (hy : (Text.withEnding ending y ++ s').head? = some z) : (y ++ s).head? = some z := by
    cases hw : Text.withEnding ending y with
    | nil =>
      rw [(withEnding_eq_nil_iff hending).1 hw]
      rw [hw] at hy
      exact hs hy
    | cons c u =>
      have hy' : (Text.withEnding ending y).head? = some z := by
        rw [hw] at hy ⊢
        exact hy
      obtain ⟨v, rfl⟩ := List.head?_eq_some_iff.1 ((head?_withEnding_iff hending hz).1 hy')
      rfl
  induction h with
  | nil => rw [Text.withEnding_nil]; exact .nil
  | backslash =>
    rw [Text.withEnding_cons (by decide), Text.withEnding_nil]
    exact .backslash
  | openString hq =>
    rw [Text.withEnding_cons (by decide)]
    exact .openString (hq.withEnding hending hcr)
  | @string q x i e hq _ ih =>
    rw [Text.withEnding_cons (by decide), Text.withEnding_append (by simp),
      Text.withEnding_cons (by decide)]
    exact .string (hq.withEnding hending (by simp)) ih
  | @continuation brk x i e hbrk hnext _ ih =>
    have hx : brk = ['\r'] → x.head? ≠ some '\n' := by
      intro h hx
      obtain ⟨z, rfl⟩ := List.head?_eq_some_iff.1 hx
      exact hnext h rfl
    rw [Text.withEnding_cons (by decide), Text.withEnding_break hbrk hx]
    exact .continuation hending (head?_withEnding_append hending x hcr) ih
  | @escapedChar c x i e hbreak _ ih =>
    rw [Text.withEnding_cons hbreak] at ih
    rw [Text.withEnding_cons (by decide), Text.withEnding_cons hbreak]
    exact .escapedChar hbreak ih
  | @comment body x i e hbody _ ih =>
    have hlast : body.getLast? = some '\r' → x.head? ≠ some '\n' := by
      intro h
      obtain ⟨v, hv⟩ := commentLength_closes hbody
      rw [List.take_length] at hv
      rw [hv] at h
      simp at h
    rw [Text.withEnding_cons (by decide), Text.withEnding_cons (by decide),
      Text.withEnding_append hlast]
    exact .comment (commentLength_withEnding hending hbody) ih
  | char h1 h2 h3 hcomment _ ih =>
    rw [Text.withEnding_cons h3]
    refine .char h1 h2 h3 (fun hc => ⟨?_, ?_⟩) ih
    · exact fun hx => (hcomment hc).1 (hhead (by decide) hslash hx)
    · exact fun hx => (hcomment hc).2 (hhead (by decide) hstar hx)

/-- A text that ends in a backslash that takes along what follows ends in a backslash. -/
theorem getLast?_of_openString {s q : Text} (h : OpenString s q true) :
    q.getLast? = some '\\' := by
  generalize he : true = e at h
  induction h with
  | nil => simp at he
  | backslash => rfl
  | escapedCrlf _ ih => simp [List.getLast?_cons, ih he]
  | escapedChar _ _ ih => simp [List.getLast?_cons, ih he]
  | char _ _ _ _ ih => simp [List.getLast?_cons, ih he]

theorem Passes.getLast?_of_escaped {s x : Text} {i : Bool} (h : Passes s x i true) :
    x.getLast? = some '\\' := by
  generalize he : true = e at h
  induction h with
  | nil => simp at he
  | backslash => rfl
  | openString hq =>
    subst he
    simp [List.getLast?_cons, getLast?_of_openString hq]
  | string _ _ ih => simp [List.getLast?_cons, List.getLast?_append, ih he]
  | continuation _ _ _ ih => simp [List.getLast?_cons, List.getLast?_append, ih he]
  | escapedChar _ _ ih => simp [List.getLast?_cons, ← ih he]
  | comment _ _ ih => simp [List.getLast?_cons, List.getLast?_append, ih he]
  | char _ _ _ _ _ ih => simp [List.getLast?_cons, ih he]

end ShaderStyle.Lexer
