import ShaderStyle.Proofs.Layout.Sound

/-!
# Reading the gaps of a formatted page

The layout that formatting leaves between two items is read back lexeme by lexeme (`readsAll_newGap`),
and lexing is at the start of a line behind it where it was before, except before a brace that was
placed (`breaks_newGap`).
-/

namespace ShaderStyle

namespace Lexer

variable {d : Dialect}

/-! ## Layout and first characters -/

/-- Layout is read by its own characters and the next one. -/
theorem Reads.layout_congr {b b' : Bool} {l : Lexeme} {t t' : Text} (hl : l.kind.isLayout = true)
    (hhead : t'.head? = t.head?) (h : Reads d b l t) : Reads d b' l t' := by
  obtain ⟨kind, text⟩ := l
  cases kind <;> simp [TokenKind.isLayout] at hl
  · rw [reads_whitespace_iff] at h ⊢
    rwa [hhead]
  · rw [reads_lineBreak_iff] at h ⊢
    rwa [hhead]

/-- A lexeme that is read is not empty. -/
theorem Reads.text_ne_nil {b : Bool} {l : Lexeme} {t : Text} (h : Reads d b l t) : l.text ≠ [] := by
  obtain ⟨c, u, hl, -⟩ := h
  simp [hl]

/-- The first character of a content lexeme is no layout. -/
theorem Reads.head_of_item {b : Bool} {l : Lexeme} {t : Text} (h : Reads d b l t)
    (hl : l.kind.isLayout = false) :
    ∀ c ∈ l.text.head?, Text.isPad c = false ∧ Text.isBreak c = false := by
  obtain ⟨c, u, rest, n, k, htext, -, -, hk, hcut⟩ := h.cut
  rw [htext]
  rw [hk] at hl
  intro z hz
  simp only [List.head?_cons, Option.mem_some_iff] at hz
  subst hz
  cases hcut with
  | whitespace _ => simp [TokenKind.isLayout] at hl
  | lineBreak _ => simp [TokenKind.isLayout] at hl
  | directive _ _ => decide
  | lineComment _ => decide
  | blockComment _ => decide
  | literal hc _ => rcases hc with rfl | rfl <;> decide
  | plain hc _ => exact ⟨hc.notPad, hc.notBreak⟩

/-- The first character of layout ends a plain lexeme. -/
theorem Reads.stops_of_layout {b : Bool} {l : Lexeme} {t : Text} (h : Reads d b l t)
    (hl : l.kind.isLayout = true) (u : Text) : Stops (l.text ++ u) := by
  obtain ⟨kind, text⟩ := l
  cases kind <;> simp [TokenKind.isLayout] at hl
  · obtain ⟨hne, hpads, -⟩ := reads_whitespace_iff.1 h
    obtain ⟨c, w, rfl⟩ := List.exists_cons_of_ne_nil hne
    exact (stops_cons _ _).2 (mem_stopChars_of_isPad (hpads c (by simp)))
  · obtain ⟨c, w, rfl, hc⟩ := (reads_lineBreak_iff.1 h).1.exists_cons
    exact (stops_cons _ _).2 (mem_stopChars_of_isBreak hc)

end Lexer

namespace Layout

open Lexer

variable {d : Dialect}

/-! ## Reading several lexemes -/

/-- The scanner cuts off the lexemes, one after the other, where `t` follows them. -/
def ReadsAll (d : Dialect) : Bool → List Lexeme → Text → Prop
  | _, [], _ => True
  | b, l :: ls, t => Reads d b l (textOf ls ++ t) ∧ ReadsAll d (lineStartAfter b l.kind) ls t

theorem lineStartAfter_item (b : Bool) {l : Lexeme} (h : l.kind.isLayout = false) :
    lineStartAfter b l.kind = false := by
  cases hk : l.kind <;> simp [hk, TokenKind.isLayout] at h <;> rfl

/-- A gap and what follows it are lexed if the gap is read in front of it. -/
theorem isLexed_gap_append {b : Bool} {g ls : List Lexeme} (hg : ∀ l ∈ g, l.kind.isLayout = true) :
    IsLexed d b (g ++ ls) ↔
      ReadsAll d b g (textOf ls) ∧ IsLexed d (b || breaks g ≠ 0) ls := by
  induction g generalizing b with
  | nil => simp [ReadsAll, breaks]
  | cons l g ih =>
    rw [List.cons_append, isLexed_cons, textOf_append, ih fun l hl => hg l (by simp [hl]), ReadsAll,
      and_assoc]
    have hstart : (lineStartAfter b l.kind || decide (breaks g ≠ 0)) =
        (b || decide (breaks (l :: g) ≠ 0)) := by
      have hl := hg l (by simp)
      rw [breaks_cons]
      cases hk : l.kind <;> simp [hk, TokenKind.isLayout] at hl <;>
        simp [lineStartAfter, Lexeme.isNewline, hk]
    rw [hstart]

theorem readsAll_congr {b b' : Bool} {g : List Lexeme} {t t' : Text}
    (hg : ∀ l ∈ g, l.kind.isLayout = true) (hhead : t'.head? = t.head?) (h : ReadsAll d b g t) :
    ReadsAll d b' g t' := by
  induction g generalizing b b' with
  | nil => trivial
  | cons l g ih =>
    refine ⟨h.1.layout_congr (hg l (by simp)) ?_, ih (fun l hl => hg l (by simp [hl])) h.2⟩
    cases textOf g with
    | nil => exact hhead
    | cons c u => rfl

/-! ## New gaps -/

/-- Whether nothing or a content lexeme starts here. -/
def StartsItem (t : Text) : Prop :=
  ∀ c ∈ t.head?, Text.isPad c = false ∧ Text.isBreak c = false

theorem StartsItem.head?_ne {t : Text} (h : StartsItem t) : t.head? ≠ some '\n' := by
  intro hhead
  have := (h '\n' hhead).2
  simp [Text.isBreak] at this

theorem readsAll_blanks {b : Bool} {w t : Text} (hw : ∀ c ∈ w, Text.isPad c = true)
    (ht : StartsItem t) : ReadsAll d b (blanks w) t := by
  unfold blanks
  split
  · trivial
  · rename_i hne
    exact ⟨reads_whitespace_iff.2 ⟨hne, hw, fun c hc => (ht c hc).1⟩, trivial⟩

theorem readsAll_newlines (rules : RuleSet) {b : Bool} {g : List Lexeme} {t : Text} (n : Nat)
    (hg : ∀ b, ReadsAll d b g t) (hhead : (textOf g ++ t).head? ≠ some '\n') :
    ReadsAll d b (List.replicate n (newline rules) ++ g) t := by
  induction n generalizing b with
  | zero => exact hg b
  | succ n ih =>
    rw [List.replicate_succ, List.cons_append]
    refine ⟨reads_lineBreak_iff.2 ⟨Text.isBreakText_lineEnding _, ?_⟩, ih⟩
    intro hcr
    cases n with
    | zero => simpa using hhead
    | succ n =>
      rw [List.replicate_succ, List.cons_append, textOf_cons, newline, hcr]
      simp

theorem head?_blanks {w t : Text} (hw : ∀ c ∈ w, Text.isPad c = true) (ht : StartsItem t) :
    (textOf (blanks w) ++ t).head? ≠ some '\n' := by
  intro hhead
  rw [textOf_blanks] at hhead
  cases w with
  | nil => exact ht.head?_ne hhead
  | cons c w =>
    have hc := hw c (by simp)
    simp only [List.cons_append, List.head?_cons, Option.some.injEq] at hhead
    subst hhead
    simp [Text.isPad] at hc

theorem isPad_levels (i : Indentation) (n : Nat) : ∀ c ∈ i.levels n, Text.isPad c = true := by
  intro c hc
  obtain ⟨u, hu, hc⟩ := List.mem_flatten.1 hc
  rw [List.eq_of_mem_replicate hu] at hc
  cases i <;> simp [Indentation.unit] at hc <;> rw [hc] <;> decide

theorem isPad_indent (rules : RuleSet) (here : Place) (c : Cell) :
    ∀ z ∈ (here.indent rules c).text, Text.isPad z = true := by
  unfold Place.indent indentFor
  split
  · simp only
    split
    · exact isPad_levels _ _
    · simp
  · exact isPad_levels _ _

theorem isPad_edge {rules : RuleSet} {cells : List Cell} {i : Nat} {t : Text}
    (h : edgesOf rules cells i = some t) : ∀ c ∈ t, Text.isPad c = true := by
  unfold edgesOf edgeBlanks at h
  split at h
  · simp only [Option.some.injEq] at h
    simp [← h]
  · split at h
    · simp only [Option.some.injEq] at h
      rw [← h, innerBlanks]
      split
      · simp [Text.isPad]
      · simp
    · simp at h

theorem exists_lastBlanks (g : List Lexeme) :
    ∃ xs, g = xs ++ lastBlanks g ∧ ∀ l ∈ lastBlanks g, l.isNewline = false := by
  refine ⟨(g.reverse.dropWhile fun l => !l.isNewline).reverse, ?_, ?_⟩
  · rw [lastBlanks, ← List.reverse_append, List.takeWhile_append_dropWhile, List.reverse_reverse]
  · intro l hl
    have := List.all_eq_true.1 List.all_takeWhile l (List.mem_reverse.1 hl)
    simpa using this

/-- Blanks behind the last line break of a gap that was read are read on their own. -/
theorem readsAll_lastBlanks {b b' : Bool} {g : List Lexeme} {t : Text}
    (hg : ∀ l ∈ g, l.kind.isLayout = true) (h : ReadsAll d b g t) :
    ReadsAll d b' (lastBlanks g) t := by
  obtain ⟨xs, hxs, -⟩ := exists_lastBlanks g
  generalize lastBlanks g = ys at hxs
  subst hxs
  induction xs generalizing b with
  | nil => exact readsAll_congr (by simpa using hg) rfl h
  | cons x xs ih => exact ih (fun l hl => hg l (by simp at hl ⊢; exact .inr hl)) h.2

theorem head?_of_blanks {b : Bool} {g : List Lexeme} {t : Text}
    (hg : ∀ l ∈ g, l.kind.isLayout = true) (hblanks : ∀ l ∈ g, l.isNewline = false)
    (h : ReadsAll d b g t) (ht : StartsItem t) : (textOf g ++ t).head? ≠ some '\n' := by
  cases g with
  | nil => exact ht.head?_ne
  | cons l g =>
    obtain ⟨kind, text⟩ := l
    have hl := hg ⟨kind, text⟩ (by simp)
    have hnl := hblanks ⟨kind, text⟩ (by simp)
    cases kind <;> simp [TokenKind.isLayout, Lexeme.isNewline] at hl hnl
    obtain ⟨hne, hpads, -⟩ := reads_whitespace_iff.1 h.1
    obtain ⟨c, w, rfl⟩ := List.exists_cons_of_ne_nil hne
    intro hhead
    have hc := hpads c (by simp)
    simp only [textOf_cons, List.cons_append, List.head?_cons, Option.some.injEq] at hhead
    subst hhead
    simp [Text.isPad] at hc

section NewGap

variable {rules : RuleSet} {edges : Nat → Option Text} {here : Place} {c : Cell}

theorem layout_newGap (hsound : c.IsSound edges here) :
    ∀ l ∈ newGap rules edges here c, l.kind.isLayout = true := by
  have hblanks (w : Text) : ∀ l ∈ blanks w, l.kind.isLayout = true := by
    intro l hl
    unfold blanks at hl
    split at hl
    · simp at hl
    · rw [List.mem_singleton.1 hl]
      rfl
  have hbreaks : ∀ l ∈ newBreaks rules here.start c.gap, l.kind.isLayout = true := by
    intro l hl
    rw [List.eq_of_mem_replicate hl]
    rfl
  have hlast : ∀ l ∈ lastBlanks c.gap, l.kind.isLayout = true := by
    intro l hl
    obtain ⟨xs, hxs, -⟩ := exists_lastBlanks c.gap
    exact hsound.gap l (by rw [hxs]; simp [hl])
  intro l hl
  unfold newGap at hl
  split at hl
  · exact hsound.gap l hl
  split at hl
  · split at hl
    · exact hblanks _ l hl
    · rcases List.mem_cons.1 hl with rfl | hl
      · rfl
      · exact hblanks _ l hl
  split at hl
  · rcases List.mem_append.1 hl with hl | hl
    · exact hbreaks l hl
    · split at hl
      · exact hlast l hl
      · exact hblanks _ l hl
  split at hl
  · exact hblanks _ l hl
  · exact hsound.gap l hl

/-- The new gap is read where an item follows that starts as the one of the source does. -/
theorem readsAll_newGap (hsound : c.IsSound edges here)
    (hpads : ∀ t, edges here.index = some t → ∀ z ∈ t, Text.isPad z = true) {b b' : Bool}
    {t t' : Text} (hread : ReadsAll d b c.gap t) (ht : StartsItem t) (hhead : t'.head? = t.head?) :
    ReadsAll d b' (newGap rules edges here c) t' := by
  have ht' : StartsItem t' := by
    unfold StartsItem at ht ⊢
    rwa [hhead]
  have hindent := isPad_indent rules here c
  have hold {b : Bool} : ReadsAll d b c.gap t' := readsAll_congr hsound.gap hhead hread
  unfold newGap
  split
  · exact hold
  split
  · split
    · exact readsAll_blanks (by simp [Text.isPad]) ht'
    · exact readsAll_newlines rules 1 (fun b => readsAll_blanks hindent ht') (head?_blanks hindent ht')
  split
  · split
    · obtain ⟨xs, hxs, hblanks⟩ := exists_lastBlanks c.gap
      have hlayout : ∀ l ∈ lastBlanks c.gap, l.kind.isLayout = true := by
        intro l hl
        exact hsound.gap l (by rw [hxs]; simp [hl])
      have hlast {b : Bool} : ReadsAll d b (lastBlanks c.gap) t' :=
        readsAll_lastBlanks (b := true) hsound.gap hold
      exact readsAll_newlines rules _ (fun b => hlast)
        (head?_of_blanks (b := true) hlayout hblanks hlast ht')
    · exact readsAll_newlines rules _ (fun b => readsAll_blanks hindent ht')
        (head?_blanks hindent ht')
  split
  · rename_i w hw
    exact readsAll_blanks (hpads w hw) ht'
  · exact hold

theorem breaks_blanks (w : Text) : breaks (blanks w) = 0 := by
  rw [breaks, List.countP_eq_zero]
  intro l hl
  simp [not_isNewline_blanks l hl]

theorem breaks_append (g h : List Lexeme) : breaks (g ++ h) = breaks g + breaks h := by
  simp [breaks]

theorem breaks_replicate (n : Nat) : breaks (List.replicate n (newline rules)) = n := by
  simp [breaks, List.countP_replicate, Lexeme.isNewline, newline]

/-- Formatting puts an item at the start of a line only where it was there, or is a placed brace. -/
theorem breaks_newGap (hplaced : c.isPlaced here = false) :
    (here.start || breaks (newGap rules edges here c) ≠ 0) = (here.start || breaks c.gap ≠ 0) := by
  unfold newGap
  split
  · rfl
  rw [if_neg (by simp [hplaced])]
  split
  · rename_i hline
    rw [hline]
    cases hstart : here.start with
    | true => rfl
    | false =>
      have hbreaks : breaks c.gap ≠ 0 := by simpa [hstart] using hline
      rw [newBreaks, breaks_append, breaks_replicate, breaksLeft, if_neg (by simp), if_neg hbreaks]
      simp
  · rename_i hline
    split
    · rw [breaks_blanks]
      simp only [Bool.not_eq_true] at hline
      rw [hline]
      simp only [Bool.or_eq_false_iff] at hline
      simp [hline.1]
    · rfl

end NewGap

end Layout

end ShaderStyle
