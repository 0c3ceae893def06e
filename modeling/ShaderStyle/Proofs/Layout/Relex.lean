import ShaderStyle.Proofs.Layout.Gaps

/-!
# Lexing a formatted page

The lexemes of a formatted page are what lexing gives for its text (`isLexed_formatted`), unless a
directive that carries on is put right before a line break. A plain lexeme is read as before, since the
text behind it agrees with that of the source up to a blank, a line break or a bracket (`alike_rest`);
a line comment and a directive still stand before what ended them.
-/

namespace ShaderStyle.Layout

open Lexer

variable {d : Dialect} {rules : RuleSet} {edges : Nat → Option Text}

/-! ## Items -/

theorem head?_newItem {b : Bool} {l : Lexeme} {t : Text} (h : Reads d b l t) (rules : RuleSet)
    (kept : Bool) : (newItem rules kept l).text.head? = l.text.head? := by
  obtain ⟨kind, text⟩ := l
  unfold newItem
  split
  · rfl
  · split
    · rename_i doc hk
      simp only at hk
      subst hk
      obtain ⟨-, body, rfl, -⟩ := reads_blockComment_iff.1 h
      simp only
      rw [Text.withEnding_cons (by decide)]
      rfl
    · rename_i name hk
      simp only at hk
      subst hk
      obtain ⟨-, x, rfl⟩ := h.exists_hash
      simp only
      rw [Text.withEnding_cons (by decide)]
      rfl
    · rfl

theorem kind_newItem (rules : RuleSet) (kept : Bool) (l : Lexeme) :
    (newItem rules kept l).kind = l.kind := by
  unfold newItem
  split
  · rfl
  · split <;> rfl

/-! ## What stands behind a plain lexeme -/

theorem alike_withEnding {e t t' : Text} (he : Text.IsBreakText e) (x : Text) (h : Alike t t') :
    Alike (x ++ t) (Text.withEnding e x ++ t') := by
  have hstops {e y : Text} (he : Text.IsBreakText e) : Stops (e ++ y) := by
    obtain ⟨c, u, rfl, hc⟩ := he.exists_cons
    exact (stops_cons _ _).2 (mem_stopChars_of_isBreak hc)
  induction x using Text.break_induction with
  | nil => simpa using h
  | brk b y hb hnext _ =>
    rw [Text.withEnding_break hb hnext, List.append_assoc, List.append_assoc]
    exact .of_stops (hstops hb) (hstops he)
  | char c y hc ih =>
    rw [Text.withEnding_cons hc]
    exact ih.append_left [c]

theorem alike_newItem {t t' : Text} (kept : Bool) (l : Lexeme) (h : Alike t t') :
    Alike (l.text ++ t) ((newItem rules kept l).text ++ t') := by
  unfold newItem
  split
  · exact h.append_left _
  · split
    · exact alike_withEnding (Text.isBreakText_lineEnding _) _ h
    · exact alike_withEnding (Text.isBreakText_lineEnding _) _ h
    · exact h.append_left _

theorem stops_gap {b : Bool} {g : List Lexeme} {t : Text} (hg : ∀ l ∈ g, l.kind.isLayout = true)
    (h : ReadsAll d b g t) (hne : g ≠ []) (u : Text) : Stops (textOf g ++ u) := by
  cases g with
  | nil => exact absurd rfl hne
  | cons l g =>
    rw [textOf_cons, List.append_assoc]
    exact h.1.stops_of_layout (hg l (by simp)) _

theorem stops_newTail {b : Bool} {g : List Lexeme} (hg : ∀ l ∈ g, l.kind.isLayout = true)
    (h : ReadsAll d b g []) (start inside : Bool) : Stops (textOf (newTail rules start inside g)) := by
  unfold newTail
  split
  · cases g with
    | nil => exact stops_nil
    | cons l g => simpa using stops_gap hg h (by simp) []
  · unfold newBreaks
    cases breaksLeft rules start (breaks g) with
    | zero => exact stops_nil
    | succ n =>
      obtain ⟨c, u, he, hc⟩ := (Text.isBreakText_lineEnding rules.lineEnding).exists_cons
      rw [List.replicate_succ, textOf_cons, newline, he]
      exact (stops_cons _ _).2 (mem_stopChars_of_isBreak hc)

theorem textOf_cons_cells (c : Cell) (cells : List Cell) (tail : List Lexeme) :
    textOf ((c :: cells).flatMap Cell.lexemes ++ tail) =
      textOf c.gap ++ (c.item.text ++ textOf (cells.flatMap Cell.lexemes ++ tail)) := by
  simp [Cell.lexemes]

theorem textOf_newCells_cons (here : Place) (c : Cell) (cells : List Cell) (tail : List Lexeme) :
    textOf ((newCells rules edges here (c :: cells)).flatMap Cell.lexemes ++ tail) =
      textOf (newGap rules edges here c) ++ ((newItem rules c.kept c.item).text ++
        textOf ((newCells rules edges (here.after rules c) cells).flatMap Cell.lexemes ++ tail)) := by
  rw [newCells, textOf_cons_cells]
  rfl

/-- The lexemes of a cell are read, and what follows it is lexed from the middle of a line on. -/
theorem isLexed_cell {b : Bool} {here : Place} {c : Cell} {more : List Cell} {tail : List Lexeme}
    (hc : c.IsSound edges here)
    (h : IsLexed d b ((c :: more).flatMap Cell.lexemes ++ tail)) :
    ReadsAll d b c.gap (c.item.text ++ textOf (more.flatMap Cell.lexemes ++ tail)) ∧
      Reads d (b || breaks c.gap ≠ 0) c.item (textOf (more.flatMap Cell.lexemes ++ tail)) ∧
        IsLexed d false (more.flatMap Cell.lexemes ++ tail) := by
  have hsplit : (c :: more).flatMap Cell.lexemes ++ tail =
      c.gap ++ (c.item :: (more.flatMap Cell.lexemes ++ tail)) := by
    simp [Cell.lexemes]
  rw [hsplit, isLexed_gap_append hc.gap, isLexed_cons, lineStartAfter_item _ hc.item] at h
  exact h

theorem readsAll_tail {b : Bool} {tail : List Lexeme} (htail : ∀ l ∈ tail, l.kind.isLayout = true)
    (h : IsLexed d b tail) : ReadsAll d b tail [] := by
  rw [← List.append_nil tail, isLexed_gap_append htail] at h
  exact h.1

theorem startsItem_of_reads {b : Bool} {l : Lexeme} {t : Text} (h : Reads d b l t)
    (hl : l.kind.isLayout = false) (u : Text) : StartsItem (l.text ++ u) := by
  intro c hc
  apply h.head_of_item hl c
  obtain ⟨z, w, hz⟩ := List.exists_cons_of_ne_nil h.text_ne_nil
  rw [hz] at hc ⊢
  exact hc

theorem stops_of_mark {l : Lexeme} {c : Char} (hc : c ∈ stopChars) (h : l.isMark c = true) :
    Stops l.text := by
  simp only [Lexeme.isMark, Bool.and_eq_true, decide_eq_true_eq] at h
  rw [h.2]
  exact (stops_cons _ _).2 hc

theorem stops_of_isCloser {c : Cell} (h : isCloser c.piece = true) : Stops c.item.text := by
  obtain ⟨-, htext⟩ := Bool.and_eq_true_iff.1 h
  rcases Bool.or_eq_true_iff.1 htext with htext | htext
  · rw [show c.item.text = [')'] from of_decide_eq_true htext]
    exact (stops_cons _ _).2 (by decide)
  · rw [show c.item.text = [']'] from of_decide_eq_true htext]
    exact (stops_cons _ _).2 (by decide)

theorem stops_of_isOpener {c : Cell} (h : isOpener c.piece = true) : Stops c.item.text := by
  obtain ⟨-, htext⟩ := Bool.and_eq_true_iff.1 h
  rcases Bool.or_eq_true_iff.1 htext with htext | htext
  · rw [show c.item.text = ['('] from of_decide_eq_true htext]
    exact (stops_cons _ _).2 (by decide)
  · rw [show c.item.text = ['['] from of_decide_eq_true htext]
    exact (stops_cons _ _).2 (by decide)

theorem stops_append {x : Text} (h : Stops x) (hne : x ≠ []) (u : Text) : Stops (x ++ u) := by
  obtain ⟨c, w, rfl⟩ := List.exists_cons_of_ne_nil hne
  simpa using h

/-- A gap is empty after formatting as before, but for one at a placed brace, at a bracket or at the
start. -/
theorem newGap_eq_nil_iff {here : Place} {c : Cell} (hstart : here.start = false)
    (hplaced : c.isPlaced here = false) (hedge : edges here.index = none) :
    newGap rules edges here c = [] ↔ c.gap = [] := by
  unfold newGap
  rw [hstart, hedge, if_neg (by simp [hplaced] : ¬ c.isPlaced here = true)]
  split
  · rfl
  · split
    · rename_i hbreaks
      have hbreaks : breaks c.gap ≠ 0 := by simpa using hbreaks
      have hne : c.gap ≠ [] := by
        intro hnil
        simp [hnil, breaks] at hbreaks
      simp [newBreaks, breaksLeft, hbreaks, hne]
    · rfl

/-- Behind an item that is no opening bracket, the formatted text agrees with that of the source up
to a blank, a line break or a bracket. -/
theorem alike_rest {cells : List Cell} {tail : List Lexeme} {here : Place} (inside : Bool)
    (hsound : SoundCells rules edges here cells)
    (hpads : ∀ i t, edges i = some t → ∀ z ∈ t, Text.isPad z = true)
    (htail : ∀ l ∈ tail, l.kind.isLayout = true)
    (hlexed : IsLexed d false (cells.flatMap Cell.lexemes ++ tail)) (hstart : here.start = false)
    (hopener : here.opener = false) :
    Alike (textOf (cells.flatMap Cell.lexemes ++ tail))
      (textOf ((newCells rules edges here cells).flatMap Cell.lexemes ++
        newTail rules false inside tail)) := by
  induction cells generalizing here with
  | nil =>
    have hread := readsAll_tail htail hlexed
    refine .of_stops ?_ (stops_newTail htail hread false inside)
    cases tail with
    | nil => exact stops_nil
    | cons l g => simpa using stops_gap htail hread (by simp) []
  | cons c cells ih =>
    obtain ⟨hc, hmore⟩ := hsound
    obtain ⟨hgap, hitem, hrest⟩ := isLexed_cell hc hlexed
    have hitem' := startsItem_of_reads hitem hc.item (textOf (cells.flatMap Cell.lexemes ++ tail))
    have hnewGap : ReadsAll d false (newGap rules edges here c)
        (c.item.text ++ textOf (cells.flatMap Cell.lexemes ++ tail)) :=
      readsAll_newGap hc (hpads here.index) hgap hitem' rfl
    rw [textOf_cons_cells, textOf_newCells_cons]
    by_cases hstops : Stops c.item.text
    · -- both texts start with layout or with a bracket
      have hne := hitem.text_ne_nil
      have hhead := head?_newItem hitem rules c.kept
      have hstops' : Stops (newItem rules c.kept c.item).text := by
        unfold Stops at hstops ⊢
        rwa [hhead]
      have hne' : (newItem rules c.kept c.item).text ≠ [] := by
        intro hnil
        rw [hnil] at hhead
        exact hne (List.head?_eq_none_iff.1 hhead.symm)
      refine .of_stops ?_ ?_
      · by_cases hnil : c.gap = []
        · rw [hnil]
          exact stops_append hstops hne _
        · exact stops_gap hc.gap hgap hnil _
      · by_cases hnil : newGap rules edges here c = []
        · rw [hnil]
          exact stops_append hstops' hne' _
        · exact stops_gap (layout_newGap hc) hnewGap hnil _
    · have hplaced : c.isPlaced here = false := by
        rw [← Bool.not_eq_true]
        intro hplaced
        simp only [Cell.isPlaced, Bool.and_eq_true] at hplaced
        exact hstops (stops_of_mark (by decide) hplaced.1.1)
      have hedge : edges here.index = none := by
        refine hc.edge_eq_none hopener ?_
        rw [← Bool.not_eq_true]
        intro h
        exact hstops (stops_of_isCloser h)
      have hopener' : (here.after rules c).opener = false := by
        rw [← Bool.not_eq_true]
        intro h
        exact hstops (stops_of_isOpener h)
      by_cases hnil : c.gap = []
      · rw [(newGap_eq_nil_iff hstart hplaced hedge).2 hnil, hnil]
        exact alike_newItem c.kept c.item (ih hmore hrest rfl hopener')
      · have hnil' : newGap rules edges here c ≠ [] :=
          mt (newGap_eq_nil_iff hstart hplaced hedge).1 hnil
        exact .of_stops (stops_gap hc.gap hgap hnil _)
          (stops_gap (layout_newGap hc) hnewGap hnil' _)

/-! ## What stands behind a line comment -/

theorem head?_newline (rules : RuleSet) (t : Text) :
    ∃ c, ((newline rules).text ++ t).head? = some c ∧ Text.isBreak c = true := by
  obtain ⟨c, u, he, hc⟩ := (Text.isBreakText_lineEnding rules.lineEnding).exists_cons
  exact ⟨c, by rw [newline, he]; rfl, hc⟩

theorem exists_newline_newGap {here : Place} {c : Cell} (hstart : here.start = false)
    (hinside : c.inside = false) (hplaced : c.isPlaced here = false) (hbreaks : breaks c.gap ≠ 0) :
    ∃ g, newGap rules edges here c = newline rules :: g := by
  rw [newGap, if_neg (by simp [hinside]), if_neg (by simp [hplaced]), if_pos (by simp [hbreaks]),
    newBreaks, breaksLeft, if_neg (by simp [hstart]), if_neg hbreaks, Nat.add_comm,
    List.replicate_succ]
  exact ⟨_, rfl⟩

theorem exists_newline_newTail {g : List Lexeme} (hbreaks : breaks g ≠ 0) :
    ∃ g', newTail rules false false g = newline rules :: g' := by
  rw [newTail, if_neg (by simp), newBreaks, breaksLeft, if_neg (by simp), if_neg hbreaks,
    Nat.add_comm, List.replicate_succ]
  exact ⟨_, rfl⟩

/-- A gap that starts with the character of a line break holds one. -/
theorem breaks_ne_zero_of_head {b : Bool} {g : List Lexeme} {t : Text} {z : Char}
    (hg : ∀ l ∈ g, l.kind.isLayout = true) (h : ReadsAll d b g t) (hne : g ≠ [])
    (hz : z ∈ (textOf g ++ t).head?) (hbreak : Text.isBreak z = true) : breaks g ≠ 0 := by
  cases g with
  | nil => exact absurd rfl hne
  | cons l g =>
    obtain ⟨kind, text⟩ := l
    have hl := hg ⟨kind, text⟩ (by simp)
    cases kind <;> simp [TokenKind.isLayout] at hl
    · obtain ⟨hne, hpads, -⟩ := reads_whitespace_iff.1 h.1
      obtain ⟨c, w, rfl⟩ := List.exists_cons_of_ne_nil hne
      simp only [textOf_cons, List.cons_append, List.head?_cons, Option.mem_some_iff] at hz
      subst hz
      simp [not_isPad_of_isBreak hbreak] at hpads
    · rw [breaks_cons]
      simp [Lexeme.isNewline]

/-- Where a line break or the end followed, it still does. -/
theorem isBreak_newRest {cells : List Cell} {tail : List Lexeme} {here : Place} (inside : Bool)
    (hsound : SoundCells rules edges here cells)
    (htail : ∀ l ∈ tail, l.kind.isLayout = true)
    (hlexed : IsLexed d false (cells.flatMap Cell.lexemes ++ tail)) (hstart : here.start = false)
    (hheader : here.header = false)
    (hbreak : ∀ z ∈ (textOf (cells.flatMap Cell.lexemes ++ tail)).head?, Text.isBreak z = true) :
    ∀ z ∈ (textOf ((newCells rules edges here cells).flatMap Cell.lexemes ++
        newTail rules false inside tail)).head?, Text.isBreak z = true := by
  intro z hz
  cases cells with
  | nil =>
    have hread := readsAll_tail htail hlexed
    simp only [List.flatMap_nil, List.nil_append, newCells] at hbreak hz
    cases inside with
    | true => exact hbreak z hz
    | false =>
      by_cases hbreaks : breaks tail = 0
      · simp [newTail, newBreaks, hbreaks, breaksLeft] at hz
      · obtain ⟨g, hg⟩ : ∃ g, newTail rules false false tail = newline rules :: g :=
          exists_newline_newTail hbreaks
        obtain ⟨c, hc, hcb⟩ := head?_newline rules (textOf g)
        rw [hg, textOf_cons, hc] at hz
        simp only [Option.mem_some_iff] at hz
        rwa [← hz]
  | cons c cells =>
    obtain ⟨hc, hmore⟩ := hsound
    obtain ⟨hgap, hitem, hrest⟩ := isLexed_cell hc hlexed
    have hitem' := startsItem_of_reads hitem hc.item (textOf (cells.flatMap Cell.lexemes ++ tail))
    rw [textOf_cons_cells] at hbreak
    -- the gap is not empty, since no item starts with a line break
    have hne : c.gap ≠ [] := by
      intro hnil
      obtain ⟨x, w, hx⟩ := List.exists_cons_of_ne_nil hitem.text_ne_nil
      have h1 := hbreak x (by simp [hnil, hx])
      have h2 := (hitem' x (by simp [hx])).2
      simp [h1] at h2
    obtain ⟨x, w, hx⟩ : ∃ x w, textOf c.gap = x :: w := by
      cases hg : c.gap with
      | nil => exact absurd hg hne
      | cons l g =>
        rw [hg] at hgap
        obtain ⟨x, w, hx⟩ := List.exists_cons_of_ne_nil hgap.1.text_ne_nil
        exact ⟨x, w ++ textOf g, by rw [textOf_cons, hx]; rfl⟩
    have hxb := hbreak x (by simp [hx])
    have hbreaks := breaks_ne_zero_of_head hc.gap hgap hne (by simp [hx]) hxb
    have hplaced : c.isPlaced here = false := by simp [Cell.isPlaced, hheader]
    rw [textOf_newCells_cons] at hz
    by_cases hinside : c.inside = true
    · rw [newGap, if_pos hinside, hx] at hz
      simp only [List.cons_append, List.head?_cons, Option.mem_some_iff] at hz
      rwa [← hz]
    · obtain ⟨g, hg⟩ : ∃ g, newGap rules edges here c = newline rules :: g :=
        exists_newline_newGap hstart (by simpa using hinside) hplaced hbreaks
      obtain ⟨y, hy, hyb⟩ := head?_newline rules (textOf g ++ ((newItem rules c.kept c.item).text ++
        textOf ((newCells rules edges (here.after rules c) cells).flatMap Cell.lexemes ++
          newTail rules false inside tail)))
      rw [hg, textOf_cons, List.append_assoc, hy] at hz
      simp only [Option.mem_some_iff] at hz
      rwa [← hz]

/-! ## What stands behind a directive -/

/-- The layout that follows: that of the next cell, or that behind the last. -/
def nextGap (cells : List Cell) (tail : List Lexeme) : List Lexeme :=
  match cells with
  | [] => tail
  | c :: _ => c.gap

theorem isPad_blanks_gap {b : Bool} {g : List Lexeme} {t : Text}
    (hg : ∀ l ∈ g, l.kind.isLayout = true) (h : ReadsAll d b g t) (hbreaks : breaks g = 0) :
    ∀ c ∈ textOf g, Text.isPad c = true := by
  induction g generalizing b with
  | nil => simp
  | cons l g ih =>
    obtain ⟨kind, text⟩ := l
    have hl := hg ⟨kind, text⟩ (by simp)
    rw [breaks_cons] at hbreaks
    cases kind <;> simp [TokenKind.isLayout] at hl
    · obtain ⟨-, hpads, -⟩ := reads_whitespace_iff.1 h.1
      intro c hc
      rcases List.mem_append.1 hc with hc | hc
      · exact hpads c hc
      · exact ih (fun l hl => hg l (by simp [hl])) h.2 (by omega) c hc
    · simp [Lexeme.isNewline] at hbreaks

/-- A gap with line breaks is some blanks and a line break, whatever follows. -/
theorem exists_pads_break {b : Bool} {g : List Lexeme} {t : Text}
    (hg : ∀ l ∈ g, l.kind.isLayout = true) (h : ReadsAll d b g t) (hbreaks : breaks g ≠ 0) :
    ∃ w z u, textOf g = w ++ z :: u ∧ (∀ c ∈ w, Text.isPad c = true) ∧ Text.isBreak z = true := by
  induction g generalizing b with
  | nil => simp [breaks] at hbreaks
  | cons l g ih =>
    obtain ⟨kind, text⟩ := l
    have hl := hg ⟨kind, text⟩ (by simp)
    rw [breaks_cons] at hbreaks
    cases kind <;> simp [TokenKind.isLayout] at hl
    · obtain ⟨-, hpads, -⟩ := reads_whitespace_iff.1 h.1
      obtain ⟨w, z, u, hu, hw, hz⟩ := ih (fun l hl => hg l (by simp [hl])) h.2
        (by simpa [Lexeme.isNewline] using hbreaks)
      refine ⟨text ++ w, z, u, by simp [hu], ?_, hz⟩
      intro c hc
      exact (List.mem_append.1 hc).elim (hpads c) (hw c)
    · obtain ⟨z, u, hz, hzb⟩ := (reads_lineBreak_iff.1 h.1).1.exists_cons
      exact ⟨[], z, u ++ textOf g, by simp [hz], by simp, hzb⟩

section Directive

variable {b : Bool} {name x t t' : Text}

theorem exists_endsDirective (h : Reads d b ⟨.directive name, x⟩ t) :
    ∃ w r, t = w ++ r ∧ (∀ c ∈ w, Text.isPad c = true) ∧ EndsDirective r := by
  obtain ⟨w, r, rfl, hw, hr⟩ := exists_pads t
  obtain ⟨-, y, rfl⟩ := h.exists_hash
  exact ⟨w, r, rfl, hw, ((reads_directive_iff hw hr).1 h).2.2.2.1⟩

/-- Right before a line break, a directive is read unless it carries on. -/
theorem reads_directive_newline (h : Reads d b ⟨.directive name, x⟩ t)
    (hcarries : carriesOn ⟨.directive name, x⟩ = false) (t' : Text) :
    Reads d b ⟨.directive name, Text.withEnding rules.lineEnding.text x⟩
      ((newline rules).text ++ t') := by
  obtain ⟨w, r, rfl, hw, hr⟩ := exists_endsDirective h
  have hending := Text.isBreakText_lineEnding rules.lineEnding
  obtain ⟨z, u, hz, hzb⟩ := hending.exists_cons
  rw [show (newline rules).text = z :: u from hz]
  refine h.directive_withEnding hw hr [] (z :: (u ++ t')) (by simp)
    (.inr (.inl ⟨z, u ++ t', rfl, hzb⟩)) hending ?_ ?_ (fun _ _ => hcarries)
  · intro hcr
    rw [hcr] at hz
    simp [← (List.cons.inj hz).1]
  · rintro ⟨more, hmore⟩
    rw [(List.cons.inj hmore).1] at hzb
    simp [Text.isBreak] at hzb

/-- At the very end, a directive is read. -/
theorem reads_directive_end (h : Reads d b ⟨.directive name, x⟩ t) :
    Reads d b ⟨.directive name, Text.withEnding rules.lineEnding.text x⟩ [] := by
  obtain ⟨w, r, rfl, hw, hr⟩ := exists_endsDirective h
  refine h.directive_withEnding hw hr [] [] (by simp) (.inl rfl)
    (Text.isBreakText_lineEnding rules.lineEnding) (by simp) ?_ ?_
  · rintro ⟨more, hmore⟩
    simp at hmore
  · rintro - ⟨c, more, hmore, -⟩
    simp at hmore

/-- The layout behind a directive at the end of a page. -/
theorem reads_directive_newTail {inside : Bool} {tail : List Lexeme}
    (h : Reads d b ⟨.directive name, x⟩ (textOf tail))
    (hdangles : inside = true ∨ carriesOn ⟨.directive name, x⟩ = false ∨ breaks tail = 0) :
    Reads d b (newItem rules inside ⟨.directive name, x⟩)
      (textOf (newTail rules false inside tail)) := by
  cases inside with
  | true => exact h
  | false =>
    by_cases hbreaks : breaks tail = 0
    · have hnil : newTail rules false false tail = [] := by
        simp [newTail, newBreaks, hbreaks, breaksLeft]
      rw [hnil]
      exact reads_directive_end h
    · obtain ⟨g, hg⟩ : ∃ g, newTail rules false false tail = newline rules :: g :=
        exists_newline_newTail hbreaks
      rw [hg, textOf_cons]
      exact reads_directive_newline h (by simpa [hbreaks] using hdangles) (textOf g)

/-- Before a line comment on the same line, a directive is read, whatever follows the comment. -/
theorem reads_directive_comment {w y : Text}
    (h : Reads d b ⟨.directive name, x⟩ (w ++ ('/' :: '/' :: y ++ t)))
    (hw : ∀ c ∈ w, Text.isPad c = true) (inside : Bool) (t' : Text) :
    Reads d b (newItem rules inside ⟨.directive name, x⟩) (w ++ ('/' :: '/' :: y ++ t')) := by
  have hcomment (t : Text) : StartsComment ('/' :: '/' :: y ++ t) := ⟨y ++ t, rfl⟩
  have hends (t : Text) : EndsDirective ('/' :: '/' :: y ++ t) := .inr (.inr (hcomment t))
  cases inside with
  | true => exact h.directive_congr hw (hends t) (hends t') rfl fun _ => hcomment t
  | false =>
    refine h.directive_withEnding hw (hends t) w _ hw (hends t')
      (Text.isBreakText_lineEnding rules.lineEnding) ?_ (fun _ => ⟨rfl, hcomment t⟩) ?_
    · intro _ hhead
      cases w with
      | nil => simp at hhead
      | cons z u =>
        simp only [List.cons_append, List.head?_cons, Option.some.injEq] at hhead
        have := hw z (by simp)
        simp [hhead, Text.isPad] at this
    · rintro - ⟨z, more, hz, hzb⟩
      rw [← (List.cons.inj hz).1] at hzb
      simp [Text.isBreak] at hzb

/-- Before a gap with line breaks that stays, a directive is read, whatever follows the gap. -/
theorem reads_directive_gap {b' : Bool} {g : List Lexeme} {u : Text}
    (h : Reads d b ⟨.directive name, x⟩ (textOf g ++ t)) (hg : ∀ l ∈ g, l.kind.isLayout = true)
    (hgap : ReadsAll d b' g u) (hbreaks : breaks g ≠ 0) (t' : Text) :
    Reads d b ⟨.directive name, x⟩ (textOf g ++ t') := by
  obtain ⟨w, z, v, htext, hw, hz⟩ := exists_pads_break hg hgap hbreaks
  have hends (t : Text) : EndsDirective (z :: v ++ t) := .inr (.inl ⟨z, v ++ t, rfl, hz⟩)
  rw [htext, List.append_assoc] at h ⊢
  refine h.directive_congr hw (hends t) (hends t') rfl ?_
  rintro ⟨more, hmore⟩
  rw [List.cons_append, List.cons.injEq] at hmore
  rw [hmore.1] at hz
  simp [Text.isBreak] at hz

/-- What stands behind a directive on its line is a line comment. -/
theorem lineComment_behind_directive {b' : Bool} {w : Text} {l : Lexeme}
    (h : Reads d b ⟨.directive name, x⟩ (w ++ (l.text ++ t)))
    (hw : ∀ c ∈ w, Text.isPad c = true) (hl : Reads d b' l t) (hlayout : l.kind.isLayout = false) :
    ∃ doc y, l.kind = .lineComment doc ∧ l.text = '/' :: '/' :: y := by
  have hstarts := startsItem_of_reads hl hlayout t
  obtain ⟨w', r, heq, hw', hr⟩ := exists_endsDirective h
  obtain ⟨-, rfl⟩ := pads_append_inj hw hw' (fun c hc => (hstarts c hc).1) hr.not_isPad heq
  rcases hr with hnil | ⟨z, more, hz, hzb⟩ | ⟨more, hcomment⟩
  · exact absurd (List.append_eq_nil_iff.1 hnil).1 hl.text_ne_nil
  · have := (hstarts z (by rw [hz]; rfl)).2
    simp [hzb] at this
  · exact lineComment_of_slashes hl hcomment

/-- A directive is still read where it stood, unless it carries on and now stands before a line
break. -/
theorem reads_directive_newRest {cells : List Cell} {tail : List Lexeme} {here : Place}
    {after inside : Bool} (hsound : SoundCells rules edges here cells)
    (hregular : Page.Regular after inside cells)
    (hlexed : IsLexed d false (cells.flatMap Cell.lexemes ++ tail)) (hstart : here.start = false)
    (hheader : here.header = false) (hopener : here.opener = false)
    (hread : Reads d b ⟨.directive name, x⟩ (textOf (cells.flatMap Cell.lexemes ++ tail)))
    (hdangles : inside = true ∨ carriesOn ⟨.directive name, x⟩ = false ∨
      breaks (nextGap cells tail) = 0) :
    Reads d b (newItem rules inside ⟨.directive name, x⟩)
      (textOf ((newCells rules edges here cells).flatMap Cell.lexemes ++
        newTail rules false after tail)) := by
  cases cells with
  | nil =>
    have hafter : after = inside := hregular
    subst hafter
    exact reads_directive_newTail hread hdangles
  | cons c cells =>
    obtain ⟨hc, -⟩ := hsound
    obtain ⟨hinside, -, -⟩ := hregular
    obtain ⟨hgap, hitem, -⟩ := isLexed_cell hc hlexed
    have hplaced : c.isPlaced here = false := by simp [Cell.isPlaced, hheader]
    rw [textOf_cons_cells] at hread
    rw [textOf_newCells_cons]
    by_cases hbreaks : breaks c.gap = 0
    · -- a line comment follows on the same line, and it stays there
      have hpads := isPad_blanks_gap hc.gap hgap hbreaks
      obtain ⟨doc, y, hkind, htext⟩ := lineComment_behind_directive hread hpads hitem hc.item
      have hnewItem : newItem rules c.kept c.item = c.item := by simp [newItem, hkind]
      have hedge : edges here.index = none :=
        hc.edge_eq_none hopener (by simp [isCloser, Cell.piece, hkind])
      have hnewGap : newGap rules edges here c = c.gap := by
        simp [newGap, hplaced, hstart, hbreaks, hedge]
      rw [hnewItem, hnewGap, htext]
      rw [htext] at hread
      exact reads_directive_comment hread hpads inside _
    · cases inside with
      | true =>
        have hnewGap : newGap rules edges here c = c.gap := by rw [newGap, if_pos hinside]
        rw [hnewGap]
        exact reads_directive_gap hread hc.gap hgap hbreaks _
      | false =>
        obtain ⟨g, hg⟩ : ∃ g, newGap rules edges here c = newline rules :: g :=
          exists_newline_newGap hstart hinside hplaced hbreaks
        rw [hg, textOf_cons, List.append_assoc]
        exact reads_directive_newline hread (by simpa [nextGap, hbreaks] using hdangles) _

end Directive

/-! ## All lexemes -/

/-- The cell is a directive that carries on, and blanks and a line break follow it: formatting would
put it right before the line break. -/
def Cell.Dangles (c : Cell) (next : List Lexeme) : Prop :=
  c.kept = false ∧ carriesOn c.item = true ∧ breaks next ≠ 0

instance (c : Cell) (next : List Lexeme) : Decidable (c.Dangles next) :=
  inferInstanceAs (Decidable (_ ∧ _ ∧ _))

/-- No cell is a directive that would be put right before a line break and carries on. -/
def NoneDangles (tail : List Lexeme) : List Cell → Prop
  | [] => True
  | c :: more => ¬ c.Dangles (nextGap more tail) ∧ NoneDangles tail more

theorem marker_of_directive {l : Lexeme} {name : Text} (h : l.kind = .directive name) :
    Marker.of? l = none := by
  simp [Marker.of?, h, TokenKind.isComment]

theorem newItem_of_isPlain {l : Lexeme} (rules : RuleSet) (kept : Bool) (h : l.kind.isPlain = true) :
    newItem rules kept l = l := by
  obtain ⟨kind, text⟩ := l
  unfold newItem
  split
  · rfl
  · cases kind <;> simp [TokenKind.isPlain] at h <;> rfl

/-- A bracket comes out as it is, and is read anywhere. -/
theorem reads_newItem_bracket {l : Lexeme} {z : Char} (hkind : l.kind = .punctuation)
    (htext : l.text = [z]) (hz : z ∈ ['(', ')', '[', ']', '{', '}']) (rules : RuleSet) (kept b : Bool)
    (t : Text) : Reads d b (newItem rules kept l) t := by
  have hl : l = ⟨.punctuation, [z]⟩ := by rw [← hkind, ← htext]
  rw [newItem_of_isPlain rules kept (by rw [hkind]; rfl), hl]
  exact reads_bracket d b hz t

theorem reads_newItem_opener {c : Cell} (h : isOpener c.piece = true) (rules : RuleSet) (kept b : Bool)
    (t : Text) : Reads d b (newItem rules kept c.item) t := by
  obtain ⟨hkind, htext⟩ := Bool.and_eq_true_iff.1 h
  have hkind : c.item.kind = .punctuation := of_decide_eq_true hkind
  rcases Bool.or_eq_true_iff.1 htext with htext | htext
  · exact reads_newItem_bracket hkind (of_decide_eq_true htext) (by decide) rules kept b t
  · exact reads_newItem_bracket hkind (of_decide_eq_true htext) (by decide) rules kept b t

theorem header_after_of_not_isPlain {here : Place} {c : Cell} (h : c.item.kind.isPlain = false) :
    (here.after rules c).header = false := by
  have hends : endsHeader c.piece = false := by
    cases hk : c.item.kind <;> simp [hk, TokenKind.isPlain] at h <;> simp [endsHeader, Cell.piece, hk]
  simp [Place.after, hends]

/-- The item of a cell is read in the formatted page. -/
theorem reads_newItem {c : Cell} {cells : List Cell} {tail : List Lexeme} {here : Place}
    {after : Bool} (hc : c.IsSound edges here)
    (hkeeps : c.kept = keeps .format c.inside c.item)
    (hsound : SoundCells rules edges (here.after rules c) cells)
    (hregular : Page.Regular after (insideAfter .format c.inside c.item) cells)
    (hpads : ∀ i t, edges i = some t → ∀ z ∈ t, Text.isPad z = true)
    (htail : ∀ l ∈ tail, l.kind.isLayout = true)
    (hlexed : IsLexed d false (cells.flatMap Cell.lexemes ++ tail))
    (hread : Reads d (here.start || breaks c.gap ≠ 0) c.item
      (textOf (cells.flatMap Cell.lexemes ++ tail)))
    (hdangles : ¬ c.Dangles (nextGap cells tail)) :
    Reads d (here.start || breaks (newGap rules edges here c) ≠ 0) (newItem rules c.kept c.item)
      (textOf ((newCells rules edges (here.after rules c) cells).flatMap Cell.lexemes ++
        newTail rules false after tail)) := by
  by_cases hplaced : c.isPlaced here = true
  · have hmark := hplaced
    simp only [Cell.isPlaced, Bool.and_eq_true, Lexeme.isMark, decide_eq_true_eq] at hmark
    exact reads_newItem_bracket hmark.1.1.1 hmark.1.1.2 (by decide) _ _ _ _
  simp only [Bool.not_eq_true] at hplaced
  rw [breaks_newGap hplaced]
  by_cases hopener : isOpener c.piece = true
  · exact reads_newItem_opener hopener _ _ _ _
  simp only [Bool.not_eq_true] at hopener
  by_cases hplain : c.item.kind.isPlain = true
  · rw [newItem_of_isPlain _ _ hplain]
    exact hread.of_alike hplain (alike_rest after hsound hpads htail hlexed rfl hopener)
  simp only [Bool.not_eq_true] at hplain
  have hheader : (here.after rules c).header = false := header_after_of_not_isPlain hplain
  have hitem : c.item = ⟨c.item.kind, c.item.text⟩ := rfl
  generalize c.item.text = x at hitem
  cases hk : c.item.kind with
  | word _ => simp [hk, TokenKind.isPlain] at hplain
  | punctuation => simp [hk, TokenKind.isPlain] at hplain
  | operator => simp [hk, TokenKind.isPlain] at hplain
  | number => simp [hk, TokenKind.isPlain] at hplain
  | eof => exact absurd hk hread.kind_ne_eof
  | whitespace => simpa [hk, TokenKind.isLayout] using hc.item
  | lineBreak => simpa [hk, TokenKind.isLayout] using hc.item
  | string =>
    rw [hk] at hitem
    rw [hitem] at hread ⊢
    simp only [newItem, ite_self]
    exact hread.of_string _
  | lineComment doc =>
    rw [hk] at hitem
    rw [hitem] at hread ⊢
    simp only [newItem, ite_self]
    rw [reads_lineComment_iff] at hread ⊢
    exact ⟨hread.1, hread.2.1,
      isBreak_newRest after hsound htail hlexed rfl hheader hread.2.2⟩
  | blockComment doc =>
    rw [hk] at hitem
    rw [hitem] at hread ⊢
    unfold newItem
    split
    · rwa [reads_blockComment_iff] at hread ⊢
    · exact hread.blockComment_withEnding _ (Text.isBreakText_lineEnding _)
  | directive name =>
    have hmarker := marker_of_directive hk
    have hinside : insideAfter .format c.inside c.item = c.inside := by simp [insideAfter, hmarker]
    have hkept : c.kept = c.inside := by simp [hkeeps, keeps, hmarker]
    rw [hinside] at hregular
    simp only [Cell.Dangles, hkept, not_and, Decidable.not_not] at hdangles
    rw [hkept]
    rw [hk] at hitem
    rw [hitem] at hread hdangles ⊢
    refine reads_directive_newRest hsound hregular hlexed rfl hheader hopener hread ?_
    cases hcases : c.inside with
    | true => exact .inl rfl
    | false =>
      right
      cases hcarries : carriesOn ⟨.directive name, x⟩ with
      | true => exact .inr (hdangles hcases hcarries)
      | false => exact .inl rfl

/-- The gap of a formatted cell is read in front of its item. -/
theorem readsAll_newGap_newItem {here : Place} {c : Cell} {b b' : Bool} {t : Text}
    (hc : c.IsSound edges here)
    (hpads : ∀ i t, edges i = some t → ∀ z ∈ t, Text.isPad z = true)
    (hgap : ReadsAll d b c.gap (c.item.text ++ t)) (hitem : Reads d b' c.item t) (rules : RuleSet)
    (start : Bool) (t' : Text) :
    ReadsAll d start (newGap rules edges here c) ((newItem rules c.kept c.item).text ++ t') := by
  refine readsAll_newGap hc (hpads here.index) hgap (startsItem_of_reads hitem hc.item t) ?_
  -- formatting changes no first character of an item
  have hhead := head?_newItem hitem rules c.kept
  obtain ⟨z, u, hz⟩ := List.exists_cons_of_ne_nil hitem.text_ne_nil
  rw [hz] at hhead ⊢
  obtain ⟨v, hv⟩ := List.head?_eq_some_iff.1 hhead
  rw [hv]
  rfl

/-- The lexemes of the formatted cells are what lexing gives for their text. -/
theorem isLexed_newCells {cells : List Cell} {tail : List Lexeme} {here : Place} {after inside : Bool}
    (hsound : SoundCells rules edges here cells) (hregular : Page.Regular after inside cells)
    (hpads : ∀ i t, edges i = some t → ∀ z ∈ t, Text.isPad z = true)
    (htail : ∀ l ∈ tail, l.kind.isLayout = true)
    (hlexed : IsLexed d here.start (cells.flatMap Cell.lexemes ++ tail))
    (hdangles : NoneDangles tail cells) :
    IsLexed d here.start ((newCells rules edges here cells).flatMap Cell.lexemes ++
      newTail rules (here.start && cells.isEmpty) after tail) := by
  induction cells generalizing here inside with
  | nil =>
    simp only [newCells, List.flatMap_nil, List.nil_append, newTail] at hlexed ⊢
    split
    · exact hlexed
    · have hlayout : ∀ l ∈ newBreaks rules (here.start && List.isEmpty ([] : List Cell)) tail,
          l.kind.isLayout = true := by
        intro l hl
        rw [List.eq_of_mem_replicate hl]
        rfl
      rw [← List.append_nil (newBreaks _ _ _), isLexed_gap_append hlayout]
      refine ⟨?_, isLexed_nil _ _⟩
      rw [newBreaks, ← List.append_nil (List.replicate _ _)]
      exact readsAll_newlines rules _ (fun _ => trivial) (by simp)
  | cons c cells ih =>
    obtain ⟨hc, hmore⟩ := hsound
    obtain ⟨rfl, hkeeps, -, -, hregular⟩ := hregular
    obtain ⟨hgap, hitem, hrest⟩ := isLexed_cell hc hlexed
    obtain ⟨hdangles, hnone⟩ := hdangles
    have ih := ih hmore hregular hrest hnone
    have hread := reads_newItem hc hkeeps hmore hregular hpads htail hrest hitem hdangles
    have hsplit : (newCells rules edges here (c :: cells)).flatMap Cell.lexemes ++
        newTail rules (here.start && (c :: cells).isEmpty) after tail =
        newGap rules edges here c ++ (newItem rules c.kept c.item ::
          ((newCells rules edges (here.after rules c) cells).flatMap Cell.lexemes ++
            newTail rules false after tail)) := by
      simp [newCells, newCell, Cell.lexemes]
    have hitem' : (newItem rules c.kept c.item).kind.isLayout = false := by
      rw [kind_newItem]
      exact hc.item
    rw [hsplit, isLexed_gap_append (layout_newGap hc), isLexed_cons, lineStartAfter_item _ hitem']
    exact ⟨readsAll_newGap_newItem hc hpads hgap hitem rules _ _, hread, ih⟩

/-- The lexemes of a formatted page are what lexing gives for its text, unless a directive dangles. -/
theorem isLexed_formatted (rules : RuleSet) {ls : List Lexeme} (h : IsLexed d true ls)
    (hdangles : NoneDangles (Page.ofLexemes false ls).tail (Page.ofLexemes false ls).cells) :
    IsLexed d true ((Page.ofLexemes false ls).formatted rules).lexemes := by
  have hregular := Page.isRegular_ofLexemes false ls
  have hsound := soundCells_ofLexemes rules h
  have hlexed : IsLexed d ({} : Place).start ((Page.ofLexemes false ls).cells.flatMap Cell.lexemes ++
      (Page.ofLexemes false ls).tail) := by
    have := Page.lexemes_ofLexemes false ls
    rw [← this] at h
    exact h
  have := isLexed_newCells hsound hregular.cells (fun _ _ => isPad_edge) hregular.tail hlexed hdangles
  rwa [Bool.true_and] at this

end ShaderStyle.Layout
