import ShaderStyle.Proofs.Layout.LinePass
import ShaderStyle.Proofs.Layout.Sound

/-!
# The three passes together

Placing the braces and spacing the brackets changes the gap of a slot or leaves it (`prepare`), and the
pass over the lines goes over the result. Slot by slot this comes to what `Page.formatted` says of the
cells (`text_format`), and where the page is as it should be, nothing is found
(`diagnostics_format_eq_nil`).
-/

namespace ShaderStyle.Layout

open Lexer

variable {rules : RuleSet}

/-! ## Slots and cells -/

/-- The slot holds the tokens of the cell. -/
structure Cell.DrawnBy (c : Cell) (s : Slot) : Prop where
  gap : s.gap.map Piece.lexeme = c.gap
  inside : ∀ p ∈ s.gap, p.suppressed = c.inside
  source : ∀ p ∈ s.gap, p.span ≠ none
  item : s.item.lexeme = c.item
  kept : s.item.suppressed = c.kept
  itemSource : s.item.span ≠ none

/-- The slots hold the tokens of the cells. -/
inductive CellsDrawn : List Cell → List Slot → Prop
  | nil : CellsDrawn [] []
  | cons {c : Cell} {s : Slot} {cs : List Cell} {ss : List Slot} (hs : c.DrawnBy s)
      (hss : CellsDrawn cs ss) : CellsDrawn (c :: cs) (s :: ss)

/-- The sheet holds the tokens of the page. -/
structure Page.DrawnBy (p : Page) (s : Sheet) : Prop where
  cells : CellsDrawn p.cells s.slots
  tail : s.tail.map Piece.lexeme = p.tail
  tailInside : ∀ q ∈ s.tail, q.suppressed = p.tailInside
  tailSource : ∀ q ∈ s.tail, q.span ≠ none

theorem Cell.DrawnBy.piece {c : Cell} {s : Slot} (h : c.DrawnBy s) :
    c.piece = { s.item with span := none } := by
  rw [Cell.piece, ← h.item, ← h.kept]
  rfl

theorem Page.DrawnBy.consLayout {p : Page} {s : Sheet} {inside : Bool} (h : p.DrawnBy s)
    (hregular : p.IsRegular inside) {t : Token} (ht : t.kind.isLayout = true) :
    (p.consLayout t.toLexeme).DrawnBy (s.cons (.ofToken t inside)) := by
  obtain ⟨cells, tail, after⟩ := p
  obtain ⟨slots, stail⟩ := s
  obtain ⟨hcells, htail, hinside, hsource⟩ := h
  have hlayout : (Piece.ofToken t inside).isLayout = true := ht
  cases hcells with
  | nil =>
    rw [Sheet.cons, if_pos hlayout]
    have hafter : after = inside := hregular.cells
    refine ⟨.nil, congrArg (t.toLexeme :: ·) htail, ?_, ?_⟩
    · intro q hq
      rcases List.mem_cons.1 hq with rfl | hq
      · exact hafter.symm
      · exact hinside q hq
    · intro q hq
      rcases List.mem_cons.1 hq with rfl | hq
      · simp [Piece.ofToken]
      · exact hsource q hq
  | @cons c s cs ss hs hss =>
    rw [Sheet.cons, if_pos hlayout]
    have hc : c.inside = inside := hregular.cells.1
    refine ⟨.cons ⟨?_, ?_, ?_, hs.item, hs.kept, hs.itemSource⟩ hss, htail, hinside, hsource⟩
    · simp [← hs.gap, Piece.lexeme, Piece.ofToken]
    · intro q hq
      rcases List.mem_cons.1 hq with rfl | hq
      · exact hc.symm
      · exact hs.inside q hq
    · intro q hq
      rcases List.mem_cons.1 hq with rfl | hq
      · simp [Piece.ofToken]
      · exact hs.source q hq

theorem Page.DrawnBy.consItem {p : Page} {s : Sheet} (inside : Bool) (h : p.DrawnBy s) {t : Token}
    (ht : t.kind.isLayout = false) :
    (p.consItem inside t.toLexeme).DrawnBy (s.cons (.ofToken t (keeps .format inside t.toLexeme))) := by
  have hlayout : ¬ (Piece.ofToken t (keeps .format inside t.toLexeme)).isLayout = true := by
    simpa [Piece.isLayout, Piece.ofToken] using ht
  rw [Sheet.cons, if_neg hlayout]
  exact ⟨.cons ⟨rfl, by simp, by simp, rfl, rfl, by simp [Piece.ofToken]⟩ h.cells, h.tail,
    h.tailInside, h.tailSource⟩

/-! ## The sheet of a source -/

theorem piecesOf_cons {t : Token} {ts : List Token} {b : Bool} {bs : List Bool}
    (ht : t.kind ≠ .eof) : piecesOf (t :: ts) (b :: bs) = .ofToken t b :: piecesOf ts bs := by
  simp [piecesOf, ht]

/-- The pieces of a source hold its lexemes. -/
theorem map_lexeme_piecesOf {ls : List Lexeme} (hls : ∀ l ∈ ls, l.kind ≠ .eof) (offset : Nat)
    (position : Position) (inside : Bool) :
    (piecesOf (place offset position ls)
      (Suppression.regionFlags .format inside (place offset position ls))).map Piece.lexeme = ls := by
  induction ls generalizing offset position inside with
  | nil => rfl
  | cons l ls ih =>
    have hl : l.kind ≠ .eof := hls l (by simp)
    rw [place, regionFlags_cons, piecesOf_cons hl, List.map_cons, ih fun l hl => hls l (by simp [hl])]
    rfl

/-- The pieces of a source, as content and gaps, are the page of its lexemes. -/
theorem drawnBy_place {ls : List Lexeme} (hls : ∀ l ∈ ls, l.kind ≠ .eof) (offset : Nat)
    (position : Position) (inside : Bool) :
    (Page.ofLexemes inside ls).DrawnBy (.ofPieces (piecesOf (place offset position ls)
      (Suppression.regionFlags .format inside (place offset position ls)))) := by
  induction ls generalizing offset position inside with
  | nil =>
    refine ⟨.nil, rfl, ?_, ?_⟩
    · simp [place, Suppression.regionFlags, piecesOf, Sheet.ofPieces, Marker.of?, TokenKind.isComment]
    · simp [place, Suppression.regionFlags, piecesOf, Sheet.ofPieces, Marker.of?, TokenKind.isComment]
  | cons l ls ih =>
    have hl : l.kind ≠ .eof := hls l (by simp)
    have ih := ih fun l h => hls l (by simp [h])
    let token : Token := ⟨l, offset, ⟨position, position.advance l.text⟩⟩
    rw [place, regionFlags_cons, piecesOf_cons hl, Sheet.ofPieces, Page.ofLexemes]
    split
    · rename_i hlayout
      have hkeeps : keeps .format inside l = inside := keeps_layout hlayout _ _
      have hafter : insideAfter .format inside l = inside := insideAfter_layout hlayout _ _
      rw [hkeeps, hafter]
      exact Page.DrawnBy.consLayout (t := token) (ih _ _ inside) (Page.isRegular_ofLexemes inside ls)
        hlayout
    · rename_i hlayout
      have hitem : token.kind.isLayout = false := by simpa [token] using hlayout
      exact Page.DrawnBy.consItem inside (ih _ _ (insideAfter .format inside l)) hitem

/-! ## One slot -/

/-- What placing the braces and spacing the brackets make of a slot. -/
def prepare (rules : RuleSet) (header : Option Piece) (wanted : Option Text) (s : Slot) : Slot :=
  let braced := if movesBrace rules header s then { s with gap := braceGap rules } else s
  if gapDiffers wanted braced.gap then { braced with gap := gapOf (wanted.getD []) } else braced

theorem prepare_item (header : Option Piece) (wanted : Option Text) (s : Slot) :
    (prepare rules header wanted s).item = s.item := by
  simp only [prepare]
  split
  · split <;> rfl
  · split <;> rfl

section Prepare

variable {edges : Nat → Option Text} {here : Place} {c : Cell} {s : Slot} {header : Option Piece}

theorem Cell.DrawnBy.isGap (h : c.DrawnBy s) (rules : RuleSet) (hsound : c.IsSound edges here) :
    IsGap rules c.inside s.gap := by
  refine ⟨?_, h.inside, ?_⟩
  · intro p hp
    apply hsound.gap p.lexeme
    rw [← h.gap]
    exact List.mem_map_of_mem hp
  · intro p hp _ hspan
    exact absurd hspan (h.source p hp)

theorem Cell.DrawnBy.breaks_gap (h : c.DrawnBy s) : breaks c.gap = s.gap.countP Piece.isNewline := by
  rw [← h.gap, breaks, List.countP_map]
  rfl

theorem placesBrace_eq (h : c.DrawnBy s) (hsound : c.IsSound edges here)
    (hheader : header.any (fun p => endsHeader p && !p.suppressed) = here.header) :
    placesBrace header s = c.isPlaced here := by
  have hmark : s.item.isMark '{' = c.item.isMark '{' := by rw [← h.item]; rfl
  rw [placesBrace, Cell.isPlaced, hmark, h.kept, hheader]
  by_cases hinside : c.inside = true
  · simp [hsound.kept hinside]
  · have hgap : s.gap.any Piece.suppressed = false := by
      rw [List.any_eq_false]
      intro p hp
      simp [h.inside p hp, hinside]
    simp [hgap]

/-- No blanks are wanted in a gap that is left as it is, before a placed brace or at the start. -/
theorem edges_eq_none (hsound : c.IsSound edges here)
    (h : here.start = true ∨ c.inside = true ∨ c.isPlaced here = true) :
    edges here.index = none := by
  cases hedge : edges here.index with
  | none => rfl
  | some t =>
    obtain ⟨h1, h2, h3, -⟩ := hsound.edge t hedge
    simp [h1, h2, h3] at h

theorem gapDiffers_none (g : List Piece) : gapDiffers none g = false := rfl

theorem gapDiffers_of_newline {wanted : Option Text} {g : List Piece}
    (h : ∃ p ∈ g, p.isNewline = true) : gapDiffers wanted g = false := by
  cases wanted with
  | none => rfl
  | some t =>
    obtain ⟨p, hp, hnl⟩ := h
    have hany : g.any (fun p => p.suppressed || p.isNewline) = true := by
      rw [List.any_eq_true]
      exact ⟨p, hp, by simp [hnl]⟩
    simp [gapDiffers, hany]

theorem isGap_blanks (rules : RuleSet) (t : Text) : IsGap rules false [.blanks t] := by
  refine ⟨?_, ?_, ?_⟩ <;> intro p hp <;> rw [List.mem_singleton.1 hp]
  · rfl
  · rfl
  · intro hnl
    simp [Piece.blanks, Piece.isNewline] at hnl

theorem isGap_gapOf (rules : RuleSet) (t : Text) : IsGap rules false (gapOf t) := by
  unfold gapOf
  split
  · exact ⟨by simp, by simp, by simp⟩
  · exact isGap_blanks rules _

theorem render_of_not_gapDiffers {t : Text} {g : List Piece} (hgap : IsGap rules false g)
    (hblanks : ∀ p ∈ g, p.isNewline = false) (h : ¬ gapDiffers (some t) g = true) :
    Piece.render g = t := by
  have hany : g.any (fun p => p.suppressed || p.isNewline) = false := by
    rw [List.any_eq_false]
    intro p hp
    simp [hgap.suppressed p hp, hblanks p hp]
  simpa [gapDiffers, hany] using h

/-- The gap before a placed brace holds a space, or one line break. -/
theorem placed_gap (rules : RuleSet) (h : c.DrawnBy s) (hsound : c.IsSound edges here)
    (hheader : header.any (fun p => endsHeader p && !p.suppressed) = here.header)
    (hplaced : c.isPlaced here = true) :
    match rules.openBrace with
    | .sameLine => ∃ p, (prepare rules header (edges here.index) s).gap = [p] ∧ p.text = [' '] ∧
        p.isNewline = false ∧ IsGap rules false [p]
    | .ownLine => ∃ g, prepare rules header (edges here.index) s = ⟨g, s.item⟩ ∧
        IsGap rules false g ∧ g.countP Piece.isNewline = 1 := by
  have hinside : c.inside = false := by
    rw [← Bool.not_eq_true]
    intro hinside
    simp [Cell.isPlaced, hsound.kept hinside] at hplaced
  have hgap : IsGap rules false s.gap := hinside ▸ h.isGap rules hsound
  have hmoves : movesBrace rules header s = !braceGapFits rules.openBrace s.gap := by
    rw [movesBrace, placesBrace_eq h hsound hheader, hplaced, Bool.true_and]
  simp only [prepare, edges_eq_none hsound (.inr (.inr hplaced)), gapDiffers_none,
    Bool.false_eq_true, if_false, hmoves]
  cases hopen : rules.openBrace with
  | sameLine =>
    by_cases hfits : braceGapFits .sameLine s.gap = true
    · simp only [hfits, Bool.not_true, Bool.false_eq_true, if_false]
      simp only [braceGapFits] at hfits
      split at hfits
      · rename_i p hp
        simp only [decide_eq_true_eq] at hfits
        refine ⟨p, hp, hfits, ?_, hp ▸ hgap⟩
        -- a line break is not written as a space
        rw [← Bool.not_eq_true]
        intro hnl
        have hmem : p.lexeme ∈ c.gap := by
          rw [← h.gap, hp]
          simp
        have hbreak := hsound.breakText p.lexeme hmem hnl
        rw [show p.lexeme.text = [' '] from hfits] at hbreak
        simp [Text.IsBreakText] at hbreak
      · simp at hfits
    · simp only [Bool.not_eq_true] at hfits
      exact ⟨.blanks [' '], by simp [hfits, braceGap, hopen], rfl, rfl, isGap_blanks rules [' ']⟩
  | ownLine =>
    by_cases hfits : braceGapFits .ownLine s.gap = true
    · refine ⟨s.gap, by simp [hfits], hgap, by simpa [braceGapFits] using hfits⟩
    · simp only [Bool.not_eq_true] at hfits
      refine ⟨[.newline rules.lineEnding.text], by simp [hfits, braceGap, hopen], ?_, rfl⟩
      refine ⟨?_, ?_, ?_⟩ <;> intro p hp <;> rw [List.mem_singleton.1 hp]
      · rfl
      · rfl
      · intro _ _
        rfl

theorem Cell.DrawnBy.indentFor_item (h : c.DrawnBy s) (rules : RuleSet) (here : Place) :
    indentFor rules { braces := here.braces, groups := here.groups } s.item = here.indent rules c := by
  rw [Place.indent, h.piece]
  rfl

theorem movesBrace_eq_false (h : c.DrawnBy s) (hsound : c.IsSound edges here)
    (hheader : header.any (fun p => endsHeader p && !p.suppressed) = here.header)
    (hplaced : c.isPlaced here = false) : movesBrace rules header s = false := by
  rw [movesBrace, placesBrace_eq h hsound hheader, hplaced, Bool.false_and]

/-- Outside a placed brace, the gap is left or replaced by the blanks that a bracket wants. -/
theorem prepare_of_not_placed (h : c.DrawnBy s) (hsound : c.IsSound edges here)
    (hheader : header.any (fun p => endsHeader p && !p.suppressed) = here.header)
    (hplaced : c.isPlaced here = false) :
    prepare rules header (edges here.index) s =
      if gapDiffers (edges here.index) s.gap then ⟨gapOf ((edges here.index).getD []), s.item⟩
      else s := by
  simp only [prepare, movesBrace_eq_false h hsound hheader hplaced, Bool.false_eq_true, if_false]

theorem exists_newline_of_breaks (h : c.DrawnBy s) (hbreaks : breaks c.gap ≠ 0) :
    ∃ p ∈ s.gap, p.isNewline = true := by
  rw [h.breaks_gap] at hbreaks
  exact List.countP_pos_iff.1 (by omega)

theorem not_newline_of_breaks (h : c.DrawnBy s) (hbreaks : breaks c.gap = 0) :
    ∀ p ∈ s.gap, p.isNewline = false := by
  rw [h.breaks_gap, List.countP_eq_zero] at hbreaks
  intro p hp
  simpa using hbreaks p hp

/-- A gap at the start of a line is not changed before the pass over the lines. -/
theorem prepare_of_line_start (h : c.DrawnBy s) (hsound : c.IsSound edges here)
    (hheader : header.any (fun p => endsHeader p && !p.suppressed) = here.header)
    (hplaced : c.isPlaced here = false) (hline : here.start = true ∨ breaks c.gap ≠ 0) :
    prepare rules header (edges here.index) s = s := by
  rw [prepare_of_not_placed h hsound hheader hplaced]
  rcases hline with hstart | hbreaks
  · rw [edges_eq_none hsound (.inl hstart), gapDiffers_none]
    rfl
  · rw [gapDiffers_of_newline (exists_newline_of_breaks h hbreaks)]
    rfl

theorem gapOf_eq (t : Text) : (gapOf t).map Piece.lexeme = blanks t := by
  unfold gapOf blanks
  split
  · rfl
  · simp_all [Piece.blanks, Piece.lexeme]

theorem not_isNewline_gapOf (t : Text) : ∀ p ∈ gapOf t, p.isNewline = false := by
  intro p hp
  unfold gapOf at hp
  split at hp
  · simp at hp
  · rw [List.mem_singleton.1 hp]
    rfl

theorem not_placed_of_inside (hsound : c.IsSound edges here) (hinside : c.inside = true) :
    c.isPlaced here = false := by
  simp [Cell.isPlaced, hsound.kept hinside]

/-- A placed brace is not left as it is. -/
theorem not_suppressed_of_placed (h : c.DrawnBy s) (hplaced : c.isPlaced here = true) :
    s.item.suppressed = false := by
  simp only [Cell.isPlaced, Bool.and_eq_true, Bool.not_eq_true'] at hplaced
  exact h.kept.trans hplaced.1.2

/-- A gap with one line break before an item that starts its line. -/
theorem lineGap_of_one_break {st : LineState} {s : Slot} (hgap : IsGap rules false s.gap)
    (hcount : breaks (s.gap.map Piece.lexeme) = 1) (hitem : s.item.suppressed = false) :
    lineGap rules false st s = newline rules :: blanks (indentFor rules st s.item).text := by
  simp [lineGap, any_suppressed_false hgap, hcount, newBreaks, breaksLeft, hitem]

/-- The pass over the lines makes of a gap at the start of a line what the page says. -/
theorem lineGap_of_line_start (h : c.DrawnBy s) (hsound : c.IsSound edges here)
    (hinside : c.inside = false) (hplaced : c.isPlaced here = false)
    (hline : here.start = true ∨ breaks c.gap ≠ 0) :
    lineGap rules here.start { braces := here.braces, groups := here.groups } s =
      newGap rules edges here c := by
  have hgap : IsGap rules false s.gap := by simpa [hinside] using h.isGap rules hsound
  have hstart : (here.start || decide (breaks c.gap ≠ 0)) = true := by simpa using hline
  rw [newGap, if_neg (by simp [hinside]), if_neg (by simp [hplaced]), if_pos hstart, lineGap]
  simp only [any_suppressed_false hgap, Bool.false_eq_true, if_false, h.gap, h.kept,
    h.indentFor_item rules here]
  rw [if_pos hstart]

/-- The passes put a brace where the page says. -/
theorem textOf_lineGap_placed (h : c.DrawnBy s) (hsound : c.IsSound edges here)
    (hheader : header.any (fun p => endsHeader p && !p.suppressed) = here.header)
    (hinside : c.inside = false) (hplaced : c.isPlaced here = true) :
    textOf (lineGap rules here.start { braces := here.braces, groups := here.groups }
        (prepare rules header (edges here.index) s)) =
      textOf (newGap rules edges here c) := by
  have hstart : here.start = false := hsound.placed hplaced
  have hgap := placed_gap rules h hsound hheader hplaced
  rw [newGap, if_neg (by simp [hinside]), if_pos hplaced, hstart]
  cases hopen : rules.openBrace with
  | sameLine =>
    rw [hopen] at hgap
    obtain ⟨p, hp, htext, hnl, -⟩ := hgap
    have hblanks : ∀ q ∈ (prepare rules header (edges here.index) s).gap, q.isNewline = false := by
      simpa [hp] using hnl
    rw [lineGap_blanks hblanks, hp, textOf_blanks]
    simp [Piece.lexeme, htext]
  | ownLine =>
    rw [hopen] at hgap
    obtain ⟨g, hg, hgap, hcount⟩ := hgap
    have hbreaks : breaks (g.map Piece.lexeme) = 1 := by
      rw [breaks, List.countP_map]
      exact hcount
    have hkept := not_suppressed_of_placed h hplaced
    rw [hg, lineGap_of_one_break (s := ⟨g, s.item⟩) hgap hbreaks hkept, h.indentFor_item rules here]

/-- The passes together make of the gap of a slot what the page says. -/
theorem textOf_lineGap_prepare (h : c.DrawnBy s) (hsound : c.IsSound edges here)
    (hheader : header.any (fun p => endsHeader p && !p.suppressed) = here.header) :
    textOf (lineGap rules here.start { braces := here.braces, groups := here.groups }
        (prepare rules header (edges here.index) s)) =
      textOf (newGap rules edges here c) := by
  by_cases hinside : c.inside = true
  · -- left as it is
    have hplaced := not_placed_of_inside hsound hinside
    have hgap : IsGap rules true s.gap := hinside ▸ h.isGap rules hsound
    rw [prepare_of_not_placed h hsound hheader hplaced, edges_eq_none hsound (.inr (.inl hinside)),
      gapDiffers_none, newGap, if_pos hinside]
    simp only [Bool.false_eq_true, if_false]
    rw [lineGap_kept _ _ hgap (h.kept.trans (hsound.kept hinside)), h.gap]
  simp only [Bool.not_eq_true] at hinside
  by_cases hplaced : c.isPlaced here = true
  · exact textOf_lineGap_placed h hsound hheader hinside hplaced
  simp only [Bool.not_eq_true] at hplaced
  by_cases hline : here.start = true ∨ breaks c.gap ≠ 0
  · rw [prepare_of_line_start h hsound hheader hplaced hline,
      lineGap_of_line_start h hsound hinside hplaced hline]
  -- within a line the gap is left or replaced by the blanks that a bracket wants
  simp only [not_or, Bool.not_eq_true, ne_eq, Decidable.not_not] at hline
  rw [newGap, if_neg (by simp [hinside]), if_neg (by simp [hplaced]), if_neg (by simp [hline]),
    prepare_of_not_placed h hsound hheader hplaced, hline.1]
  have hblanks := not_newline_of_breaks h hline.2
  cases hedge : edges here.index with
  | none => rw [gapDiffers_none, if_neg (by simp), lineGap_blanks hblanks, h.gap]
  | some t =>
    by_cases hdiffers : gapDiffers (some t) s.gap = true
    · rw [if_pos hdiffers, lineGap_blanks (not_isNewline_gapOf t)]
      simp [gapOf_eq]
    · have hgap : IsGap rules false s.gap := by simpa [hinside] using h.isGap rules hsound
      rw [if_neg hdiffers, lineGap_blanks hblanks, textOf_blanks, Piece.textOf_map_lexeme,
        render_of_not_gapDiffers hgap hblanks hdiffers]

/-- What the pass over the lines meets is a slot as it wants it. -/
theorem isSlot_prepare (h : c.DrawnBy s) (hsound : c.IsSound edges here)
    (hheader : header.any (fun p => endsHeader p && !p.suppressed) = here.header) :
    IsSlot rules here.start (prepare rules header (edges here.index) s) := by
  have hitem : s.item.isLayout = false := by
    have := hsound.item
    rwa [← h.item] at this
  by_cases hplaced : c.isPlaced here = true
  · have hgap := placed_gap rules h hsound hheader hplaced
    have hdirective : ∀ name, s.item.kind ≠ .directive name := by
      intro name hname
      simp only [Cell.isPlaced, Lexeme.isMark, Bool.and_eq_true, decide_eq_true_eq] at hplaced
      rw [← h.item] at hplaced
      have hkind : s.item.kind = .punctuation := hplaced.1.1.1
      simp [hkind] at hname
    refine ⟨⟨false, ?_, by simp⟩, by rw [prepare_item]; exact hitem, ?_⟩
    · cases hopen : rules.openBrace with
      | sameLine =>
        rw [hopen] at hgap
        obtain ⟨p, hp, -, -, hgap⟩ := hgap
        rw [hp]
        exact hgap
      | ownLine =>
        rw [hopen] at hgap
        obtain ⟨g, hg, hgap, -⟩ := hgap
        rw [hg]
        exact hgap
    · rw [prepare_item]
      intro name hname
      exact absurd hname (hdirective name)
  · simp only [Bool.not_eq_true] at hplaced
    rw [prepare_of_not_placed h hsound hheader hplaced]
    have hdirective : ∀ name, s.item.kind = .directive name →
        here.start = true ∨ ∃ p ∈ s.gap, p.isNewline = true := by
      intro name hname
      have hname' : c.item.kind = .directive name := by
        rw [← h.item]
        exact hname
      exact (hsound.directive name hname').imp id (exists_newline_of_breaks h)
    by_cases hdiffers : gapDiffers (edges here.index) s.gap = true
    · rw [if_pos hdiffers]
      refine ⟨⟨false, isGap_gapOf rules _, by simp⟩, hitem, ?_⟩
      intro name hname
      refine .inl ((hdirective name hname).resolve_right ?_)
      intro hnl
      rw [gapDiffers_of_newline hnl] at hdiffers
      simp at hdiffers
    · rw [if_neg hdiffers]
      refine ⟨⟨c.inside, h.isGap rules hsound, ?_⟩, hitem, hdirective⟩
      intro hinside
      exact h.kept.trans (hsound.kept hinside)

/-- The gap before a placed brace that is as the page wants it is changed by none of the passes. -/
theorem settled_of_placed (h : c.DrawnBy s) (hsound : c.IsSound edges here)
    (hheader : header.any (fun p => endsHeader p && !p.suppressed) = here.header)
    (hinside : c.inside = false) (hplaced : c.isPlaced here = true)
    (hgap : newGap rules edges here c = c.gap) :
    movesBrace rules header s = false ∧
      lineGap rules here.start { braces := here.braces, groups := here.groups } s =
        s.gap.map Piece.lexeme := by
  have hstart : here.start = false := hsound.placed hplaced
  have hgapPieces : IsGap rules false s.gap := by simpa [hinside] using h.isGap rules hsound
  rw [newGap, if_neg (by simp [hinside]), if_pos hplaced, ← h.gap] at hgap
  rw [movesBrace, placesBrace_eq h hsound hheader, hplaced, Bool.true_and, hstart]
  cases hopen : rules.openBrace with
  | sameLine =>
    rw [hopen] at hgap
    obtain ⟨p, hp, hlex⟩ := List.map_eq_singleton_iff.1 hgap.symm
    have hblanks : ∀ q ∈ s.gap, q.isNewline = false := by
      rw [hp]
      intro q hq
      rw [List.mem_singleton.1 hq, ← Piece.lexeme_isNewline, hlex]
      rfl
    have htext : p.text = [' '] := congrArg Lexeme.text hlex
    exact ⟨by simp [braceGapFits, hp, htext], lineGap_blanks hblanks⟩
  | ownLine =>
    rw [hopen] at hgap
    have hcount : breaks (s.gap.map Piece.lexeme) = 1 := by
      rw [← hgap, breaks_cons, breaks, List.countP_eq_zero.2 (by
        intro l hl
        simp [not_isNewline_blanks l hl])]
      rfl
    constructor
    · have hone : s.gap.countP Piece.isNewline = 1 := by
        rw [breaks, List.countP_map] at hcount
        exact hcount
      simp [braceGapFits, hone]
    · rw [lineGap_of_one_break hgapPieces hcount (not_suppressed_of_placed h hplaced),
        h.indentFor_item rules here]
      exact hgap

/-- A gap that is as the page wants it is changed by none of the passes. -/
theorem settled_of_newGap (h : c.DrawnBy s) (hsound : c.IsSound edges here)
    (hheader : header.any (fun p => endsHeader p && !p.suppressed) = here.header)
    (hgap : newGap rules edges here c = c.gap) :
    movesBrace rules header s = false ∧ gapDiffers (edges here.index) s.gap = false ∧
      lineGap rules here.start { braces := here.braces, groups := here.groups } s =
        s.gap.map Piece.lexeme := by
  by_cases hinside : c.inside = true
  · refine ⟨movesBrace_eq_false h hsound hheader (not_placed_of_inside hsound hinside), ?_, ?_⟩
    · rw [edges_eq_none hsound (.inr (.inl hinside)), gapDiffers_none]
    · exact lineGap_kept _ _ (hinside ▸ h.isGap rules hsound) (h.kept.trans (hsound.kept hinside))
  simp only [Bool.not_eq_true] at hinside
  by_cases hplaced : c.isPlaced here = true
  · obtain ⟨hmoves, hlines⟩ := settled_of_placed h hsound hheader hinside hplaced hgap
    refine ⟨hmoves, ?_, hlines⟩
    rw [edges_eq_none hsound (.inr (.inr hplaced)), gapDiffers_none]
  simp only [Bool.not_eq_true] at hplaced
  refine ⟨movesBrace_eq_false h hsound hheader hplaced, ?_⟩
  by_cases hline : here.start = true ∨ breaks c.gap ≠ 0
  · constructor
    · rcases hline with hstart | hbreaks
      · rw [edges_eq_none hsound (.inl hstart), gapDiffers_none]
      · exact gapDiffers_of_newline (exists_newline_of_breaks h hbreaks)
    · rw [lineGap_of_line_start h hsound hinside hplaced hline, hgap, h.gap]
  · simp only [not_or, Bool.not_eq_true, ne_eq, Decidable.not_not] at hline
    have hblanks := not_newline_of_breaks h hline.2
    refine ⟨?_, by rw [hline.1, lineGap_blanks hblanks]⟩
    rw [newGap, if_neg (by simp [hinside]), if_neg (by simp [hplaced]),
      if_neg (by simp [hline])] at hgap
    cases hedge : edges here.index with
    | none => rfl
    | some t =>
      rw [hedge] at hgap
      have htext := congrArg textOf hgap
      rw [textOf_blanks, ← h.gap, Piece.textOf_map_lexeme] at htext
      simp [gapDiffers, htext]

/-- The passes make of an item what the page says. -/
theorem lexeme_withEnding_item (h : c.DrawnBy s) (hitem : c.item.kind.isLayout = false) :
    (withEnding rules s.item).lexeme = newItem rules c.kept c.item := by
  obtain ⟨gap, ⟨kind, text, span, suppressed⟩⟩ := s
  have hspan : span ≠ none := h.itemSource
  have hkept : suppressed = c.kept := h.kept
  rw [← h.item] at hitem ⊢
  rw [← hkept]
  cases span with
  | none => exact absurd rfl hspan
  | some span =>
    cases suppressed with
    | true => rfl
    | false =>
      cases kind <;> first | rfl | simp [Piece.lexeme, TokenKind.isLayout] at hitem

theorem place_after (h : c.DrawnBy s) (rules : RuleSet) (here : Place) :
    (here.after rules c).braces = bracesAfter here.braces [s.item] ∧
      (here.after rules c).groups =
          (indentFor rules { braces := here.braces, groups := here.groups } s.item).groups ∧
        (some s.item).any (fun p => endsHeader p && !p.suppressed) = (here.after rules c).header := by
  refine ⟨?_, ?_, ?_⟩
  · simp only [Place.after, h.piece]
    rfl
  · simp only [Place.after, h.indentFor_item rules here]
  · simp only [Place.after, h.piece, ← h.kept, Option.any_some]
    rfl

end Prepare

/-! ## All slots -/

section Pages

variable {edges : Nat → Option Text} {pairs : List BracketPair} {cells : List Cell}
  {slots : List Slot}

theorem prepare_cons (header : Option Piece) (i : Nat) (s : Slot) (more : List Slot) :
    spaceBrackets rules pairs i (placeBraces rules header (s :: more)) =
      prepare rules header (edgeBlanks rules pairs i) s ::
        spaceBrackets rules pairs (i + 1) (placeBraces rules (some s.item) more) := rfl

/-- Slot by slot the passes make of a sheet what the page says. -/
theorem linesText_cells (hdrawn : CellsDrawn cells slots) {here : Place}
    (hsound : SoundCells rules edges here cells) {header : Option Piece}
    (hheader : header.any (fun p => endsHeader p && !p.suppressed) = here.header)
    (hedges : ∀ i, edgeBlanks rules pairs i = edges i) (tail : List Piece) :
    linesText rules here.start here.braces here.groups
        (spaceBrackets rules pairs here.index (placeBraces rules header slots)) tail =
      textOf ((newCells rules edges here cells).flatMap Cell.lexemes) ++
        textOf (tailGap rules (here.start && cells.isEmpty) tail) := by
  induction hdrawn generalizing here header with
  | nil => simp [spaceBrackets, placeBraces, linesText, newCells]
  | @cons c s cs ss hs hss ih =>
    obtain ⟨hc, hmore⟩ := hsound
    obtain ⟨hbraces, hgroups, hheader'⟩ := place_after hs rules here
    have ih : linesText rules false (here.after rules c).braces (here.after rules c).groups
        (spaceBrackets rules pairs (here.index + 1) (placeBraces rules (some s.item) ss)) tail = _ :=
      ih hmore hheader'
    rw [hbraces, hgroups] at ih
    have hitem : (withEnding rules s.item).text = (newItem rules c.kept c.item).text :=
      congrArg Lexeme.text (lexeme_withEnding_item hs hc.item)
    rw [prepare_cons, linesText, prepare_item, hedges, textOf_lineGap_prepare hs hc hheader, hitem, ih]
    simp [newCells, newCell, Cell.lexemes, Place.after]

theorem isSlot_cells (hdrawn : CellsDrawn cells slots) {here : Place}
    (hsound : SoundCells rules edges here cells) {header : Option Piece}
    (hheader : header.any (fun p => endsHeader p && !p.suppressed) = here.header)
    (hedges : ∀ i, edgeBlanks rules pairs i = edges i) :
    (∀ s ∈ (spaceBrackets rules pairs here.index (placeBraces rules header slots)).head?,
        IsSlot rules here.start s) ∧
      ∀ s ∈ (spaceBrackets rules pairs here.index (placeBraces rules header slots)).tail,
        IsSlot rules false s := by
  induction hdrawn generalizing here header with
  | nil => simp [spaceBrackets, placeBraces]
  | @cons c s cs ss hs hss ih =>
    obtain ⟨hc, hmore⟩ := hsound
    obtain ⟨-, -, hheader'⟩ := place_after hs rules here
    obtain ⟨hhead, htail⟩ := ih hmore hheader'
    rw [prepare_cons, hedges]
    constructor
    · intro s' hs'
      rw [← Option.some.inj hs']
      exact isSlot_prepare hs hc hheader
    · intro s' hs'
      change s' ∈ spaceBrackets rules pairs (here.after rules c).index
        (placeBraces rules (some s.item) ss) at hs'
      generalize spaceBrackets rules pairs (here.after rules c).index
        (placeBraces rules (some s.item) ss) = rest at hs' hhead htail
      cases rest with
      | nil => simp at hs'
      | cons r rest =>
        rcases List.mem_cons.1 hs' with rfl | hs'
        · exact hhead s' rfl
        · exact htail s' hs'

/-- Nothing is to be done for cells that are as they should be. -/
theorem settled_cells (hdrawn : CellsDrawn cells slots) {here : Place}
    (hsound : SoundCells rules edges here cells) {header : Option Piece}
    (hheader : header.any (fun p => endsHeader p && !p.suppressed) = here.header)
    (hedges : ∀ i, edgeBlanks rules pairs i = edges i) {tail : List Piece}
    (htail : tailGap rules (here.start && cells.isEmpty) tail = tail.map Piece.lexeme)
    (hnew : newCells rules edges here cells = cells) :
    placeBraces rules header slots = slots ∧ braceDiagnostics rules header slots = [] ∧
      spaceBrackets rules pairs here.index slots = slots ∧
      (∀ j s, slots[j]? = some s → gapDiffers (edges (here.index + j)) s.gap = false) ∧
      LinesSettled rules here.start here.braces here.groups slots tail := by
  induction hdrawn generalizing here header with
  | nil => exact ⟨rfl, rfl, rfl, by simp, by simpa [LinesSettled] using htail⟩
  | @cons c s cs ss hs hss ih =>
    obtain ⟨hc, hmore⟩ := hsound
    obtain ⟨hbraces, hgroups, hheader'⟩ := place_after hs rules here
    rw [newCells, List.cons.injEq] at hnew
    have hgap : newGap rules edges here c = c.gap := congrArg Cell.gap hnew.1
    have hitem : newItem rules c.kept c.item = c.item := congrArg Cell.item hnew.1
    obtain ⟨hmoves, hdiffers, hline⟩ := settled_of_newGap hs hc hheader hgap
    obtain ⟨hplace, hbrace, hspace, hgaps, hlines⟩ := ih hmore hheader'
      (by simpa [Place.after] using htail) hnew.2
    have hitem' : (withEnding rules s.item).text = s.item.text := by
      have := congrArg Lexeme.text ((lexeme_withEnding_item hs hc.item).trans hitem)
      rwa [← hs.item] at this
    refine ⟨?_, ?_, ?_, ?_, ?_⟩
    · rw [placeBraces, hmoves, hplace]
      rfl
    · rw [braceDiagnostics, hmoves, hbrace]
      rfl
    · have hspace' : spaceBrackets rules pairs (here.index + 1) ss = ss := hspace
      simp only [spaceBrackets, hedges, hdiffers, hspace', Bool.false_eq_true, if_false]
    · intro j r hr
      cases j with
      | zero =>
        simp only [List.getElem?_cons_zero, Option.some.injEq] at hr
        subst hr
        exact hdiffers
      | succ j =>
        have := hgaps j r (by simpa using hr)
        rwa [show (here.after rules c).index + j = here.index + (j + 1) by
          simp [Place.after]; omega] at this
    · rw [hbraces, hgroups] at hlines
      exact ⟨hline, hitem', hlines⟩

theorem map_item_placeBraces (header : Option Piece) (slots : List Slot) :
    (placeBraces rules header slots).map Slot.item = slots.map Slot.item := by
  induction slots generalizing header with
  | nil => rfl
  | cons s slots ih =>
    rw [placeBraces, List.map_cons, List.map_cons, ih]
    split <;> rfl

/-- The pieces of a page want the blanks inside brackets that the slots want. -/
theorem edgesOf_eq (rules : RuleSet) (hdrawn : CellsDrawn cells slots) (i : Nat) :
    edgeBlanks rules (livePairs (placeBraces rules none slots)) i = edgesOf rules cells i := by
  have hf : KeepsBrackets fun p => { p with span := none } :=
    ⟨fun _ => rfl, fun _ _ => rfl, fun _ => rfl⟩
  refine (edgeBlanks_map hf ?_ i).symm
  rw [map_item_placeBraces]
  induction hdrawn with
  | nil => rfl
  | cons hs _ ih =>
    simp only [List.map_cons, List.cons.injEq] at ih ⊢
    exact ⟨hs.piece, ih⟩

theorem bracketDiagnostics_eq_nil
    (h : ∀ i s, slots[i]? = some s → gapDiffers (edgeBlanks rules pairs i) s.gap = false) :
    bracketDiagnostics rules pairs slots = [] := by
  have hdiffers (i : Nat) : edgeDiffers rules pairs slots i = false := by
    unfold edgeDiffers
    split
    · rfl
    · rename_i s hs
      exact h i s hs
  simp [bracketDiagnostics, hdiffers]

end Pages

/-! ## Formatting a source -/

section Source

variable {page : Page} {sheet : Sheet}

theorem tailGap_eq (rules : RuleSet) (hdrawn : page.DrawnBy sheet) (start : Bool) :
    tailGap rules start sheet.tail = newTail rules start page.tailInside page.tail := by
  rw [← hdrawn.tail, newTail]
  cases htail : sheet.tail with
  | nil => cases start <;> simp [tailGap, newBreaks, breaks, breaksLeft]
  | cons p ps =>
    have hany : (p :: ps).any Piece.suppressed = page.tailInside := by
      have hp := hdrawn.tailInside p (by simp [htail])
      cases hinside : page.tailInside with
      | true => simp [hp, hinside]
      | false =>
        rw [List.any_eq_false]
        intro q hq
        simp [hdrawn.tailInside q (htail ▸ hq), hinside]
    rw [tailGap, hany]

theorem isGap_tail (hdrawn : page.DrawnBy sheet)
    (htail : ∀ l ∈ page.tail, l.kind.isLayout = true) :
    IsGap rules page.tailInside sheet.tail := by
  refine ⟨?_, hdrawn.tailInside, ?_⟩
  · intro p hp
    apply htail p.lexeme
    rw [← hdrawn.tail]
    exact List.mem_map_of_mem hp
  · intro p hp _ hspan
    exact absurd hspan (hdrawn.tailSource p hp)

/-- The passes make of the pieces of a sheet what the page says, and find nothing where the page is
as it should be. -/
theorem formatPieces_page {ps : List Piece} (hdrawn : page.DrawnBy (.ofPieces ps))
    (hsound : SoundCells rules (edgesOf rules page.cells) {} page.cells)
    (htail : ∀ l ∈ page.tail, l.kind.isLayout = true) :
    (formatPieces rules ps).text = (page.formatted rules).text ∧
      (page.formatted rules = page → (formatPieces rules ps).diagnostics = []) := by
  generalize hsheet : Sheet.ofPieces ps = sheet at hdrawn
  have hedges := edgesOf_eq rules hdrawn.cells
  have hheader : (none : Option Piece).any (fun p => endsHeader p && !p.suppressed) =
      ({} : Place).header := rfl
  have htext := linesText_cells hdrawn.cells hsound hheader hedges sheet.tail
  obtain ⟨hhead, hmore⟩ := isSlot_cells hdrawn.cells hsound hheader hedges
  obtain ⟨hrender, hdiagnostics⟩ := formatLines_slots (isGap_tail hdrawn htail) hhead hmore
  have htailGap := tailGap_eq rules hdrawn page.cells.isEmpty
  constructor
  · have hpieces : (formatPieces rules ps).text = Piece.render (formatLines rules {} (Line.split
        ((spaceBrackets rules (livePairs (placeBraces rules none sheet.slots)) 0
          (placeBraces rules none sheet.slots)).flatMap Slot.pieces ++ sheet.tail))).1 := by
      simp only [formatPieces, Formatted.text, hsheet]
      rfl
    rw [hpieces, hrender]
    refine htext.trans ?_
    simp only [Bool.true_and, htailGap, Page.text, Page.lexemes, Page.formatted, textOf_append]
  · intro hnew
    have hcells : newCells rules (edgesOf rules page.cells) {} page.cells = page.cells :=
      congrArg Page.cells hnew
    have hsettledTail : tailGap rules (({} : Place).start && page.cells.isEmpty) sheet.tail =
        sheet.tail.map Piece.lexeme := by
      rw [Bool.true_and, htailGap, hdrawn.tail]
      exact congrArg Page.tail hnew
    obtain ⟨hplace, hbrace, hspace, hgaps, hlines⟩ :=
      settled_cells hdrawn.cells hsound hheader hedges hsettledTail hcells
    rw [hplace] at hdiagnostics hedges hspace
    have hspace : spaceBrackets rules (livePairs sheet.slots) 0 sheet.slots = sheet.slots := hspace
    have hlast : (formatLines rules {}
        (Line.split (sheet.slots.flatMap Slot.pieces ++ sheet.tail))).2 = [] := by
      have := hdiagnostics
      rw [show ({} : Place).index = 0 from rfl, hspace] at this
      exact this hlines
    have hbracket : bracketDiagnostics rules (livePairs sheet.slots) sheet.slots = [] := by
      apply bracketDiagnostics_eq_nil
      intro i s hs
      rw [hedges]
      simpa using hgaps i s hs
    simp only [formatPieces, hsheet, hplace, hbrace, hspace, hbracket, Sheet.pieces, hlast,
      List.append_nil]

end Source

theorem kind_ne_eof {d : Dialect} {b : Bool} {ls : List Lexeme} (h : IsLexed d b ls) :
    ∀ l ∈ ls, l.kind ≠ .eof := by
  intro l hl
  obtain ⟨b, t, hread⟩ := exists_reads_of_mem h hl
  exact hread.kind_ne_eof

section Tokens

/-- Formats the tokens of a source; the regions that its markers enclose are left as they are. -/
def restyle (rules : RuleSet) (tokens : List Token) : Formatted :=
  format rules tokens (Suppression.scan tokens).format

variable {d : Dialect} {ls : List Lexeme}

/-- Formatting a source gives the text of its formatted page. -/
theorem text_restyle (rules : RuleSet) (h : IsLexed d true ls) :
    (restyle rules (place 0 .origin ls)).text = ((Page.ofLexemes false ls).formatted rules).text :=
  (formatPieces_page (drawnBy_place (kind_ne_eof h) 0 .origin false) (soundCells_ofLexemes rules h)
    (Page.isRegular_ofLexemes false ls).tail).1

/-- Where the page of a source is as it should be, formatting finds nothing. -/
theorem diagnostics_restyle_eq_nil (h : IsLexed d true ls)
    (hpage : (Page.ofLexemes false ls).formatted rules = Page.ofLexemes false ls) :
    (restyle rules (place 0 .origin ls)).diagnostics = [] :=
  (formatPieces_page (drawnBy_place (kind_ne_eof h) 0 .origin false) (soundCells_ofLexemes rules h)
    (Page.isRegular_ofLexemes false ls).tail).2 hpage

end Tokens

end ShaderStyle.Layout
