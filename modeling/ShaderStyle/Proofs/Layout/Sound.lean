import ShaderStyle.Proofs.Layout.Page
import ShaderStyle.Proofs.Token.DirectiveEnd

/-!
# Pages of lexed sources

What lexing and the markers make sure of for every cell of a page (`Cell.IsSound`): gaps are layout,
a directive starts its line, an item in a region is left as it is, and brackets want blanks only
within a line, outside regions, behind an opening bracket or before a closing one.
-/

namespace ShaderStyle.Layout

open Lexer

/-- What holds of a cell of a lexed source. -/
structure Cell.IsSound (edges : Nat → Option Text) (here : Place) (c : Cell) : Prop where
  kept : c.inside = true → c.kept = true
  gap : ∀ l ∈ c.gap, l.kind.isLayout = true
  item : c.item.kind.isLayout = false
  breakText : ∀ l ∈ c.gap, l.isNewline = true → Text.IsBreakText l.text
  directive : ∀ name, c.item.kind = .directive name → here.start = true ∨ breaks c.gap ≠ 0
  placed : c.isPlaced here = true → here.start = false
  edge : ∀ t, edges here.index = some t → here.start = false ∧ c.inside = false ∧
    c.isPlaced here = false ∧ (here.opener = true ∨ isCloser c.piece = true)

/-- No blanks are wanted in a gap without a bracket beside it. -/
theorem Cell.IsSound.edge_eq_none {edges : Nat → Option Text} {here : Place} {c : Cell}
    (h : c.IsSound edges here) (hopener : here.opener = false) (hcloser : isCloser c.piece = false) :
    edges here.index = none := by
  cases hedge : edges here.index with
  | none => rfl
  | some t =>
    have hbracket := (h.edge t hedge).2.2.2
    simp [hopener, hcloser] at hbracket

/-- All cells are those of a lexed source. -/
def SoundCells (rules : RuleSet) (edges : Nat → Option Text) : Place → List Cell → Prop
  | _, [] => True
  | here, c :: more => c.IsSound edges here ∧ SoundCells rules edges (here.after rules c) more

/-! ## Lexed gaps -/

theorem breaks_cons (l : Lexeme) (g : List Lexeme) :
    breaks (l :: g) = breaks g + if l.isNewline then 1 else 0 := by
  simp [breaks, List.countP_cons]

/-- Behind a gap, lexing is at the start of a line if it was before or a line break is in the gap. -/
theorem isLexed_of_gap {d : Dialect} {b : Bool} {g ls : List Lexeme}
    (hg : ∀ l ∈ g, l.kind.isLayout = true) (h : IsLexed d b (g ++ ls)) :
    IsLexed d (b || breaks g ≠ 0) ls ∧ ∀ l ∈ g, l.isNewline = true → Text.IsBreakText l.text := by
  induction g generalizing b with
  | nil => simpa [breaks] using h
  | cons l g ih =>
    rw [List.cons_append, isLexed_cons] at h
    obtain ⟨hread, hmore⟩ := h
    obtain ⟨hls, hg'⟩ := ih (fun l hl => hg l (by simp [hl])) hmore
    obtain ⟨kind, text⟩ := l
    have hl := hg ⟨kind, text⟩ (by simp)
    rw [breaks_cons]
    cases kind <;> simp [TokenKind.isLayout] at hl
    · refine ⟨by simpa [lineStartAfter, Lexeme.isNewline] using hls, ?_⟩
      intro l hl hnl
      rcases List.mem_cons.1 hl with rfl | hl
      · simp [Lexeme.isNewline] at hnl
      · exact hg' l hl hnl
    · refine ⟨by simpa [lineStartAfter, Lexeme.isNewline] using hls, ?_⟩
      intro l hl hnl
      rcases List.mem_cons.1 hl with rfl | hl
      · exact (reads_lineBreak_iff.1 hread).1
      · exact hg' l hl hnl

/-! ## Sound cells -/

/-- What the place before a cell says of the cells before it, and of a region that is open there. -/
structure Place.Follows (here : Place) (inside : Bool) (before : List Cell) : Prop where
  index : here.index = before.length
  start : here.start = before.isEmpty
  noHeader : before = [] → here.header = false
  header : ∀ c ∈ before.getLast?, here.header = (endsHeader c.piece && !c.kept)
  opener : ∀ c ∈ before.getLast?, here.opener = isOpener c.piece
  inside : inside = true → ∃ c ∈ before.getLast?, c.kept = true

theorem Place.Follows.after {here : Place} {before : List Cell} {c : Cell} (rules : RuleSet)
    (hc : c.kept = keeps .format c.inside c.item) (h : here.Follows c.inside before) :
    (here.after rules c).Follows (insideAfter .format c.inside c.item) (before ++ [c]) := by
  refine ⟨by simp [Place.after, h.index], by simp [Place.after], by simp, by simp [Place.after],
    by simp [Place.after], ?_⟩
  intro hinside
  exact ⟨c, by simp, hc.trans (keeps_of_insideAfter hinside)⟩

theorem isCloser_of_isPlaced {here : Place} {c : Cell} (h : c.isPlaced here = true) :
    isCloser c.piece = false := by
  simp only [Cell.isPlaced, Lexeme.isMark, Bool.and_eq_true, decide_eq_true_eq] at h
  simp [isCloser, Cell.piece, h.1.1.2]

theorem endsHeader_of_isOpener {p : Piece} (h : isOpener p = true) : endsHeader p = false := by
  simp only [isOpener, Bool.and_eq_true, Bool.or_eq_true, decide_eq_true_eq] at h
  obtain ⟨hkind, htext | htext⟩ := h
  · simp [endsHeader, hkind, htext]
  · simp [endsHeader, hkind, htext]

/-- Where the brackets want blanks. -/
theorem edge_of_edgesOf {rules : RuleSet} {before more : List Cell} {c : Cell} {here : Place}
    (hfollows : here.Follows c.inside before) (hkept : c.inside = true → c.kept = true) {t : Text}
    (h : edgesOf rules (before ++ c :: more) here.index = some t) :
    here.start = false ∧ c.inside = false ∧ c.isPlaced here = false ∧
      (here.opener = true ∨ isCloser c.piece = true) := by
  have hitems : ((before ++ c :: more).map fun c => (⟨[], c.piece⟩ : Slot)).map Slot.item =
      (before ++ c :: more).map Cell.piece := by
    rw [List.map_map]
    rfl
  obtain ⟨p, hp, hcases⟩ := edge_of_edgeBlanks h
  rw [hitems, hfollows.index] at hcases
  have hstart : before ≠ [] → here.start = false := by
    intro hne
    simpa [hfollows.start] using hne
  rcases hcases with ⟨j, hj, hitem, hopen⟩ | ⟨hpos, hitem, hclose⟩
  · -- the cell before this one is an opening bracket outside regions
    have hj' : before.length - 1 = j := by omega
    rw [List.map_append, List.getElem?_append_left (by simp; omega), List.getElem?_map,
      Option.map_eq_some_iff] at hitem
    obtain ⟨prev, hprev, rfl⟩ := hitem
    have hlast : prev ∈ before.getLast? := by
      rw [List.getLast?_eq_getElem?, hj', hprev]
      rfl
    have hne : before ≠ [] := by
      rintro rfl
      simp at hlast
    have hheader : here.header = false := by
      rw [hfollows.header prev hlast, endsHeader_of_isOpener hopen]
      rfl
    have hinside : c.inside = false := by
      rw [← Bool.not_eq_true]
      intro hinside
      obtain ⟨prev', hprev', hkept'⟩ := hfollows.inside hinside
      rw [Option.mem_unique hprev' hlast] at hkept'
      exact absurd hp (by simp [Cell.piece, hkept'])
    exact ⟨hstart hne, hinside, by simp [Cell.isPlaced, hheader],
      .inl ((hfollows.opener prev hlast).trans hopen)⟩
  · have hc : c.piece = p := by
      rw [List.map_append, List.getElem?_append_right (by simp)] at hitem
      simpa using hitem
    subst hc
    have hne : before ≠ [] := by
      rintro rfl
      simp at hpos
    have hinside : c.inside = false := by
      rw [← Bool.not_eq_true]
      intro hinside
      exact absurd hp (by simp [Cell.piece, hkept hinside])
    refine ⟨hstart hne, hinside, ?_, .inr hclose⟩
    rw [← Bool.not_eq_true]
    intro hplaced
    simp [isCloser_of_isPlaced hplaced] at hclose

/-- The cells of a lexed source are sound. -/
theorem soundCells_of_isLexed {d : Dialect} {rules : RuleSet} {after : Bool}
    {tail : List Lexeme} {before cells : List Cell} {inside : Bool} {here : Place}
    (hfollows : here.Follows inside before) (hregular : Page.Regular after inside cells)
    (hlexed : IsLexed d here.start (cells.flatMap Cell.lexemes ++ tail)) :
    SoundCells rules (edgesOf rules (before ++ cells)) here cells := by
  induction cells generalizing before inside here with
  | nil => trivial
  | cons c cells ih =>
    obtain ⟨rfl, hkeeps, hgap, hitem, hmore⟩ := hregular
    have hkept : c.inside = true → c.kept = true := by
      intro hinside
      rw [hkeeps, hinside]
      rfl
    have hsplit : (c :: cells).flatMap Cell.lexemes ++ tail =
        c.gap ++ (c.item :: (cells.flatMap Cell.lexemes ++ tail)) := by
      simp [Cell.lexemes]
    rw [hsplit] at hlexed
    obtain ⟨hitemLexed, hbreaks⟩ := isLexed_of_gap hgap hlexed
    rw [isLexed_cons] at hitemLexed
    obtain ⟨hread, hrest⟩ := hitemLexed
    have hstart : lineStartAfter (here.start || breaks c.gap ≠ 0) c.item.kind =
        (here.after rules c).start := by
      cases hk : c.item.kind <;> simp [hk, TokenKind.isLayout] at hitem <;>
        simp [lineStartAfter, Place.after]
    rw [hstart] at hrest
    refine ⟨⟨hkept, hgap, hitem, hbreaks, ?_, ?_, fun t ht => edge_of_edgesOf hfollows hkept ht⟩, ?_⟩
    · intro name hname
      have hc : c.item = ⟨.directive name, c.item.text⟩ := by rw [← hname]
      rw [hc] at hread
      simpa using hread.exists_hash.1
    · intro hplaced
      cases before with
      | nil => simp [Cell.isPlaced, hfollows.noHeader rfl] at hplaced
      | cons _ _ => exact hfollows.start
    · have := ih (hfollows.after rules hkeeps) hmore hrest
      rwa [List.append_assoc] at this

theorem soundCells_ofLexemes {d : Dialect} (rules : RuleSet) {ls : List Lexeme}
    (h : IsLexed d true ls) :
    SoundCells rules (edgesOf rules (Page.ofLexemes false ls).cells) {}
      (Page.ofLexemes false ls).cells := by
  have hregular := (Page.isRegular_ofLexemes false ls).cells
  have hlexemes := Page.lexemes_ofLexemes false ls
  rw [← hlexemes] at h
  have hfollows : Place.Follows {} false [] := ⟨rfl, rfl, fun _ => rfl, by simp, by simp, by simp⟩
  exact soundCells_of_isLexed hfollows hregular h

end ShaderStyle.Layout
