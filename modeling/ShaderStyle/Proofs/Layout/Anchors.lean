import ShaderStyle.Proofs.Layout.Division
import ShaderStyle.Proofs.Layout.Reports
import ShaderStyle.Proofs.Token.Positions

/-!
# Where the findings of formatting are

A finding of formatting is made at a piece that comes from the source and may be changed
(`pointsInto_of_mem_formatPieces`). A piece that an earlier pass has put in has no place in the source,
but the pass over the lines never needs one: a line break is put in right behind content, and blanks
right before content (`IsAnchored`), so a line without content, and the blanks at the end of any line,
consist of pieces of the source (`Line.IsAnchored`). So every finding has the span of a token
(`restyle_pointsInto`).
-/

namespace ShaderStyle

/-- The finding is made at one of some pieces, which may be changed. -/
def Diagnostic.PointsInto (source : List Piece) (x : Diagnostic) : Prop :=
  ∃ p ∈ source, p.suppressed = false ∧ p.span = some x.span

/-- Moving over a text that is not empty ends somewhere else. -/
theorem Position.advance_ne {t : Text} (h : t ≠ []) (p : Position) : p.advance t ≠ p := by
  have hlength := List.length_pos_iff.2 h
  rw [Position.advance_eq]
  split
  · intro heq
    have hcolumn : p.column + t.length = p.column := congrArg Position.column heq
    omega
  · rename_i hbreaks
    intro heq
    have hline : p.line + Text.breakCount t = p.line := congrArg Position.line heq
    omega

theorem Piece.firstSpan_cons {p : Piece} {s : Span} (h : p.span = some s) (ps : List Piece) :
    Piece.firstSpan (p :: ps) = s := by
  rw [Piece.firstSpan, List.findSome?_cons_of_isSome (by simp [h])]
  simp [h]

namespace Layout

variable {rules : RuleSet} {source : List Piece}

/-! ## Pieces that were put in -/

/-- A piece that was put in is a line break behind content, or stands right before content. `behind`
says whether content stands before the pieces on their line. -/
def IsAnchored (behind : Bool) : List Piece → Prop
  | [] => True
  | p :: more =>
    (p.span = none → p.isLayout = true ∧
      if p.isNewline then behind = true else ∃ q ∈ more.head?, q.isLayout = false) ∧
      IsAnchored (!p.isNewline && (behind || !p.isLayout)) more

/-- Pieces with a span are pieces of the source. -/
def AreFrom (source ps : List Piece) : Prop :=
  ∀ p ∈ ps, p.span ≠ none → p ∈ source

/-- A slot as the passes before leave it: its gap comes from the source, or it was put in and is no
line break at the start. -/
structure Slot.IsAnchored (source : List Piece) (start : Bool) (s : Slot) : Prop where
  pieces : AreFrom source s.pieces
  layout : s.item.isLayout = false
  item : s.item.span ≠ none
  gap : (∀ p ∈ s.gap, p.span ≠ none) ∨ (∃ t, s.gap = gapOf t) ∨
    start = false ∧ ∃ t, s.gap = [.newline t]

theorem isAnchored_source_append {g ps : List Piece} (hg : ∀ p ∈ g, p.span ≠ none)
    (hps : ∀ behind, IsAnchored behind ps) (behind : Bool) : IsAnchored behind (g ++ ps) := by
  induction g generalizing behind with
  | nil => exact hps behind
  | cons p g ih =>
    refine ⟨fun hspan => absurd hspan (hg p (by simp)), ih (fun q hq => hg q (by simp [hq])) _⟩

theorem isAnchored_item {item : Piece} {ps : List Piece} (hlayout : item.isLayout = false)
    (hitem : item.span ≠ none) (hps : IsAnchored true ps) (behind : Bool) :
    IsAnchored behind (item :: ps) := by
  refine ⟨fun hspan => absurd hspan hitem, ?_⟩
  rwa [not_isNewline_of_content hlayout, hlayout, Bool.not_false, Bool.or_true, Bool.and_true]

theorem isAnchored_slots {tail : List Piece} (htail : ∀ p ∈ tail, p.span ≠ none)
    {slots : List Slot} {behind : Bool}
    (hfirst : ∀ s ∈ slots.head?, Slot.IsAnchored source (!behind) s)
    (hslots : ∀ s ∈ slots.tail, Slot.IsAnchored source false s) :
    IsAnchored behind (slots.flatMap Slot.pieces ++ tail) := by
  induction slots generalizing behind with
  | nil =>
    have hnone (behind : Bool) : IsAnchored behind [] := trivial
    simpa using isAnchored_source_append htail hnone behind
  | cons s slots ih =>
    have hs := hfirst s rfl
    have hmore : IsAnchored true (slots.flatMap Slot.pieces ++ tail) := by
      apply ih
      · intro r hr
        exact hslots r (List.mem_of_mem_head? hr)
      · intro r hr
        exact hslots r (List.mem_of_mem_tail hr)
    have hitem (behind : Bool) : IsAnchored behind (s.item :: (slots.flatMap Slot.pieces ++ tail)) :=
      isAnchored_item hs.layout hs.item hmore behind
    rw [List.flatMap_cons, Slot.pieces, List.append_assoc, List.append_assoc, List.singleton_append]
    rcases hs.gap with hgap | ⟨t, hgap⟩ | ⟨hstart, t, hgap⟩
    · exact isAnchored_source_append hgap hitem behind
    · rw [hgap]
      unfold gapOf
      split
      · exact hitem behind
      · exact ⟨fun _ => ⟨rfl, s.item, rfl, hs.layout⟩, hitem _⟩
    · rw [hgap]
      have hnewline : (Piece.newline t).isNewline = true := rfl
      refine ⟨fun _ => ⟨rfl, ?_⟩, hitem _⟩
      rw [if_pos hnewline]
      simpa using hstart

/-! ## Lines -/

/-- A line of anchored pieces: only its line break, behind content, and blanks in front of content may
have been put in. -/
structure Line.IsAnchored (behind : Bool) (l : Line) : Prop where
  nonempty : l.pieces ≠ []
  content : ∀ p ∈ l.content, p.span ≠ none
  trailing : ∀ xs blanks, l.body = xs ++ blanks → (∀ p ∈ blanks, p.isLayout = true) →
    ∀ p ∈ blanks, p.span ≠ none
  ending : ∀ nl ∈ l.ending, nl.span = none → behind = true ∨ l.content ≠ []

theorem Line.isAnchored_break {behind : Bool} {p : Piece} (h : p.span = none → behind = true) :
    (⟨[], some p⟩ : Line).IsAnchored behind := by
  refine ⟨by simp [Line.pieces], by simp [Line.content], ?_, ?_⟩
  · intro xs blanks hbody _ p hp
    rw [(List.append_eq_nil_iff.1 hbody.symm).2] at hp
    simp at hp
  · intro nl hnl hspan
    rw [Option.mem_some_iff] at hnl
    exact .inl (h (hnl ▸ hspan))

/-- An anchored line, with one piece more in front. -/
theorem Line.IsAnchored.cons {behind : Bool} {p : Piece} {body : List Piece} {ending : Option Piece}
    (hcontent : ∀ q ∈ (⟨body, ending⟩ : Line).content, q.span ≠ none)
    (htrailing : ∀ xs blanks, body = xs ++ blanks → (∀ q ∈ blanks, q.isLayout = true) →
      ∀ q ∈ blanks, q.span ≠ none)
    (hending : ∀ nl ∈ ending, nl.span = none →
      (behind || !p.isLayout) = true ∨ (⟨body, ending⟩ : Line).content ≠ [])
    (hp : p.span = none → p.isLayout = true ∧ ∃ q ∈ body.head?, q.isLayout = false) :
    (⟨p :: body, ending⟩ : Line).IsAnchored behind := by
  refine ⟨by simp [Line.pieces], ?_, ?_, ?_⟩
  · intro q hq
    rcases List.mem_filter.1 hq with ⟨hmem, hlayout⟩
    rcases List.mem_cons.1 hmem with rfl | hmem
    · intro hspan
      simp [(hp hspan).1] at hlayout
    · exact hcontent q (List.mem_filter.2 ⟨hmem, hlayout⟩)
  · intro xs blanks hbody hblanks
    cases xs with
    | cons x xs => exact htrailing xs blanks (List.cons.inj hbody).2 hblanks
    | nil =>
      rw [List.nil_append] at hbody
      subst hbody
      intro q hq
      rcases List.mem_cons.1 hq with rfl | hq
      · -- what was put in would stand before content
        intro hspan
        rcases (hp hspan).2 with ⟨r, hr, hlayout⟩
        simp [hblanks r (List.mem_cons_of_mem q (List.mem_of_mem_head? hr))] at hlayout
      · exact htrailing [] body rfl (fun r hr => hblanks r (by simp [hr])) q hq
  · intro nl hnl hspan
    by_cases hlayout : p.isLayout = true
    · have hsame : (⟨p :: body, ending⟩ : Line).content = (⟨body, ending⟩ : Line).content := by
        simp [Line.content, hlayout]
      rw [hsame]
      simpa [hlayout] using hending nl hnl hspan
    · right
      simp [Line.content, hlayout]

/-- Dividing anchored pieces gives anchored lines. -/
theorem isAnchored_split {behind : Bool} {ps : List Piece} (h : IsAnchored behind ps) :
    (∀ l ∈ (Line.split ps).head?, l.IsAnchored behind) ∧
      ∀ l ∈ (Line.split ps).tail, l.IsAnchored false := by
  induction ps generalizing behind with
  | nil => simp [Line.split]
  | cons p ps ih =>
    rcases h with ⟨hinserted, hmore⟩
    rcases ih hmore with ⟨hfirst, hrest⟩
    rw [Line.split]
    split
    · rename_i hp
      rw [hp] at hinserted hfirst
      constructor
      · intro l hl
        rw [List.head?_cons, Option.mem_some_iff] at hl
        subst hl
        exact Line.isAnchored_break fun hspan => (hinserted hspan).2
      · rw [List.tail_cons]
        exact forall_mem_of_head?_tail hfirst hrest
    · rename_i hp
      rw [Bool.not_eq_true] at hp
      rw [hp, Bool.not_false, Bool.true_and] at hfirst
      -- content right behind the piece is on the same line
      have hhead : p.span = none → p.isLayout = true ∧
          ∃ l ∈ (Line.split ps).head?, ∃ q ∈ l.body.head?, q.isLayout = false := by
        intro hspan
        rcases hinserted hspan with ⟨hlayout, hnext⟩
        rw [hp, if_neg Bool.false_ne_true] at hnext
        rcases hnext with ⟨q, hq, hcontent⟩
        refine ⟨hlayout, ?_⟩
        cases ps with
        | nil => simp at hq
        | cons r ps =>
          rw [List.head?_cons, Option.mem_some_iff] at hq
          subst hq
          rw [Line.split, if_neg (by simp [not_isNewline_of_content hcontent])]
          cases Line.split ps with
          | nil => exact ⟨_, rfl, r, rfl, hcontent⟩
          | cons m ls => exact ⟨_, rfl, r, rfl, hcontent⟩
      generalize Line.split ps = ls at hfirst hrest hhead
      cases ls with
      | nil =>
        refine ⟨?_, by simp [Line.consToFirst]⟩
        intro l hl
        rw [Line.consToFirst, List.head?_cons, Option.mem_some_iff] at hl
        subst hl
        refine Line.IsAnchored.cons (by simp [Line.content]) ?_ (by simp) (by simpa using hhead)
        intro xs blanks hbody _ q hq
        rw [(List.append_eq_nil_iff.1 hbody.symm).2] at hq
        simp at hq
      | cons m ls =>
        refine ⟨?_, hrest⟩
        intro l hl
        rw [Line.consToFirst, List.head?_cons, Option.mem_some_iff] at hl
        subst hl
        have hm := hfirst m rfl
        exact Line.IsAnchored.cons hm.content hm.trailing hm.ending (by simpa using hhead)

/-! ## Findings about a line -/

theorem pointsInto_of {x : Diagnostic} {p : Piece} (hp : p ∈ source) (hfree : p.suppressed = false)
    (hspan : p.span = some x.span) : x.PointsInto source :=
  ⟨p, hp, hfree, hspan⟩

/-- Blanks at the end of a line that starts differently up to its first content piece. -/
theorem exists_append_of_layout {xs ys rest blanks : List Piece} {first : Piece}
    (h : xs ++ first :: rest = ys ++ blanks) (hfirst : first.isLayout = false)
    (hblanks : ∀ p ∈ blanks, p.isLayout = true) : ∃ zs, rest = zs ++ blanks := by
  have hnot : first ∉ blanks := by
    intro hmem
    simp [hblanks first hmem] at hfirst
  rcases List.append_eq_append_iff.1 h with ⟨zs, -, hrest⟩ | ⟨zs, -, hrest⟩
  · cases zs with
    | nil =>
      rw [List.nil_append] at hrest
      exact absurd (hrest ▸ List.mem_cons_self) hnot
    | cons z zs => exact ⟨zs, (List.cons.inj hrest).2⟩
  · exact absurd (by simp [hrest]) hnot

section Finish

variable {st : LineState} {line : Line}

theorem pointsInto_stripDiagnostics (hfrom : AreFrom source line.pieces)
    (htrailing : ∀ xs blanks, line.body = xs ++ blanks → (∀ p ∈ blanks, p.isLayout = true) →
      ∀ p ∈ blanks, p.span ≠ none) {x : Diagnostic} (hx : x ∈ stripDiagnostics line) :
    x.PointsInto source := by
  unfold stripDiagnostics at hx
  split at hx
  · simp at hx
  · rename_i p more hstripped
    have hp : p ∈ (line.body.reverse.takeWhile isStripped).reverse := by
      have hmem : p ∈ strippedEnd line.body := by simp [hstripped]
      exact (List.mem_filter.1 hmem).1
    have hall : ∀ q ∈ (line.body.reverse.takeWhile isStripped).reverse, isStripped q = true := by
      intro q hq
      exact List.all_eq_true.1 List.all_takeWhile q (List.mem_reverse.1 hq)
    have hbody : line.body =
        stripEnd line.body ++ (line.body.reverse.takeWhile isStripped).reverse := by
      rw [stripEnd, ← List.reverse_append, List.takeWhile_append_dropWhile, List.reverse_reverse]
    have hlayout : ∀ q ∈ (line.body.reverse.takeWhile isStripped).reverse, q.isLayout = true := by
      intro q hq
      exact (Bool.and_eq_true_iff.1 (hall q hq)).1
    rcases Option.ne_none_iff_exists'.1 (htrailing _ _ hbody hlayout p hp) with ⟨s, hs⟩
    have hmem : p ∈ line.pieces := by
      rw [Line.pieces, hbody]
      simp [List.mem_reverse.1 hp]
    rw [List.mem_singleton.1 hx]
    refine pointsInto_of (hfrom p hmem (by simp [hs])) ?_ (by simp [hs])
    simpa using (Bool.and_eq_true_iff.1 (hall p hp)).2

theorem pointsInto_endingDiagnostics {reported : Bool} {ps : List Piece} (hfrom : AreFrom source ps)
    {x : Diagnostic} (hx : x ∈ endingDiagnostics rules reported ps) : x.PointsInto source := by
  unfold endingDiagnostics at hx
  split at hx
  · simp at hx
  · split at hx
    · simp at hx
    · rename_i p hfirst
      have hp : p ∈ ps := List.mem_of_find?_eq_some hfirst
      have hdiffers : (withEnding rules p).text ≠ p.text := by simpa using List.find?_some hfirst
      -- a piece that is left as it is, or was put in, is not changed
      have hfree : ¬ (p.suppressed || p.span.isNone) = true := by
        intro hkept
        rw [withEnding, if_pos hkept] at hdiffers
        exact hdiffers rfl
      rw [Bool.or_eq_true, not_or, Bool.not_eq_true, Option.isNone_iff_eq_none] at hfree
      rcases Option.ne_none_iff_exists'.1 hfree.2 with ⟨s, hs⟩
      rw [List.mem_singleton.1 hx]
      exact pointsInto_of (hfrom p hp hfree.2) hfree.1 (by rw [hs, Piece.firstSpan_cons hs])

theorem pointsInto_finishLine (hfrom : AreFrom source line.pieces)
    (htrailing : ∀ xs blanks, line.body = xs ++ blanks → (∀ p ∈ blanks, p.isLayout = true) →
      ∀ p ∈ blanks, p.span ≠ none) {x : Diagnostic}
    (hx : x ∈ (finishLine rules st line).diagnostics) : x.PointsInto source := by
  rcases List.mem_append.1 hx with hx | hx
  · exact pointsInto_stripDiagnostics hfrom htrailing hx
  · refine pointsInto_endingDiagnostics ?_ hx
    intro p hp
    apply hfrom p
    rcases List.mem_append.1 hp with hp | hp
    · rcases exists_stripEnd line.body with ⟨blanks, hbody, -⟩
      rw [Line.pieces, hbody]
      simp [hp]
    · exact List.mem_append_right _ hp

end Finish

section LinePass

variable {st : LineState} {line : Line}

/-- A line without content consists of pieces of the source. -/
theorem span_of_empty (h : line.IsAnchored false) (hcontent : line.content = []) :
    ∀ p ∈ line.pieces, p.span ≠ none := by
  have hlayout : ∀ p ∈ line.body, p.isLayout = true := by
    intro p hp
    simpa using List.filter_eq_nil_iff.1 hcontent p hp
  intro p hp
  rcases List.mem_append.1 hp with hp | hp
  · exact h.trailing [] line.body rfl hlayout p hp
  · intro hspan
    rcases h.ending p (Option.mem_toList.1 hp) hspan with hbehind | hsome
    · simp at hbehind
    · exact hsome hcontent

theorem pointsInto_emptyLine (h : line.IsAnchored false) (hcontent : line.content = [])
    (hfrom : AreFrom source line.pieces) {x : Diagnostic}
    (hx : x ∈ (emptyLine rules st line).diagnostics) : x.PointsInto source := by
  have hspans := span_of_empty h hcontent
  simp only [emptyLine] at hx
  split at hx
  · rename_i hdropped
    simp only at hx
    split at hx
    · simp at hx
    · rcases List.exists_cons_of_ne_nil h.nonempty with ⟨p, ps, hpieces⟩
      have hp : p ∈ line.pieces := by simp [hpieces]
      rcases Option.ne_none_iff_exists'.1 (hspans p hp) with ⟨s, hs⟩
      have hfree : p.suppressed = false := by
        rw [Bool.and_eq_true, Bool.not_eq_true', List.any_eq_false] at hdropped
        simpa using hdropped.2 p hp
      rw [List.mem_singleton.1 hx]
      refine pointsInto_of (hfrom p hp (hspans p hp)) hfree ?_
      rw [hs, hpieces, Piece.firstSpan_cons hs]
  · refine pointsInto_finishLine hfrom ?_ hx
    intro xs blanks hbody _ p hp
    apply hspans
    rw [Line.pieces, hbody]
    simp [hp]

/-- A line with content, with new blanks at its start or not: what comes from the source at its start
was there before. -/
theorem exists_reindented {lead rest : List Piece} {first : Piece} (t : Text)
    (hlead : ∀ p ∈ lead, p.isLayout = true) (hfirst : first.isLayout = false) :
    ∃ lead', (if indentDiffers t (lead ++ first :: rest) then reindent t (lead ++ first :: rest)
          else lead ++ first :: rest) = lead' ++ first :: rest ∧ AreFrom lead lead' := by
  have hdrop : (lead ++ first :: rest).dropWhile Piece.isLayout = first :: rest := by
    rw [List.dropWhile_append_of_pos hlead, List.dropWhile_cons_of_neg (by simp [hfirst])]
  split
  · rw [reindent, hdrop]
    split
    · exact ⟨[], rfl, by simp [AreFrom]⟩
    · exact ⟨[.blanks t], rfl, by simp [AreFrom, Piece.blanks]⟩
  · exact ⟨lead, rfl, fun p hp _ => hp⟩

theorem pointsInto_contentLine (h : line.IsAnchored false) {first : Piece} {more : List Piece}
    (hcontent : line.content = first :: more) (hfrom : AreFrom source line.pieces) {x : Diagnostic}
    (hx : x ∈ (contentLine rules st first line).diagnostics) : x.PointsInto source := by
  rcases List.filter_eq_cons_iff.1 hcontent with ⟨lead, rest, hbody, hlead, hfirst, -⟩
  simp only [Bool.not_eq_true', Bool.not_eq_false] at hlead hfirst
  simp only [contentLine, List.mem_append] at hx
  rcases hx with hx | hx
  · split at hx
    · rename_i hdiffers
      have hp : first ∈ line.pieces := by simp [Line.pieces, hbody]
      have hspan : first.span ≠ none := h.content first (by simp [hcontent])
      rcases Option.ne_none_iff_exists'.1 hspan with ⟨s, hs⟩
      have hdrop : line.body.dropWhile Piece.isLayout = first :: rest := by
        rw [hbody, List.dropWhile_append_of_pos hlead, List.dropWhile_cons_of_neg (by simp [hfirst])]
      have hfree : first.suppressed = false := by
        simp only [indentDiffers, hdrop, List.head?_cons, Option.any_some, Bool.and_eq_true,
          Bool.not_eq_true'] at hdiffers
        exact hdiffers.1.1
      rw [List.mem_singleton.1 hx]
      refine pointsInto_of (hfrom first hp hspan) hfree ?_
      simp only [indentDiagnostic, hcontent]
      rw [hs, Piece.firstSpan_cons hs]
    · simp at hx
  · -- the blanks at the start of the line have no part in the findings about its end
    rcases exists_reindented (indentFor rules st first).text hlead hfirst with ⟨lead', hbody', hlead'⟩
    rw [← hbody] at hbody'
    refine pointsInto_finishLine ?_ ?_ hx
    · intro p hp hspan
      apply hfrom p _ hspan
      simp only [Line.pieces, hbody', List.mem_append, List.mem_cons] at hp
      simp only [Line.pieces, hbody, List.mem_append, List.mem_cons]
      exact hp.imp_left (Or.imp_left fun hp => hlead' p hp hspan)
    · intro xs blanks hsplit hblanks
      simp only [hbody'] at hsplit
      rcases exists_append_of_layout hsplit hfirst hblanks with ⟨zs, hrest⟩
      refine h.trailing (lead ++ first :: zs) blanks ?_ hblanks
      rw [hbody, hrest, List.append_assoc, List.cons_append]

/-- Every finding of the pass over the lines is made at a piece of the source. -/
theorem pointsInto_formatLines {ls : List Line} (hls : ∀ l ∈ ls, l.IsAnchored false)
    (hfrom : ∀ l ∈ ls, AreFrom source l.pieces) {x : Diagnostic}
    (hx : x ∈ (formatLines rules st ls).2) : x.PointsInto source := by
  induction ls generalizing st with
  | nil => simp [formatLines] at hx
  | cons l ls ih =>
    rw [formatLines_cons, List.mem_append] at hx
    rcases hx with hx | hx
    · have hl := hls l (by simp)
      have hlfrom := hfrom l (by simp)
      unfold formatLine at hx
      split at hx
      · rename_i hcontent
        exact pointsInto_emptyLine hl hcontent hlfrom hx
      · rename_i hcontent
        exact pointsInto_contentLine hl hcontent hlfrom hx
    · exact ih (fun m hm => hls m (by simp [hm])) (fun m hm => hfrom m (by simp [hm])) hx

end LinePass

/-! ## The passes before -/

/-- A slot of the source, with its gap replaced or not. -/
theorem Slot.isAnchored_of {s : Slot} (hs : AreFrom source s.pieces) (hlayout : s.item.isLayout = false)
    (hitem : s.item.span ≠ none) {start : Bool} {g : List Piece}
    (hgap : (∀ p ∈ g, p ∈ s.gap ∧ p.span ≠ none) ∨ (∃ t, g = gapOf t) ∨
      start = false ∧ ∃ t, g = [.newline t]) : Slot.IsAnchored source start ⟨g, s.item⟩ := by
  have hinserted {p : Piece} (h : (∃ t, g = gapOf t) ∨ start = false ∧ ∃ t, g = [.newline t])
      (hp : p ∈ g) : p.span = none := by
    rcases h with ⟨t, rfl⟩ | ⟨-, t, rfl⟩
    · unfold gapOf at hp
      split at hp
      · simp at hp
      · rw [List.mem_singleton.1 hp]
        rfl
    · rw [List.mem_singleton.1 hp]
      rfl
  refine ⟨?_, hlayout, hitem, ?_⟩
  · intro p hp hspan
    rcases List.mem_append.1 hp with hp | hp
    · rcases hgap with hgap | hgap
      · exact hs p (List.mem_append_left _ (hgap p hp).1) hspan
      · exact absurd (hinserted hgap hp) hspan
    · exact hs p (List.mem_append_right _ hp) hspan
  · exact hgap.imp_left fun h p hp => (h p hp).2

theorem isAnchored_placeBraces (rules : RuleSet) {slots : List Slot}
    (hslots : ∀ s ∈ slots, AreFrom source s.pieces ∧ s.item.isLayout = false ∧
      ∀ p ∈ s.pieces, p.span ≠ none) (header : Option Piece) :
    (∀ s ∈ (placeBraces rules header slots).head?, Slot.IsAnchored source header.isNone s) ∧
      ∀ s ∈ (placeBraces rules header slots).tail, Slot.IsAnchored source false s := by
  induction slots generalizing header with
  | nil => simp [placeBraces]
  | cons s slots ih =>
    rcases hslots s (by simp) with ⟨hfrom, hlayout, hspans⟩
    have hitem : s.item.span ≠ none := hspans s.item (by simp [Slot.pieces])
    rcases ih (fun r hr => hslots r (by simp [hr])) (some s.item) with ⟨hfirst, hrest⟩
    rw [placeBraces]
    refine ⟨?_, forall_mem_of_head?_tail hfirst hrest⟩
    intro r hr
    rw [List.head?_cons, Option.mem_some_iff] at hr
    subst hr
    split
    · rename_i hmoves
      -- a brace is moved only behind its header
      have hheader : header.isNone = false := by
        cases header with
        | none => simp [movesBrace, placesBrace] at hmoves
        | some h => rfl
      refine Slot.isAnchored_of hfrom hlayout hitem ?_
      unfold braceGap
      split
      · exact .inr (.inl ⟨[' '], rfl⟩)
      · exact .inr (.inr ⟨hheader, _, rfl⟩)
    · exact Slot.isAnchored_of hfrom hlayout hitem
        (.inl fun p hp => ⟨hp, hspans p (List.mem_append_left _ hp)⟩)

theorem isAnchored_spaceBrackets {slots : List Slot} {start : Bool}
    (hfirst : ∀ s ∈ slots.head?, Slot.IsAnchored source start s)
    (hslots : ∀ s ∈ slots.tail, Slot.IsAnchored source false s) (pairs : List BracketPair) (i : Nat) :
    (∀ s ∈ (spaceBrackets rules pairs i slots).head?, Slot.IsAnchored source start s) ∧
      ∀ s ∈ (spaceBrackets rules pairs i slots).tail, Slot.IsAnchored source false s := by
  induction slots generalizing start i with
  | nil => simp [spaceBrackets]
  | cons s slots ih =>
    have hs := hfirst s rfl
    have hmore := ih (fun r hr => hslots r (List.mem_of_mem_head? hr))
      (fun r hr => hslots r (List.mem_of_mem_tail hr)) (i + 1)
    rw [spaceBrackets]
    refine ⟨?_, forall_mem_of_head?_tail hmore.1 hmore.2⟩
    intro r hr
    rw [List.head?_cons, Option.mem_some_iff] at hr
    subst hr
    split
    · exact Slot.isAnchored_of hs.pieces hs.layout hs.item (.inr (.inl ⟨_, rfl⟩))
    · exact hs

section Passes

variable {ps : List Piece}

theorem isLayout_of_mem_slots {s : Slot} (hs : s ∈ (Sheet.ofPieces ps).slots) :
    s.item.isLayout = false := by
  have hitem : s.item ∈ ps.filter fun p => !p.isLayout := by
    rw [← map_item_ofPieces]
    exact List.mem_map_of_mem hs
  simpa using (List.mem_filter.1 hitem).2

theorem mem_of_mem_slots {s : Slot} (hs : s ∈ (Sheet.ofPieces ps).slots) :
    ∀ p ∈ s.pieces, p ∈ ps := by
  intro p hp
  rw [← Sheet.pieces_ofPieces ps]
  exact List.mem_append_left _ (List.mem_flatMap.2 ⟨s, hs, hp⟩)

/-- The slots as the pass over the lines gets them are anchored. -/
theorem isAnchored_spacedSlots (rules : RuleSet) (hps : ∀ p ∈ ps, p.span ≠ none) :
    (∀ s ∈ (spacedSlots rules ps).head?, Slot.IsAnchored ps true s) ∧
      ∀ s ∈ (spacedSlots rules ps).tail, Slot.IsAnchored ps false s := by
  have hslots : ∀ s ∈ (Sheet.ofPieces ps).slots, AreFrom ps s.pieces ∧ s.item.isLayout = false ∧
      ∀ p ∈ s.pieces, p.span ≠ none := by
    intro s hs
    have hmem := mem_of_mem_slots hs
    exact ⟨fun p hp _ => hmem p hp, isLayout_of_mem_slots hs, fun p hp => hps p (hmem p hp)⟩
  rcases isAnchored_placeBraces rules hslots none with ⟨hfirst, hrest⟩
  exact isAnchored_spaceBrackets hfirst hrest _ 0

/-- The lines as the pass over them gets them are anchored, and have nothing else in them than the
source but what was put in. -/
theorem isAnchored_spacedLines (rules : RuleSet) (hps : ∀ p ∈ ps, p.span ≠ none) :
    ∀ l ∈ spacedLines rules ps, l.IsAnchored false ∧ AreFrom ps l.pieces := by
  rcases isAnchored_spacedSlots rules hps with ⟨hfirst, hrest⟩
  have htail : ∀ p ∈ (Sheet.ofPieces ps).tail, p ∈ ps := by
    intro p hp
    rw [← Sheet.pieces_ofPieces ps]
    exact List.mem_append_right _ hp
  have hslots : ∀ s ∈ spacedSlots rules ps, ∃ start, Slot.IsAnchored ps start s :=
    forall_mem_of_head?_tail (fun s hs => ⟨true, hfirst s hs⟩) fun s hs => ⟨false, hrest s hs⟩
  have hanchored : IsAnchored false
      ((spacedSlots rules ps).flatMap Slot.pieces ++ (Sheet.ofPieces ps).tail) :=
    isAnchored_slots (fun p hp => hps p (htail p hp)) hfirst hrest
  rcases isAnchored_split hanchored with ⟨hhead, hmore⟩
  intro l hl
  refine ⟨forall_mem_of_head?_tail hhead hmore l hl, ?_⟩
  intro p hp hspan
  have hmem : p ∈ (spacedLines rules ps).flatMap Line.pieces := List.mem_flatMap.2 ⟨l, hl, hp⟩
  rw [spacedLines, flatMap_pieces_split] at hmem
  rcases List.mem_append.1 hmem with hmem | hmem
  · rcases List.mem_flatMap.1 hmem with ⟨s, hs, hp⟩
    rcases hslots s hs with ⟨start, hslot⟩
    exact hslot.pieces p hp hspan
  · exact htail p hmem

theorem pointsInto_braceDiagnostics {slots : List Slot}
    (hslots : ∀ s ∈ slots, s.item ∈ source ∧ s.item.span ≠ none) {header : Option Piece}
    {x : Diagnostic} (hx : x ∈ braceDiagnostics rules header slots) : x.PointsInto source := by
  induction slots generalizing header with
  | nil => simp [braceDiagnostics] at hx
  | cons s slots ih =>
    rw [braceDiagnostics, List.mem_append] at hx
    rcases hx with hx | hx
    · split at hx
      · rename_i hmoves
        rcases hslots s (by simp) with ⟨hmem, hspan⟩
        rcases Option.ne_none_iff_exists'.1 hspan with ⟨sp, hsp⟩
        simp only [movesBrace, placesBrace, Bool.and_eq_true, Bool.not_eq_true'] at hmoves
        rw [List.mem_singleton.1 hx]
        exact pointsInto_of hmem hmoves.1.1.1.2 (by rw [hsp, braceDiagnostic, Piece.firstSpan_cons hsp])
      · simp at hx
    · exact ih (fun r hr => hslots r (by simp [hr])) hx

theorem pointsInto_bracketDiagnostics {slots edited : List Slot}
    (hslots : ∀ s ∈ slots, s.item ∈ source ∧ s.item.span ≠ none) {x : Diagnostic}
    (hx : x ∈ bracketDiagnostics rules (livePairs slots) edited) : x.PointsInto source := by
  rcases List.mem_map.1 hx with ⟨p, hp, rfl⟩
  rcases mem_livePairs (List.mem_filter.1 hp).1 with ⟨hsound, hlive⟩
  rcases List.mem_map.1 (List.mem_of_getElem? hsound.openAt) with ⟨s, hs, hopener⟩
  rcases hslots s hs with ⟨hmem, hspan⟩
  rw [hopener] at hmem hspan
  rcases Option.ne_none_iff_exists'.1 hspan with ⟨sp, hsp⟩
  rw [BracketPair.isLive, Bool.and_eq_true, Bool.not_eq_true'] at hlive
  exact pointsInto_of hmem hlive.1 (by rw [hsp, bracketDiagnostic, Piece.firstSpan_cons hsp])

/-- Every finding of formatting is made at a piece of the source that may be changed. -/
theorem pointsInto_of_mem_formatPieces (hps : ∀ p ∈ ps, p.span ≠ none) {x : Diagnostic}
    (hx : x ∈ (formatPieces rules ps).diagnostics) : x.PointsInto ps := by
  have hitems : ∀ p ∈ (Sheet.ofPieces ps).slots.map Slot.item, p ∈ ps ∧ p.span ≠ none := by
    rw [map_item_ofPieces]
    intro p hp
    have hmem := (List.mem_filter.1 hp).1
    exact ⟨hmem, hps p hmem⟩
  have hslots : ∀ s ∈ (Sheet.ofPieces ps).slots, s.item ∈ ps ∧ s.item.span ≠ none := fun s hs =>
    hitems s.item (List.mem_map_of_mem hs)
  have hbraced : ∀ s ∈ placeBraces rules none (Sheet.ofPieces ps).slots,
      s.item ∈ ps ∧ s.item.span ≠ none := by
    intro s hs
    apply hitems
    rw [← map_item_placeBraces]
    exact List.mem_map_of_mem hs
  have hlines := isAnchored_spacedLines rules hps
  simp only [formatPieces, List.mem_append] at hx
  rcases hx with (hx | hx) | hx
  · exact pointsInto_braceDiagnostics hslots hx
  · exact pointsInto_bracketDiagnostics hbraced hx
  · exact pointsInto_formatLines (fun l hl => (hlines l hl).1) (fun l hl => (hlines l hl).2) hx

end Passes

/-! ## Sources -/

open Lexer

theorem exists_token_of_mem_piecesOf {tokens : List Token} {flags : List Bool} {p : Piece}
    (h : p ∈ piecesOf tokens flags) :
    ∃ t, (t, p.suppressed) ∈ tokens.zip flags ∧ t.kind ≠ .eof ∧ p = .ofToken t p.suppressed := by
  rcases List.mem_map.1 h with ⟨⟨t, s⟩, hmem, rfl⟩
  rcases List.mem_filter.1 hmem with ⟨hzip, hkind⟩
  exact ⟨t, hzip, by simpa using hkind, rfl⟩

theorem span_ne_none_of_mem_piecesOf (tokens : List Token) (flags : List Bool) :
    ∀ p ∈ piecesOf tokens flags, p.span ≠ none := by
  intro p hp
  rcases exists_token_of_mem_piecesOf hp with ⟨t, -, -, hpiece⟩
  rw [hpiece, Piece.ofToken]
  exact Option.some_ne_none _

/-- A token covers more than a position, unless it is the end of the file. -/
theorem span_ne_empty_of_mem_place {d : Dialect} {b : Bool} {ls : List Lexeme} (h : IsLexed d b ls)
    {offset : Nat} {position : Position} {t : Token} (ht : t ∈ place offset position ls)
    (hkind : t.kind ≠ .eof) (p : Position) : t.span ≠ .empty p := by
  induction ls generalizing b offset position with
  | nil =>
    rw [place, List.mem_singleton] at ht
    subst ht
    exact absurd rfl hkind
  | cons l ls ih =>
    rcases isLexed_cons.1 h with ⟨⟨c, u, htext, -⟩, hmore⟩
    rw [place] at ht
    rcases List.mem_cons.1 ht with rfl | ht
    · intro hempty
      have hstart : position = p := congrArg Span.start hempty
      have hstop : position.advance l.text = p := congrArg Span.stop hempty
      exact Position.advance_ne (by simp [htext]) position (hstop.trans hstart.symm)
    · exact ih hmore ht

/-- Every content piece that formatting works on comes from the source, and every finding is made at a
token of the source that may be changed and is not the end of the file; so no finding is made at the
position that stands for none. -/
theorem restyle_pointsInto (rules : RuleSet) (d : Dialect) (source : Text) (tokens : List Token)
    (htokens : tokenize d source = .ok tokens) :
    (∀ s ∈ spacedSlots rules (piecesOf tokens (Suppression.scan tokens).format),
        s.item.span ≠ none) ∧
      ∀ x ∈ (restyle rules tokens).diagnostics,
        (∃ t, (t, false) ∈ tokens.zip (Suppression.scan tokens).format ∧ t.kind ≠ .eof ∧
          x.span = t.span) ∧
        x.span ≠ .empty .origin := by
  rcases tokenize_eq_ok_iff.1 htokens with ⟨ls, hlexed, -, rfl⟩
  constructor
  · rcases isAnchored_spacedSlots rules (span_ne_none_of_mem_piecesOf _ _) with ⟨hfirst, hrest⟩
    exact forall_mem_of_head?_tail (fun s hs => (hfirst s hs).item) fun s hs => (hrest s hs).item
  · intro x hx
    rcases pointsInto_of_mem_formatPieces (span_ne_none_of_mem_piecesOf _ _) hx with
      ⟨p, hp, hfree, hspan⟩
    rcases exists_token_of_mem_piecesOf hp with ⟨t, hzip, hkind, hpiece⟩
    rw [hpiece, Piece.ofToken, Option.some.injEq] at hspan
    rw [hfree] at hzip
    refine ⟨⟨t, hzip, hkind, hspan.symm⟩, ?_⟩
    rw [← hspan]
    exact span_ne_empty_of_mem_place hlexed (List.of_mem_zip hzip).1 hkind .origin

/-- A brace on a line of its own and blanks in front of it: the brace and the blanks are found. -/
theorem restyle_pointsInto_brace :
    ∃ tokens, tokenize .hlsl ['f', '(', ')', '\n', '{', ' ', '\n', '}'] = .ok tokens ∧
      ((restyle {} tokens).diagnostics.map fun x => (x.rule, x.span)) =
        [("brace-placement", ⟨⟨2, 1⟩, ⟨2, 2⟩⟩), ("trailing-whitespace", ⟨⟨2, 2⟩, ⟨2, 3⟩⟩)] ∧
      ∀ x ∈ (restyle {} tokens).diagnostics,
        (∃ t, (t, false) ∈ tokens.zip (Suppression.scan tokens).format ∧ t.kind ≠ .eof ∧
          x.span = t.span) ∧
        x.span ≠ .empty .origin := by
  have htokens : tokenize .hlsl ['f', '(', ')', '\n', '{', ' ', '\n', '}'] = .ok _ :=
    tokenize_eq_ok_iff.2 ⟨[⟨.word .identifier, ['f']⟩, ⟨.punctuation, ['(']⟩,
      ⟨.punctuation, [')']⟩, ⟨.lineBreak, ['\n']⟩, ⟨.punctuation, ['{']⟩, ⟨.whitespace, [' ']⟩,
      ⟨.lineBreak, ['\n']⟩, ⟨.punctuation, ['}']⟩], by decide +kernel, rfl, rfl⟩
  exact ⟨_, htokens, by decide +kernel, (restyle_pointsInto {} .hlsl _ _ htokens).2⟩

end Layout

end ShaderStyle
