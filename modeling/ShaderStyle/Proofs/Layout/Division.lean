import ShaderStyle.Proofs.Layout.LineShape
import ShaderStyle.Proofs.Layout.Passes

/-!
# A formatted text, line by line

The pass over the lines gets lines as it needs them (`isMet_spacedLines`), and what it writes is
divided again into the lines that it wrote (`split_flatMap_pieces`). So the lines of a formatted text
are laid out as the rules say, and they hold the content of the source in order (`restyle_isLaidOut`).
-/

namespace ShaderStyle.Layout

open Lexer

variable {rules : RuleSet}

/-! ## Dividing what is written -/

/-- All lines but the last are ended by a line break, and the last holds something. -/
inductive Divided : List Line → Prop
  | nil : Divided []
  | last {l : Line} (hbody : ∀ p ∈ l.body, p.isNewline = false) (hending : l.ending = none)
      (hne : l.pieces ≠ []) : Divided [l]
  | cons {l : Line} {ls : List Line} (hl : l.IsClosed) (hls : Divided ls) : Divided (l :: ls)

theorem split_flatMap_pieces {ls : List Line} (h : Divided ls) :
    Line.split (ls.flatMap Line.pieces) = ls := by
  induction h with
  | nil => rfl
  | @last l hbody hending hne =>
    rcases l with ⟨body, ending⟩
    subst hending
    simp only [Line.pieces, Option.toList_none, List.append_nil] at hne
    rw [List.flatMap_singleton, Line.pieces, Option.toList_none, List.append_nil,
      Line.split_of_no_newline hne hbody]
  | cons hl _ ih => rw [List.flatMap_cons, Line.split_append hl, ih]

theorem divided_split (ps : List Piece) : Divided (Line.split ps) := by
  induction ps with
  | nil => exact .nil
  | cons p ps ih =>
    rw [Line.split]
    split
    · rename_i hp
      exact .cons ⟨by simp, p, rfl, hp⟩ ih
    · rename_i hp
      have hcons {body : List Piece} (hbody : ∀ q ∈ body, q.isNewline = false) :
          ∀ q ∈ p :: body, q.isNewline = false := by
        intro q hq
        rcases List.mem_cons.1 hq with rfl | hq
        · simpa using hp
        · exact hbody q hq
      generalize Line.split ps = ls at ih
      cases ih with
      | nil => exact .last (hcons (by simp)) rfl (by simp [Line.pieces])
      | last hbody hending hne => exact .last (hcons hbody) hending (by simp [Line.pieces])
      | cons hl hls => exact .cons ⟨hcons hl.body, hl.ending⟩ hls

theorem not_isNewline_newLine {st : LineState} {l : Line} (h : ∀ p ∈ l.body, p.isNewline = false) :
    ∀ p ∈ (finished rules (indented rules st l)).body, p.isNewline = false := by
  have hindented : ∀ p ∈ (indented rules st l).body, p.isNewline = false := by
    intro p hp
    rw [indented] at hp
    split at hp
    · exact h p hp
    · simp only [reindent] at hp
      split at hp
      · split at hp
        · exact h p ((List.dropWhile_sublist _).subset hp)
        · rcases List.mem_cons.1 hp with rfl | hp
          · rfl
          · exact h p ((List.dropWhile_sublist _).subset hp)
      · exact h p hp
  intro p hp
  rcases List.mem_map.1 hp with ⟨q, hq, rfl⟩
  rw [isNewline_withEnding]
  apply hindented
  rcases exists_stripEnd (indented rules st l).body with ⟨blanks, hbody, -⟩
  rw [hbody]
  exact List.mem_append_left blanks hq

theorem divided_newLines {ls : List Line} (h : Divided ls) (st : LineState) :
    Divided (newLines rules st ls) := by
  induction h generalizing st with
  | nil => exact .nil
  | @last l hbody hending _ =>
    rw [newLines, newLines, List.append_nil, newLine?]
    split
    · exact .nil
    · rename_i hkept
      rw [Bool.or_eq_true, not_or, List.isEmpty_iff] at hkept
      refine .last (not_isNewline_newLine hbody) ?_ hkept.2
      rw [finished, ending_indented, hending]
      rfl
  | @cons l ls hl _ ih =>
    rw [newLines, newLine?]
    split
    · exact ih _
    · refine .cons ⟨not_isNewline_newLine hl.body, ?_⟩ (ih _)
      rcases hl.ending with ⟨nl, hnl, hnewline⟩
      refine ⟨withEnding rules nl, ?_, by rwa [isNewline_withEnding]⟩
      rw [finished, ending_indented, hnl]
      rfl

/-! ## The lines that the pass meets -/

/-- The pieces are as the passes before leave them; `start` says whether only blanks stand before them
on their line. -/
def IsReady (rules : RuleSet) (start : Bool) : List Piece → Prop
  | [] => True
  | p :: more =>
    (p.isNewline = true → p.span = none → p.text = rules.lineEnding.text) ∧
      (∀ name, p.kind = .directive name → start = true) ∧
      (p.isLayout = true → p.suppressed = true → ∀ q ∈ more.head?, q.suppressed = true) ∧
      IsReady rules (p.isNewline || start && p.isLayout) more

theorem head?_body_split (ps : List Piece) :
    ∀ l ∈ (Line.split ps).head?, ∀ q ∈ l.body.head?, q ∈ ps.head? := by
  cases ps with
  | nil => simp [Line.split]
  | cons p ps =>
    rw [Line.split]
    split
    · simp
    · cases Line.split ps <;> simp [Line.consToFirst]

theorem Line.isMet_break {start : Bool} {p : Piece} (hp : p.isNewline = true)
    (hinserted : p.span = none → p.text = rules.lineEnding.text) :
    (⟨[], some p⟩ : Line).IsMet rules start := by
  refine ⟨by simp, ?_, .nil, by cases start <;> simp [Line.content]⟩
  intro nl hnl
  rw [Option.mem_some_iff] at hnl
  rw [← hnl]
  exact ⟨hp, hinserted⟩

/-- A line as the pass meets it, with one piece more in front. -/
theorem Line.IsMet.cons {start : Bool} {p : Piece} {l : Line}
    (hl : l.IsMet rules (start && p.isLayout)) (hp : p.isNewline = false)
    (hdirective : ∀ name, p.kind = .directive name → start = true)
    (hsuppressed : p.isLayout = true → p.suppressed = true →
      ∀ q ∈ l.body.head?, q.suppressed = true) :
    (⟨p :: l.body, l.ending⟩ : Line).IsMet rules start := by
  refine ⟨?_, hl.ending, ?_, ?_⟩
  · intro q hq
    rcases List.mem_cons.1 hq with rfl | hq
    · exact hp
    · exact hl.body q hq
  · rw [List.isChain_cons]
    exact ⟨fun q hq hlayout hkept => hsuppressed hlayout hkept q hq, hl.suppressed⟩
  · have hdirectives := hl.directive
    by_cases hlayout : p.isLayout = true
    · rw [hlayout, Bool.and_true] at hdirectives
      have hcontent : (⟨p :: l.body, l.ending⟩ : Line).content = l.content := by
        simp [Line.content, hlayout]
      rwa [hcontent]
    · have hcontent : (⟨p :: l.body, l.ending⟩ : Line).content = p :: l.content := by
        simp [Line.content, hlayout]
      rw [Bool.not_eq_true] at hlayout
      simp only [hlayout, Bool.and_false, Bool.false_eq_true, if_false] at hdirectives
      rw [hcontent]
      cases start with
      | true => simpa using hdirectives
      | false =>
        intro q hq
        rcases List.mem_cons.1 hq with rfl | hq
        · intro name hname
          simpa using hdirective name hname
        · exact hdirectives q hq

theorem forall_mem_of_head?_tail {α : Type} {P : α → Prop} {xs : List α}
    (hhead : ∀ x ∈ xs.head?, P x) (htail : ∀ x ∈ xs.tail, P x) : ∀ x ∈ xs, P x := by
  cases xs with
  | nil => simp
  | cons y xs =>
    intro x hx
    rcases List.mem_cons.1 hx with rfl | hx
    · exact hhead x rfl
    · exact htail x hx

/-- Dividing the pieces gives lines as the pass meets them; the first of them may already have
content. -/
theorem isMet_split {start : Bool} {ps : List Piece} (h : IsReady rules start ps) :
    (∀ l ∈ (Line.split ps).head?, l.IsMet rules start) ∧
      ∀ l ∈ (Line.split ps).tail, l.IsMet rules true := by
  induction ps generalizing start with
  | nil => simp [Line.split]
  | cons p ps ih =>
    rcases h with ⟨hinserted, hdirective, hsuppressed, hmore⟩
    rcases ih hmore with ⟨hfirst, hrest⟩
    have hbody := head?_body_split ps
    rw [Line.split]
    split
    · rename_i hp
      rw [hp, Bool.true_or] at hfirst
      constructor
      · intro l hl
        rw [List.head?_cons, Option.mem_some_iff] at hl
        subst hl
        exact Line.isMet_break hp (hinserted hp)
      · rw [List.tail_cons]
        exact forall_mem_of_head?_tail hfirst hrest
    · rename_i hp
      rw [Bool.not_eq_true] at hp
      rw [hp, Bool.false_or] at hfirst
      generalize Line.split ps = ls at hfirst hrest hbody
      cases ls with
      | nil =>
        refine ⟨?_, by simp [Line.consToFirst]⟩
        intro l hl
        rw [Line.consToFirst, List.head?_cons, Option.mem_some_iff] at hl
        subst hl
        have hempty : (⟨[], none⟩ : Line).IsMet rules (start && p.isLayout) :=
          ⟨by simp, by simp, .nil, by simp [Line.content]⟩
        exact hempty.cons hp hdirective (by simp)
      | cons m ls =>
        refine ⟨?_, hrest⟩
        intro l hl
        rw [Line.consToFirst, List.head?_cons, Option.mem_some_iff] at hl
        subst hl
        refine (hfirst m rfl).cons hp hdirective ?_
        intro hlayout hkept q hq
        exact hsuppressed hlayout hkept q (hbody m rfl q hq)

theorem isReady_gap_append {kept start : Bool} {g ps : List Piece} (hg : IsGap rules kept g)
    (hkept : kept = true → ∀ q ∈ ps.head?, q.suppressed = true)
    (hps : IsReady rules (start || g.any Piece.isNewline) ps) : IsReady rules start (g ++ ps) := by
  induction g generalizing start with
  | nil => simpa using hps
  | cons p g ih =>
    have hp := hg.layout p (by simp)
    have hmore : IsGap rules kept g := (isGap_append (g := [p]).1 hg).2
    refine ⟨hg.inserted p (by simp), ?_, ?_, ?_⟩
    · intro name hname
      simp [Piece.isLayout, hname, TokenKind.isLayout] at hp
    · intro _ hsuppressed
      rw [hg.suppressed p (by simp)] at hsuppressed
      cases g with
      | nil => exact hkept hsuppressed
      | cons q g =>
        intro r hr
        change r ∈ (q :: (g ++ ps)).head? at hr
        rw [List.head?_cons, Option.mem_some_iff] at hr
        rw [← hr, hmore.suppressed q (by simp), hsuppressed]
    · apply ih hmore
      rwa [hp, Bool.and_true, Bool.or_comm p.isNewline, Bool.or_assoc, ← List.any_cons]

/-- Slots as the pass wants them, and the layout behind them. -/
theorem isReady_slots {tail : List Piece} {keptTail start : Bool} (htail : IsGap rules keptTail tail)
    {slots : List Slot} (hfirst : ∀ s ∈ slots.head?, IsSlot rules start s)
    (hslots : ∀ s ∈ slots.tail, IsSlot rules false s) :
    IsReady rules start (slots.flatMap Slot.pieces ++ tail) := by
  induction slots generalizing start with
  | nil =>
    have hready : IsReady rules (start || tail.any Piece.isNewline) [] := trivial
    simpa using isReady_gap_append htail (by simp) hready
  | cons s slots ih =>
    have hs := hfirst s rfl
    have hmore : IsReady rules false (slots.flatMap Slot.pieces ++ tail) := by
      apply ih
      · intro r hr
        exact hslots r (List.mem_of_mem_head? hr)
      · intro r hr
        exact hslots r (List.mem_of_mem_tail hr)
    rcases hs.gap with ⟨kept, hgap, hkept⟩
    rw [List.flatMap_cons, Slot.pieces, List.append_assoc, List.append_assoc, List.singleton_append]
    apply isReady_gap_append hgap
    · intro h q hq
      rw [List.head?_cons, Option.mem_some_iff] at hq
      rw [← hq]
      exact hkept h
    · have hnewline : s.item.isNewline = false := not_isNewline_of_content hs.item
      refine ⟨by simp [hnewline], ?_, by simp [hs.item], ?_⟩
      · intro name hname
        rcases hs.directive name hname with hstart | ⟨p, hp, hnl⟩
        · simp [hstart]
        · have hany : s.gap.any Piece.isNewline = true := List.any_eq_true.2 ⟨p, hp, hnl⟩
          simp [hany]
      · rw [hnewline, hs.item, Bool.false_or, Bool.and_false]
        exact hmore

/-! ## The content of the lines -/

theorem flatMap_content_split (ps : List Piece) :
    (Line.split ps).flatMap Line.content = ps.filter fun p => !p.isLayout := by
  induction ps with
  | nil => rfl
  | cons p ps ih =>
    rw [Line.split]
    split
    · rename_i hp
      have hlayout : p.isLayout = true := by
        rw [Piece.isLayout, show p.kind = .lineBreak from of_decide_eq_true hp]
        rfl
      rw [List.flatMap_cons, ih, List.filter_cons_of_neg (by simp [hlayout])]
      rfl
    · have hcons : (Line.consToFirst p (Line.split ps)).flatMap Line.content =
          [p].filter (fun p => !p.isLayout) ++ (Line.split ps).flatMap Line.content := by
        cases Line.split ps with
        | nil => simp [Line.consToFirst, Line.content]
        | cons l ls =>
          rw [Line.consToFirst, List.flatMap_cons, List.flatMap_cons, ← List.append_assoc]
          simp only [Line.content, ← List.filter_append, List.singleton_append]
      rw [hcons, ih, ← List.filter_append, List.singleton_append]

theorem content_newLine? (st : LineState) {l : Line} (hmet : l.IsMet rules true) :
    (newLine? rules st l).toList.flatMap Line.content = l.content.map (withEnding rules) := by
  have hnew : (finished rules (indented rules st l)).content = l.content.map (withEnding rules) := by
    rw [content_finished, content_indented st hmet]
  unfold newLine?
  split
  · rename_i hnone
    rw [Bool.or_eq_true, List.isEmpty_iff] at hnone
    rcases hnone with hdropped | hpieces
    · simp only [isDropped, Bool.and_eq_true, List.isEmpty_iff] at hdropped
      rw [hdropped.1.1]
      rfl
    · rw [Line.pieces, List.append_eq_nil_iff] at hpieces
      rw [← hnew, Line.content, hpieces.1]
      rfl
  · rw [Option.toList_some, List.flatMap_singleton, hnew]

theorem flatMap_content_newLines {ls : List Line} (hmet : ∀ l ∈ ls, l.IsMet rules true)
    (st : LineState) :
    (newLines rules st ls).flatMap Line.content =
      (ls.flatMap Line.content).map (withEnding rules) := by
  induction ls generalizing st with
  | nil => rfl
  | cons l ls ih =>
    rw [newLines, List.flatMap_append, List.flatMap_cons, List.map_append,
      content_newLine? st (hmet l (by simp)), ih fun l hl => hmet l (by simp [hl])]

theorem map_item_spaceBrackets (pairs : List BracketPair) (i : Nat) (slots : List Slot) :
    (spaceBrackets rules pairs i slots).map Slot.item = slots.map Slot.item := by
  induction slots generalizing i with
  | nil => rfl
  | cons s slots ih =>
    rw [spaceBrackets, List.map_cons, List.map_cons, ih]
    split <;> rfl

theorem map_item_ofPieces (ps : List Piece) :
    (Sheet.ofPieces ps).slots.map Slot.item = ps.filter fun p => !p.isLayout := by
  induction ps with
  | nil => rfl
  | cons p ps ih =>
    rw [Sheet.ofPieces, Sheet.cons]
    by_cases hp : p.isLayout = true
    · rw [if_pos hp, List.filter_cons_of_neg (by simp [hp]), ← ih]
      cases (Sheet.ofPieces ps).slots <;> rfl
    · rw [if_neg hp, List.filter_cons_of_pos (by simp [hp]), ← ih]
      rfl

theorem filter_slots {slots : List Slot} (h : ∀ s ∈ slots, ∃ start, IsSlot rules start s) :
    (slots.flatMap Slot.pieces).filter (fun p => !p.isLayout) = slots.map Slot.item := by
  induction slots with
  | nil => rfl
  | cons s slots ih =>
    rcases h s (by simp) with ⟨start, hs⟩
    rcases hs.gap with ⟨kept, hgap, -⟩
    rw [List.flatMap_cons, Slot.pieces, List.filter_append, List.filter_append,
      filter_layout hgap.layout, List.filter_cons_of_pos (by simp [hs.item]),
      ih fun s hs => h s (by simp [hs])]
    rfl

/-! ## Formatted texts -/

/-- The slots of a source as the pass over the lines gets them. -/
def spacedSlots (rules : RuleSet) (ps : List Piece) : List Slot :=
  spaceBrackets rules (livePairs (placeBraces rules none (Sheet.ofPieces ps).slots)) 0
    (placeBraces rules none (Sheet.ofPieces ps).slots)

/-- The lines of a source as the pass over the lines gets them. -/
def spacedLines (rules : RuleSet) (ps : List Piece) : List Line :=
  Line.split ((spacedSlots rules ps).flatMap Slot.pieces ++ (Sheet.ofPieces ps).tail)

theorem split_formatPieces (rules : RuleSet) (ps : List Piece) :
    Line.split (formatPieces rules ps).pieces = newLines rules {} (spacedLines rules ps) := by
  have hpieces : (formatPieces rules ps).pieces =
      (newLines rules {} (spacedLines rules ps)).flatMap Line.pieces := by
    rw [← pieces_formatLines]
    rfl
  have hdivided : Divided (newLines rules {} (spacedLines rules ps)) :=
    divided_newLines (divided_split _) {}
  rw [hpieces, split_flatMap_pieces hdivided]

section Source

variable {page : Page} {ps : List Piece}

theorem isSlot_spacedSlots (hdrawn : page.DrawnBy (.ofPieces ps))
    (hsound : SoundCells rules (edgesOf rules page.cells) {} page.cells) :
    (∀ s ∈ (spacedSlots rules ps).head?, IsSlot rules true s) ∧
      ∀ s ∈ (spacedSlots rules ps).tail, IsSlot rules false s := by
  have hheader : (none : Option Piece).any (fun p => endsHeader p && !p.suppressed) =
      ({} : Place).header := rfl
  exact isSlot_cells hdrawn.cells hsound hheader (edgesOf_eq rules hdrawn.cells)

theorem isMet_spacedLines (hdrawn : page.DrawnBy (.ofPieces ps))
    (hsound : SoundCells rules (edgesOf rules page.cells) {} page.cells)
    (htail : ∀ l ∈ page.tail, l.kind.isLayout = true) :
    ∀ l ∈ spacedLines rules ps, l.IsMet rules true := by
  rcases isSlot_spacedSlots hdrawn hsound with ⟨hfirst, hslots⟩
  rcases isMet_split (isReady_slots (isGap_tail hdrawn htail) hfirst hslots) with ⟨hhead, hmore⟩
  exact forall_mem_of_head?_tail hhead hmore

/-- The passes before keep the content of a source. -/
theorem flatMap_content_spacedLines (hdrawn : page.DrawnBy (.ofPieces ps))
    (hsound : SoundCells rules (edgesOf rules page.cells) {} page.cells)
    (htail : ∀ l ∈ page.tail, l.kind.isLayout = true) :
    (spacedLines rules ps).flatMap Line.content = ps.filter fun p => !p.isLayout := by
  rcases isSlot_spacedSlots hdrawn hsound with ⟨hfirst, hmore⟩
  have hslots : ∀ s ∈ spacedSlots rules ps, ∃ start, IsSlot rules start s :=
    forall_mem_of_head?_tail (fun s hs => ⟨true, hfirst s hs⟩) fun s hs => ⟨false, hmore s hs⟩
  have hgap : IsGap rules page.tailInside (Sheet.ofPieces ps).tail := isGap_tail hdrawn htail
  rw [spacedLines, flatMap_content_split, List.filter_append, filter_slots hslots,
    filter_layout hgap.layout, List.append_nil, spacedSlots, map_item_spaceBrackets,
    map_item_placeBraces, map_item_ofPieces]

end Source

/-- The lines of a formatted text hold the content of its source, in order, and are laid out as the
rules say: their ends, the empty lines among them and the blanks at their start. -/
theorem restyle_isLaidOut (rules : RuleSet) (d : Dialect) (source : Text) (tokens : List Token)
    (htokens : tokenize d source = .ok tokens) :
    (Line.split (restyle rules tokens).pieces).flatMap Line.content =
        ((piecesOf tokens (Suppression.scan tokens).format).filter fun p => !p.isLayout).map
          (withEnding rules) ∧
      IsLaidOut rules (Line.split (restyle rules tokens).pieces) := by
  obtain ⟨ls, hlexed, -, rfl⟩ := tokenize_eq_ok_iff.1 htokens
  have hdrawn : (Page.ofLexemes false ls).DrawnBy (.ofPieces (piecesOf (place 0 .origin ls)
      (Suppression.scan (place 0 .origin ls)).format)) :=
    drawnBy_place (kind_ne_eof hlexed) 0 .origin false
  have hsound := soundCells_ofLexemes rules hlexed
  have htail := (Page.isRegular_ofLexemes false ls).tail
  have hmet := isMet_spacedLines hdrawn hsound htail
  rw [restyle, format, split_formatPieces]
  refine ⟨?_, isLaidOut_newLines hmet⟩
  rw [flatMap_content_newLines hmet, flatMap_content_spacedLines hdrawn hsound htail]

/-- A block and a directive in it. -/
theorem restyle_isLaidOut_block :
    ∃ tokens, tokenize .hlsl ['{', '\n', '\n', '\n', '#', 'i', 'f', ' ', '\n', 'x', '}'] = .ok tokens ∧
      (Line.split (restyle { indentDirectives := true, nestConditionals := true }
            tokens).pieces).flatMap Line.content =
          ((piecesOf tokens (Suppression.scan tokens).format).filter fun p => !p.isLayout).map
            (withEnding { indentDirectives := true, nestConditionals := true }) ∧
        IsLaidOut { indentDirectives := true, nestConditionals := true }
          (Line.split
            (restyle { indentDirectives := true, nestConditionals := true } tokens).pieces) := by
  have htokens :
      tokenize .hlsl ['{', '\n', '\n', '\n', '#', 'i', 'f', ' ', '\n', 'x', '}'] = .ok _ :=
    tokenize_eq_ok_iff.2 ⟨[⟨.punctuation, ['{']⟩, ⟨.lineBreak, ['\n']⟩, ⟨.lineBreak, ['\n']⟩,
      ⟨.lineBreak, ['\n']⟩, ⟨.directive ['i', 'f'], ['#', 'i', 'f']⟩, ⟨.whitespace, [' ']⟩,
      ⟨.lineBreak, ['\n']⟩, ⟨.word .identifier, ['x']⟩, ⟨.punctuation, ['}']⟩],
      by decide +kernel, rfl, rfl⟩
  exact ⟨_, htokens, restyle_isLaidOut _ .hlsl _ _ htokens⟩

end ShaderStyle.Layout
