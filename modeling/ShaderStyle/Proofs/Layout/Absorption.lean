import ShaderStyle.Proofs.Layout.Passes
import ShaderStyle.Proofs.Layout.Relex

/-!
# Formatting twice

A formatted page has the items of the source, its regions and its brackets, so formatting it again
finds everything at the same places (`ofLexemes_formatted`). What is left to see is that each gap
forgets what the first rules made of it (`newGap_newCell`): so the second rules have the last word
(`formatted_formatted`), as long as the first ones did not drop empty lines that the second ones allow.
-/

namespace ShaderStyle

namespace Marker

theorem isLead_of_isBreak {c : Char} (h : Text.isBreak c = true) : isLead c = true := by
  rcases Text.eq_of_isBreak h with rfl | rfl <;> decide

/-- A marker is found however the line breaks before and after it are written. -/
theorem ofBody?_withEnding {ending : Text} (hending : Text.IsBreakText ending) (body : Text) :
    ofBody? (Text.withEnding ending body) = ofBody? body := by
  unfold ofBody?
  rw [Text.dropWhile_withEnding (fun _ => isLead_of_isBreak) hending,
    Text.takeWhile_withEnding (fun _ => Text.not_isWordChar_of_isBreak) hending]

end Marker

namespace Layout

open Lexer

variable {d : Dialect} {rules : RuleSet}

/-! ## Regions of the formatted page -/

/-- Formatting leaves the markers alone. -/
theorem marker_newItem {b : Bool} {l : Lexeme} {t : Text} (h : Reads d b l t) (rules : RuleSet)
    (kept : Bool) : Marker.of? (newItem rules kept l) = Marker.of? l := by
  obtain ⟨kind, text⟩ := l
  unfold newItem
  split
  · rfl
  · split
    · rename_i doc hk
      simp only at hk
      subst hk
      simp only [Marker.of?]
      rw [h.commentBody_withEnding,
        Marker.ofBody?_withEnding (Text.isBreakText_lineEnding rules.lineEnding)]
    · rename_i name hk
      simp only at hk
      subst hk
      rfl
    · rfl

/-- The markers among the items of some cells stay as they are when the cells are formatted. -/
def MarkersStay (rules : RuleSet) (cells : List Cell) : Prop :=
  ∀ c ∈ cells, Marker.of? (newItem rules c.kept c.item) = Marker.of? c.item

theorem markersStay_of_isLexed {b : Bool} {cells : List Cell} {tail : List Lexeme} (rules : RuleSet)
    (h : IsLexed d b (cells.flatMap Cell.lexemes ++ tail)) : MarkersStay rules cells := by
  intro c hc
  have hmem : c.item ∈ cells.flatMap Cell.lexemes ++ tail :=
    List.mem_append_left _ (List.mem_flatMap.2 ⟨c, hc, by simp [Cell.lexemes]⟩)
  obtain ⟨b, t, hread⟩ := exists_reads_of_mem h hmem
  exact marker_newItem hread rules c.kept

theorem regular_newCells {edges : Nat → Option Text} {cells : List Cell} {here : Place}
    {after inside : Bool} (hsound : SoundCells rules edges here cells)
    (hstay : MarkersStay rules cells) (hregular : Page.Regular after inside cells) :
    Page.Regular after inside (newCells rules edges here cells) := by
  induction cells generalizing here inside with
  | nil => exact hregular
  | cons c cells ih =>
    obtain ⟨hinside, hkeeps, -, hitem, hmore⟩ := hregular
    have hmarker := hstay c (by simp)
    have hafter : insideAfter .format inside (newItem rules c.kept c.item) = insideAfter .format inside c.item := by
      simp only [insideAfter, hmarker]
    refine ⟨hinside, ?_, layout_newGap hsound.1, ?_, ?_⟩
    · simp only [newCell, keeps, hmarker]
      exact hkeeps
    · simp only [newCell, kind_newItem, hitem]
    · simp only [newCell, hafter]
      exact ih hsound.2 (fun c hc => hstay c (by simp [hc])) hmore

/-- A formatted page is the page of its lexemes. -/
theorem ofLexemes_formatted (rules : RuleSet) {ls : List Lexeme} (h : IsLexed d true ls) :
    Page.ofLexemes false ((Page.ofLexemes false ls).formatted rules).lexemes =
      (Page.ofLexemes false ls).formatted rules := by
  have hregular := Page.isRegular_ofLexemes false ls
  have hsound := soundCells_ofLexemes rules h
  rw [← Page.lexemes_ofLexemes false ls] at h
  have hstay : MarkersStay rules (Page.ofLexemes false ls).cells := markersStay_of_isLexed rules h
  apply Page.ofLexemes_lexemes
  refine ⟨regular_newCells hsound hstay hregular.cells, ?_⟩
  intro l hl
  simp only [Page.formatted, newTail] at hl
  split at hl
  · exact hregular.tail l hl
  · rw [List.eq_of_mem_replicate hl]
    rfl

/-! ## Places and brackets of the formatted page -/

/-- What formatting makes of a content piece. -/
def rewritten (rules : RuleSet) (p : Piece) : Piece :=
  { p with text := (newItem rules p.suppressed ⟨p.kind, p.text⟩).text }

theorem piece_newCell (edges : Nat → Option Text) (here : Place) (c : Cell) :
    (newCell rules edges here c).piece = rewritten rules c.piece := by
  simp [Cell.piece, newCell, rewritten, kind_newItem]

/-- Marks and words stay as they are. -/
theorem rewritten_eq_self {p : Piece} (h : p.kind = .punctuation ∨ ∃ cls, p.kind = .word cls) :
    rewritten rules p = p := by
  obtain ⟨kind, text, span, suppressed⟩ := p
  rcases h with rfl | ⟨cls, rfl⟩ <;> simp [rewritten, newItem]

theorem keepsBrackets_rewritten (rules : RuleSet) : KeepsBrackets (rewritten rules) where
  kind _ := rfl
  text _ h := by rw [rewritten_eq_self (.inl h)]
  suppressed _ := rfl

theorem isMark_rewritten (p : Piece) (c : Char) : (rewritten rules p).isMark c = p.isMark c := by
  by_cases h : p.kind = .punctuation
  · rw [rewritten_eq_self (.inl h)]
  · simp [Piece.isMark, rewritten, h]

theorem isOpener_rewritten (p : Piece) : isOpener (rewritten rules p) = isOpener p := by
  by_cases h : p.kind = .punctuation
  · rw [rewritten_eq_self (.inl h)]
  · simp [isOpener, rewritten, h]

theorem endsHeader_rewritten (p : Piece) : endsHeader (rewritten rules p) = endsHeader p := by
  by_cases h : p.kind = .punctuation ∨ ∃ cls, p.kind = .word cls
  · rw [rewritten_eq_self h]
  · obtain ⟨kind, text, span, suppressed⟩ := p
    cases kind <;> simp at h <;> rfl

theorem indentFor_rewritten (first : RuleSet) (st : LineState) (p : Piece) :
    indentFor rules st (rewritten first p) = indentFor rules st p := by
  unfold indentFor plainLevel
  rw [isMark_rewritten]
  rfl

theorem bracesAfter_rewritten (n : Nat) (p : Piece) :
    bracesAfter n [rewritten rules p] = bracesAfter n [p] := by
  simp [bracesAfter, isMark_rewritten]

/-- The place behind a formatted cell is that behind the cell. -/
theorem after_newCell (first : RuleSet) (edges : Nat → Option Text) (there here : Place) (c : Cell) :
    here.after rules (newCell first edges there c) = here.after rules c := by
  simp only [Place.after, Place.indent, piece_newCell, endsHeader_rewritten, isOpener_rewritten,
    bracesAfter_rewritten, indentFor_rewritten]
  rfl

/-- The blanks that brackets want are the same in the formatted page. -/
theorem edgesOf_newCells (first : RuleSet) (edges : Nat → Option Text) (here : Place)
    (cells : List Cell) : edgesOf rules (newCells first edges here cells) = edgesOf rules cells := by
  funext i
  refine edgeBlanks_map (keepsBrackets_rewritten first) ?_ i
  rw [List.map_map, List.map_map, List.map_map]
  induction cells generalizing here with
  | nil => rfl
  | cons c cells ih =>
    rw [newCells, List.map_cons, List.map_cons, ih]
    simp [piece_newCell]

/-! ## Gaps forget the first rules -/

/-- The two places have the same content before them; the conditional groups, which not all rules
count, may differ. -/
structure Place.Alike (here there : Place) : Prop where
  start : there.start = here.start
  header : there.header = here.header
  index : there.index = here.index

theorem Place.Alike.after {here there : Place} (h : here.Alike there) (first rules : RuleSet)
    (c : Cell) : (here.after rules c).Alike (there.after first c) :=
  ⟨rfl, rfl, by simp [Place.after, h.index]⟩

theorem breaksLeft_breaksLeft {first : RuleSet} (h : rules.maxEmptyLines ≤ first.maxEmptyLines)
    (start : Bool) (n : Nat) :
    breaksLeft rules start (breaksLeft first start n) = breaksLeft rules start n := by
  unfold breaksLeft
  cases start with
  | true => simp only [if_pos]; omega
  | false =>
    by_cases hn : n = 0
    · simp [hn]
    · simp only [Bool.false_eq_true, if_false, if_neg hn]
      rw [if_neg (by omega)]
      omega

theorem breaks_newBreaks (start : Bool) (g : List Lexeme) :
    breaks (newBreaks rules start g) = breaksLeft rules start (breaks g) :=
  breaks_replicate _

theorem newBreaks_newBreaks {first : RuleSet} (h : rules.maxEmptyLines ≤ first.maxEmptyLines)
    (start : Bool) {g b : List Lexeme} (hb : breaks b = 0) :
    newBreaks rules start (newBreaks first start g ++ b) = newBreaks rules start g := by
  rw [newBreaks, breaks_append, breaks_newBreaks, hb, Nat.add_zero, breaksLeft_breaksLeft h]
  rfl

theorem breaks_lastBlanks (g : List Lexeme) : breaks (lastBlanks g) = 0 := by
  obtain ⟨-, -, hblanks⟩ := exists_lastBlanks g
  rw [breaks, List.countP_eq_zero]
  intro l hl
  simp [hblanks l hl]

theorem lastBlanks_newBreaks (start : Bool) (g h : List Lexeme) :
    lastBlanks (newBreaks rules start g ++ lastBlanks h) = lastBlanks h := by
  obtain ⟨-, -, hblanks⟩ := exists_lastBlanks h
  refine lastBlanks_append ?_ hblanks
  intro l hl
  rw [List.eq_of_mem_replicate (List.mem_of_getLast? hl)]
  rfl

theorem indent_newCell (first : RuleSet) (edges : Nat → Option Text) (there here : Place) (c : Cell) :
    here.indent rules (newCell first edges there c) = here.indent rules c := by
  simp only [Place.indent, piece_newCell, indentFor_rewritten]

theorem isPlaced_newCell (first : RuleSet) (edges : Nat → Option Text) (there here : Place)
    (c : Cell) : (newCell first edges there c).isPlaced here = c.isPlaced here := by
  have hmark : (newItem first c.kept c.item).isMark '{' = c.item.isMark '{' := by
    have hpiece : (rewritten first c.piece).isMark '{' = c.piece.isMark '{' := isMark_rewritten _ _
    rwa [← piece_newCell edges there c] at hpiece
  simp only [Cell.isPlaced, newCell, hmark]

/-- A gap that was formatted is formatted like the gap of the source. -/
theorem newGap_newCell {first : RuleSet} (hmax : rules.maxEmptyLines ≤ first.maxEmptyLines)
    {edges edges' : Nat → Option Text} (hedges : ∀ i, (edges' i).isSome = (edges i).isSome)
    {here there : Place} (halike : here.Alike there) (c : Cell) :
    newGap rules edges here (newCell first edges' there c) = newGap rules edges here c := by
  have hplaced' : c.isPlaced there = c.isPlaced here := by simp [Cell.isPlaced, halike.header]
  rw [newGap, newGap, isPlaced_newCell, indent_newCell]
  show (if c.inside = true then newGap first edges' there c else _) = _
  by_cases hinside : c.inside = true
  · rw [if_pos hinside, if_pos hinside, newGap, if_pos hinside]
  rw [if_neg hinside, if_neg hinside]
  by_cases hplaced : c.isPlaced here = true
  · rw [if_pos hplaced, if_pos hplaced]
  rw [if_neg hplaced, if_neg hplaced]
  have hgap : (newCell first edges' there c).gap = newGap first edges' there c := rfl
  have hkept : (newCell first edges' there c).kept = c.kept := rfl
  rw [hgap, hkept, newGap, if_neg hinside, hplaced', if_neg hplaced, halike.start, halike.index]
  by_cases hline : (here.start || breaks c.gap ≠ 0) = true
  · -- at the start of a line: the breaks are cut down once more, and the blanks are replaced or kept
    simp only [if_pos hline]
    have hblanks : breaks (if c.kept = true then lastBlanks c.gap
        else blanks (there.indent first c).text) = 0 := by
      split
      · exact breaks_lastBlanks c.gap
      · exact breaks_blanks _
    have hline' : (here.start || breaks (newBreaks first here.start c.gap ++
        if c.kept = true then lastBlanks c.gap else blanks (there.indent first c).text) ≠ 0) =
          true := by
      rw [breaks_append, hblanks, Nat.add_zero, breaks_newBreaks, ← hline]
      cases here.start with
      | true => rfl
      | false =>
        simp only [breaksLeft, Bool.false_eq_true, if_false, Bool.false_or]
        split
        · simp [*]
        · simp [*]
    rw [if_pos hline', newBreaks_newBreaks hmax here.start hblanks]
    congr 1
    split
    · exact lastBlanks_newBreaks _ _ _
    · rfl
  · -- within a line: both rules speak of the same brackets
    simp only [if_neg hline]
    have hbreaks : breaks c.gap = 0 := by
      simp only [Bool.or_eq_true, not_or, decide_eq_true_eq, Decidable.not_not] at hline
      exact hline.2
    have hstart : here.start = false := by
      simp only [Bool.or_eq_true, not_or, Bool.not_eq_true] at hline
      exact hline.1
    have hsome := hedges here.index
    cases hedge' : edges' here.index with
    | none =>
      simp only
      rw [if_neg hline]
    | some t =>
      rw [hedge'] at hsome
      simp only [breaks_blanks, hstart]
      cases hedge : edges here.index with
      | none => simp [hedge] at hsome
      | some u => simp

theorem newItem_newItem (first : RuleSet) (kept : Bool) (l : Lexeme) :
    newItem rules kept (newItem first kept l) = newItem rules kept l := by
  have hending := Text.isBreakText_lineEnding first.lineEnding
  obtain ⟨kind, text⟩ := l
  cases kept with
  | true => rfl
  | false => cases kind <;> simp [newItem, Text.withEnding_withEnding hending]

theorem newCells_newCells {first : RuleSet} (hmax : rules.maxEmptyLines ≤ first.maxEmptyLines)
    {edges edges' : Nat → Option Text} (hedges : ∀ i, (edges' i).isSome = (edges i).isSome)
    {here there : Place} (halike : here.Alike there) (cells : List Cell) :
    newCells rules edges here (newCells first edges' there cells) =
      newCells rules edges here cells := by
  induction cells generalizing here there with
  | nil => rfl
  | cons c cells ih =>
    have hcell : newCell rules edges here (newCell first edges' there c) =
        newCell rules edges here c := by
      have hgap := newGap_newCell hmax hedges halike c
      have hitem : newItem rules c.kept (newItem first c.kept c.item) = newItem rules c.kept c.item :=
        newItem_newItem first c.kept c.item
      show Cell.mk (newGap rules edges here (newCell first edges' there c))
        (newItem rules c.kept (newItem first c.kept c.item)) c.inside c.kept = _
      rw [hgap, hitem]
      rfl
    rw [newCells, newCells, newCells, hcell, after_newCell, ih (halike.after first rules c)]

/-- Of two rule sets the last one counts. -/
theorem formatted_formatted {first : RuleSet} (hmax : rules.maxEmptyLines ≤ first.maxEmptyLines)
    (p : Page) : (p.formatted first).formatted rules = p.formatted rules := by
  have hedges (i : Nat) :
      (edgesOf first p.cells i).isSome = (edgesOf rules p.cells i).isSome := by
    unfold edgesOf edgeBlanks
    split
    · rfl
    · split <;> rfl
  have hempty : (newCells first (edgesOf first p.cells) {} p.cells).isEmpty = p.cells.isEmpty := by
    cases p.cells <;> rfl
  have htail (start : Bool) : newTail rules start p.tailInside
      (newTail first start p.tailInside p.tail) = newTail rules start p.tailInside p.tail := by
    unfold newTail
    split
    · rfl
    · have := newBreaks_newBreaks (g := p.tail) (b := []) hmax start rfl
      rwa [List.append_nil] at this
  unfold Page.formatted
  simp only [edgesOf_newCells, hempty, htail]
  rw [newCells_newCells hmax hedges ⟨rfl, rfl, rfl⟩]

/-! ## Formatting a source twice -/

theorem noneDangles_of_carriesOn {tail : List Lexeme} {cells : List Cell}
    (h : ∀ c ∈ cells, carriesOn c.item = false) : NoneDangles tail cells := by
  induction cells with
  | nil => trivial
  | cons c cells ih =>
    refine ⟨?_, ih fun c hc => h c (by simp [hc])⟩
    rintro ⟨-, hcarries, -⟩
    simp [h c (by simp)] at hcarries

/-- No directive dangles in a source whose directives do not end in a backslash. -/
theorem noneDangles_of_getLast? {ls : List Lexeme} (h : IsLexed d true ls)
    (hlast : ∀ l ∈ ls, ∀ name, l.kind = .directive name → l.text.getLast? ≠ some '\\') :
    NoneDangles (Page.ofLexemes false ls).tail (Page.ofLexemes false ls).cells := by
  apply noneDangles_of_carriesOn
  intro c hc
  have hmem := Page.item_mem_of_mem_ofLexemes hc
  obtain ⟨b, t, hread⟩ := exists_reads_of_mem h hmem
  rw [← Bool.not_eq_true]
  intro hcarries
  have hdirective : ∃ name, c.item.kind = .directive name := by
    unfold carriesOn at hcarries
    split at hcarries
    · exact ⟨_, by assumption⟩
    · simp at hcarries
  obtain ⟨name, hname⟩ := hdirective
  exact hlast c.item hmem name hname (getLast?_of_carriesOn hread hcarries)

/-- Formatting by some rules what was formatted by others gives what formatting the source by them
gives, unless the first rules drop empty lines that the second ones allow. So formatting again by the
same rules changes nothing and finds nothing. -/
theorem restyle_absorbs (first second : RuleSet) (d : Dialect) (source : Text) (tokens : List Token)
    (htokens : tokenize d source = .ok tokens)
    (hdirectives : ∀ t ∈ tokens, ∀ name, t.kind = .directive name → t.text.getLast? ≠ some '\\')
    (hmax : second.maxEmptyLines ≤ first.maxEmptyLines) :
    ∃ tokens', tokenize d (restyle first tokens).text = .ok tokens' ∧
      (restyle second tokens').text = (restyle second tokens).text ∧
      (first = second → (restyle second tokens').text = (restyle first tokens).text ∧
        (restyle second tokens').diagnostics = []) := by
  obtain ⟨ls, hlexed, rfl, rfl⟩ := tokenize_eq_ok_iff.1 htokens
  have hlast : ∀ l ∈ ls, ∀ name, l.kind = .directive name → l.text.getLast? ≠ some '\\' := by
    intro l hl
    have hmem : l ∈ (place 0 .origin ls).map Token.toLexeme := by
      rw [map_toLexeme_place]
      exact List.mem_append_left _ hl
    obtain ⟨t, ht, rfl⟩ := List.mem_map.1 hmem
    exact hdirectives t ht
  have hrelexed := isLexed_formatted first hlexed (noneDangles_of_getLast? hlexed hlast)
  have hpage := ofLexemes_formatted first hlexed
  have habsorbs := formatted_formatted hmax (Page.ofLexemes false ls)
  refine ⟨_, tokenize_eq_ok_iff.2 ⟨_, hrelexed, (text_restyle first hlexed).symm, rfl⟩, ?_, ?_⟩
  · rw [text_restyle second hrelexed, text_restyle second hlexed, hpage, habsorbs]
  · rintro rfl
    refine ⟨?_, ?_⟩
    · rw [text_restyle first hrelexed, text_restyle first hlexed, hpage, habsorbs]
    · apply diagnostics_restyle_eq_nil hrelexed
      rw [hpage, habsorbs]

/-- A directive, empty lines and a block, formatted with an empty line and then without. -/
theorem restyle_absorbs_block :
    ∃ tokens, tokenize .hlsl ['#', 'i', 'f', '\n', '\n', '\n', '(', ' ', ')', '{', '}'] = .ok tokens ∧
      ∃ tokens', tokenize .hlsl (restyle {} tokens).text = .ok tokens' ∧
        (restyle { maxEmptyLines := 0, openBrace := .ownLine } tokens').text =
          (restyle { maxEmptyLines := 0, openBrace := .ownLine } tokens).text := by
  have htokens :
      tokenize .hlsl ['#', 'i', 'f', '\n', '\n', '\n', '(', ' ', ')', '{', '}'] = .ok _ :=
    tokenize_eq_ok_iff.2 ⟨[⟨.directive ['i', 'f'], ['#', 'i', 'f']⟩, ⟨.lineBreak, ['\n']⟩,
      ⟨.lineBreak, ['\n']⟩, ⟨.lineBreak, ['\n']⟩, ⟨.punctuation, ['(']⟩, ⟨.whitespace, [' ']⟩,
      ⟨.punctuation, [')']⟩, ⟨.punctuation, ['{']⟩, ⟨.punctuation, ['}']⟩], by decide +kernel, rfl, rfl⟩
  obtain ⟨tokens', htokens', htext, -⟩ := restyle_absorbs {}
    { maxEmptyLines := 0, openBrace := .ownLine } .hlsl _ _ htokens (by simp [place]) (by decide)
  exact ⟨_, htokens, tokens', htokens', htext⟩

end Layout

end ShaderStyle
