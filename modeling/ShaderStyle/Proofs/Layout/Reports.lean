import ShaderStyle.Proofs.Layout.Preservation

/-!
# Every change is reported

Formatting finds nothing exactly if it changes nothing (`diagnostics_restyle_eq_nil_iff`).

* `text_formatPieces`: pass by pass, a pass that finds nothing gives back what it was given. A finding
  about empty lines or line breaks is made once only, but what comes first is always found.
* `formatted_eq_self`: if the text is the same in the end, no pass has undone what another one did.
  The text is then lexed as before, so the page is the same, gap by gap and item by item; and on such
  a page nothing is found.

Every finding is a warning under one of the rules of formatting (`isLayoutWarning_of_mem_restyle`).
-/

namespace ShaderStyle

namespace Layout

open Lexer

variable {rules : RuleSet}

/-! ## Passes that find nothing -/

theorem placeBraces_of_quiet {header : Option Piece} {slots : List Slot}
    (h : braceDiagnostics rules header slots = []) : placeBraces rules header slots = slots := by
  induction slots generalizing header with
  | nil => rfl
  | cons s slots ih =>
    rw [braceDiagnostics, List.append_eq_nil_iff] at h
    have hmoves : ¬ movesBrace rules header s = true := by
      intro hmoves
      simp [hmoves] at h
    rw [placeBraces, if_neg hmoves, ih h.2]

/-- A gap that is replaced lies at a pair. -/
theorem exists_pair_of_edgeDiffers {pairs : List BracketPair} {slots : List Slot} {i : Nat}
    (h : edgeDiffers rules pairs slots i = true) : ∃ p ∈ pairs, p.openAt + 1 = i ∨ p.closeAt = i := by
  have hblanks : edgeBlanks rules pairs i ≠ none := by
    intro hnone
    unfold edgeDiffers at h
    split at h
    · simp at h
    · rw [hnone] at h
      simp [gapDiffers] at h
  unfold edgeBlanks at hblanks
  split at hblanks
  · rename_i hany
    rcases List.any_eq_true.1 hany with ⟨p, hp, hat⟩
    simp only [Bool.and_eq_true, decide_eq_true_eq] at hat
    exact ⟨p, hp, .inl hat.1⟩
  · split at hblanks
    · rename_i hany
      rcases List.any_eq_true.1 hany with ⟨p, hp, hat⟩
      simp only [Bool.or_eq_true, decide_eq_true_eq] at hat
      exact ⟨p, hp, hat⟩
    · simp at hblanks

theorem edgeDiffers_of_quiet {pairs : List BracketPair} {slots : List Slot}
    (h : bracketDiagnostics rules pairs slots = []) (i : Nat) :
    edgeDiffers rules pairs slots i = false := by
  rw [← Bool.not_eq_true]
  intro hdiffers
  rcases exists_pair_of_edgeDiffers hdiffers with ⟨p, hp, hat⟩
  rw [bracketDiagnostics, List.map_eq_nil_iff, List.filter_eq_nil_iff] at h
  apply h p hp
  rcases hat with hat | hat
  · rw [hat, hdiffers, Bool.true_or]
  · rw [hat, hdiffers, Bool.or_true]

theorem spaceBrackets_of_settled {pairs : List BracketPair} {slots : List Slot} {i : Nat}
    (h : ∀ j s, slots[j]? = some s → gapDiffers (edgeBlanks rules pairs (i + j)) s.gap = false) :
    spaceBrackets rules pairs i slots = slots := by
  induction slots generalizing i with
  | nil => rfl
  | cons s slots ih =>
    have hs := h 0 s rfl
    have hmore : spaceBrackets rules pairs (i + 1) slots = slots := by
      apply ih
      intro j r hr
      have hr' := h (j + 1) r (by simpa using hr)
      rwa [← Nat.add_assoc, Nat.add_right_comm] at hr'
    rw [Nat.add_zero] at hs
    rw [spaceBrackets, hmore]
    simp [hs]

theorem spaceBrackets_of_quiet {pairs : List BracketPair} {slots : List Slot}
    (h : bracketDiagnostics rules pairs slots = []) : spaceBrackets rules pairs 0 slots = slots := by
  apply spaceBrackets_of_settled
  intro j s hs
  have hdiffers := edgeDiffers_of_quiet h j
  rw [edgeDiffers, hs] at hdiffers
  rwa [Nat.zero_add]

/-! ## Lines on which nothing is found -/

theorem render_eq_nil {ps : List Piece} (h : ∀ p ∈ ps, p.text = []) : Piece.render ps = [] := by
  rw [Piece.render, List.flatMap_eq_nil_iff]
  exact h

/-- Without a finding about its end, a line has no blanks there. -/
theorem render_stripEnd {line : Line} (h : stripDiagnostics line = []) :
    Piece.render (stripEnd line.body) = Piece.render line.body := by
  have hstripped : strippedEnd line.body = [] := by
    unfold stripDiagnostics at h
    split at h
    · assumption
    · simp at h
  have hblank : Piece.render (line.body.reverse.takeWhile isStripped).reverse = [] := by
    apply render_eq_nil
    intro p hp
    rw [strippedEnd, List.filter_eq_nil_iff] at hstripped
    simpa using hstripped p hp
  have hsplit : line.body =
      stripEnd line.body ++ (line.body.reverse.takeWhile isStripped).reverse := by
    rw [stripEnd, ← List.reverse_append, List.takeWhile_append_dropWhile, List.reverse_reverse]
  conv => rhs; rw [hsplit]
  rw [Piece.render_append, hblank, List.append_nil]

theorem render_map_withEnding {ps : List Piece} (h : firstOtherEnding rules ps = none) :
    Piece.render (ps.map (withEnding rules)) = Piece.render ps := by
  induction ps with
  | nil => rfl
  | cons p ps ih =>
    rw [firstOtherEnding, List.find?_eq_none] at h
    have hp : (withEnding rules p).text = p.text := by simpa using h p (by simp)
    have hmore : firstOtherEnding rules ps = none := by
      rw [firstOtherEnding, List.find?_eq_none]
      intro q hq
      exact h q (by simp [hq])
    rw [List.map_cons, Piece.render_cons, Piece.render_cons, hp, ih hmore]

/-- Nothing has been found so far that would be found once only. -/
def LineState.IsFresh (st : LineState) : Prop :=
  st.reportedEmpty = false ∧ st.reportedEnding = false

/-- A line on which nothing is found comes out as it was, and everything would still be found behind
it. -/
structure LineResult.IsQuiet (line : Line) (r : LineResult) : Prop where
  text : Piece.render r.pieces = Piece.render line.pieces
  fresh : r.state.IsFresh

theorem finishLine_quiet {st : LineState} {line : Line} (hst : st.IsFresh)
    (h : (finishLine rules st line).diagnostics = []) : (finishLine rules st line).IsQuiet line := by
  simp only [finishLine, List.append_eq_nil_iff] at h
  have hending : firstOtherEnding rules (stripEnd line.body ++ line.ending.toList) = none := by
    have hnone := h.2
    rw [endingDiagnostics, hst.2, if_neg (by simp)] at hnone
    split at hnone
    · assumption
    · simp at hnone
  refine ⟨?_, hst.1, ?_⟩
  · simp only [finishLine]
    rw [render_map_withEnding hending, Piece.render_append, render_stripEnd h.1, Line.pieces,
      Piece.render_append]
  · simp only [finishLine, hending, hst.2]
    rfl

theorem formatLine_quiet {st : LineState} {line : Line} (hst : st.IsFresh)
    (h : (formatLine rules st line).diagnostics = []) : (formatLine rules st line).IsQuiet line := by
  unfold formatLine at h ⊢
  split
  · rename_i hcontent
    rw [hcontent] at h
    simp only [emptyLine] at h ⊢
    split
    · -- the first line that is dropped is found
      rename_i hdropped
      rw [if_pos hdropped, hst.1] at h
      simp at h
    · rename_i hkept
      rw [if_neg hkept] at h
      exact finishLine_quiet ⟨hst.1, hst.2⟩ h
  · rename_i first more hcontent
    rw [hcontent] at h
    simp only [contentLine, List.append_eq_nil_iff] at h ⊢
    have hdiffers : indentDiffers (indentFor rules st first).text line.body = false := by
      rw [← Bool.not_eq_true]
      intro hdiffers
      simp [hdiffers] at h
    rw [hdiffers] at h ⊢
    have hquiet := finishLine_quiet (by exact ⟨rfl, hst.2⟩) h.2
    exact ⟨hquiet.text, hquiet.fresh⟩

theorem render_formatLines {st : LineState} {ls : List Line} (hst : st.IsFresh)
    (h : (formatLines rules st ls).2 = []) :
    Piece.render (formatLines rules st ls).1 = Piece.render (ls.flatMap Line.pieces) := by
  induction ls generalizing st with
  | nil => rfl
  | cons l ls ih =>
    rw [formatLines_cons, List.append_eq_nil_iff] at h
    have hquiet := formatLine_quiet hst h.1
    rw [formatLines_cons, Piece.render_append, hquiet.text, ih hquiet.fresh h.2, List.flatMap_cons,
      Piece.render_append]

theorem flatMap_pieces_split (ps : List Piece) : (Line.split ps).flatMap Line.pieces = ps := by
  rcases exists_closed_lines ps with ⟨ls, last, rfl, hls, hlast⟩
  rw [Line.split_flatMap_append hls, List.flatMap_append]
  by_cases hnil : last = []
  · subst hnil
    rfl
  · rw [Line.split_of_no_newline hnil hlast]
    simp [Line.pieces]

/-- Formatting that finds nothing changes nothing. -/
theorem text_formatPieces {ps : List Piece} (h : (formatPieces rules ps).diagnostics = []) :
    (formatPieces rules ps).text = Piece.render ps := by
  simp only [formatPieces, List.append_eq_nil_iff] at h
  rcases h with ⟨⟨hbraces, hbrackets⟩, hlines⟩
  rw [placeBraces_of_quiet hbraces] at hbrackets hlines
  rw [spaceBrackets_of_quiet hbrackets] at hlines
  simp only [formatPieces, Formatted.text]
  rw [placeBraces_of_quiet hbraces, spaceBrackets_of_quiet hbrackets,
    render_formatLines ⟨rfl, rfl⟩ hlines, flatMap_pieces_split]
  congr 1
  exact Sheet.pieces_ofPieces ps

theorem render_piecesOf {ls : List Lexeme} (hls : ∀ l ∈ ls, l.kind ≠ .eof) (offset : Nat)
    (position : Position) (inside : Bool) :
    Piece.render (piecesOf (place offset position ls)
      (Suppression.regionFlags .format inside (place offset position ls))) = textOf ls := by
  rw [← Piece.textOf_map_lexeme, map_lexeme_piecesOf hls]

/-! ## Text that stays the same -/

variable {d : Dialect} {ls : List Lexeme}

theorem agrees_refl (rules : RuleSet) (l : Lexeme) : Agrees rules l l := by
  refine ⟨rfl, ?_⟩
  split <;> rfl

/-- If formatting gives the text back, the page of the source is as it should be. -/
theorem formatted_eq_self (h : IsLexed d true ls)
    (htext : ((Page.ofLexemes false ls).formatted rules).text = textOf ls) :
    (Page.ofLexemes false ls).formatted rules = Page.ofLexemes false ls := by
  have hregular := Page.isRegular_ofLexemes false ls
  have houtput : lexemes d true ((Page.ofLexemes false ls).formatted rules).text = .ok ls := by
    rw [htext]
    exact h
  -- the text is lexed as the source was, so no directive has taken on a line
  have hitems : (Page.ofLexemes false ls).cells.map Cell.item =
      ls.filter fun l => !l.kind.isLayout := by
    rw [← filter_lexemes hregular.cells hregular.tail]
    exact congrArg _ (Page.lexemes_ofLexemes false ls)
  have hnone := noneDangles_of_agrees h houtput (by
    rw [hitems]
    exact List.forall₂_same.2 fun l _ => agrees_refl rules l)
  have hrelexed := isLexed_formatted rules h hnone
  have hlexemes : ((Page.ofLexemes false ls).formatted rules).lexemes = ls := by
    have := hrelexed.symm.trans houtput
    simpa using this
  rw [← ofLexemes_formatted rules h, hlexemes]

/-- Formatting finds nothing exactly if it gives the text of the source back. -/
theorem diagnostics_restyle_eq_nil_iff (rules : RuleSet) (h : IsLexed d true ls) :
    (restyle rules (place 0 .origin ls)).diagnostics = [] ↔
      (restyle rules (place 0 .origin ls)).text = textOf ls := by
  constructor
  · intro hquiet
    exact (text_formatPieces hquiet).trans (render_piecesOf (kind_ne_eof h) 0 .origin false)
  · intro htext
    rw [text_restyle rules h] at htext
    exact diagnostics_restyle_eq_nil h (formatted_eq_self h htext)

/-! ## The rules of formatting -/

/-- The rules under which formatting reports a change. -/
def ruleNames : List String :=
  ["brace-placement", "spaces-in-brackets", "max-empty-lines", "indentation",
    "preprocessor-indentation", "trailing-whitespace", "line-ending"]

end Layout

/-- Whether a finding is a warning of formatting. -/
def Diagnostic.IsLayoutWarning (x : Diagnostic) : Prop :=
  x.severity = .warning ∧ x.rule ∈ Layout.ruleNames

namespace Layout

theorem isLayoutWarning_brace {header : Option Piece} {slots : List Slot} {x : Diagnostic}
    (h : x ∈ braceDiagnostics rules header slots) : x.IsLayoutWarning := by
  induction slots generalizing header with
  | nil => simp [braceDiagnostics] at h
  | cons s slots ih =>
    rw [braceDiagnostics, List.mem_append] at h
    rcases h with hs | hmore
    · split at hs
      · rw [List.mem_singleton.1 hs]
        exact ⟨rfl, by simp [braceDiagnostic, ruleNames]⟩
      · simp at hs
    · exact ih hmore

theorem isLayoutWarning_bracket {pairs : List BracketPair} {slots : List Slot} {x : Diagnostic}
    (h : x ∈ bracketDiagnostics rules pairs slots) : x.IsLayoutWarning := by
  rcases List.mem_map.1 h with ⟨p, -, rfl⟩
  exact ⟨rfl, by simp [bracketDiagnostic, ruleNames]⟩

theorem isLayoutWarning_finishLine {st : LineState} {line : Line} {x : Diagnostic}
    (h : x ∈ (finishLine rules st line).diagnostics) : x.IsLayoutWarning := by
  rcases List.mem_append.1 h with hstrip | hending
  · unfold stripDiagnostics at hstrip
    split at hstrip
    · simp at hstrip
    · rw [List.mem_singleton.1 hstrip]
      exact ⟨rfl, by simp [ruleNames]⟩
  · unfold endingDiagnostics at hending
    split at hending
    · simp at hending
    · split at hending
      · simp at hending
      · rw [List.mem_singleton.1 hending]
        exact ⟨rfl, by simp [ruleNames]⟩

theorem rule_indentFor (rules : RuleSet) (st : LineState) (first : Piece) :
    (indentFor rules st first).rule ∈ ruleNames := by
  unfold indentFor
  split
  · simp [ruleNames]
  · simp [ruleNames]

theorem isLayoutWarning_formatLine {st : LineState} {line : Line} {x : Diagnostic}
    (h : x ∈ (formatLine rules st line).diagnostics) : x.IsLayoutWarning := by
  unfold formatLine at h
  split at h
  · simp only [emptyLine] at h
    split at h
    · simp only at h
      split at h
      · simp at h
      · rw [List.mem_singleton.1 h]
        exact ⟨rfl, by simp [ruleNames]⟩
    · exact isLayoutWarning_finishLine h
  · simp only [contentLine, List.mem_append] at h
    rcases h with hindent | hfinish
    · split at hindent
      · rw [List.mem_singleton.1 hindent]
        exact ⟨rfl, rule_indentFor rules st _⟩
      · simp at hindent
    · exact isLayoutWarning_finishLine hfinish

theorem isLayoutWarning_formatLines {st : LineState} {ls : List Line} {x : Diagnostic}
    (h : x ∈ (formatLines rules st ls).2) : x.IsLayoutWarning := by
  induction ls generalizing st with
  | nil => simp [formatLines] at h
  | cons l ls ih =>
    rw [formatLines_cons, List.mem_append] at h
    rcases h with hl | hmore
    · exact isLayoutWarning_formatLine hl
    · exact ih hmore

/-- Every finding of formatting is a warning under one of its rules. -/
theorem isLayoutWarning_of_mem_restyle {tokens : List Token} {x : Diagnostic}
    (h : x ∈ (restyle rules tokens).diagnostics) : x.IsLayoutWarning := by
  simp only [restyle, format, formatPieces, List.mem_append] at h
  rcases h with (hbrace | hbracket) | hline
  · exact isLayoutWarning_brace hbrace
  · exact isLayoutWarning_bracket hbracket
  · exact isLayoutWarning_formatLines hline

end Layout

end ShaderStyle
