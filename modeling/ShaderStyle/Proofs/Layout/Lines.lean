import ShaderStyle.Proofs.Layout.Page

/-!
# Lines of the output, one by one

What the last pass makes of one line: of a line without content (`formatLine_kept`,
`pieces_formatLine_empty`), of a run of such lines (`formatLines_empty`), and of a line with content
(`render_formatLine`), with the state behind it and with when nothing is found there.
-/

namespace ShaderStyle

namespace Piece

/-- The piece without its place. -/
def lexeme (p : Piece) : Lexeme :=
  ⟨p.kind, p.text⟩

@[simp] theorem lexeme_isNewline (p : Piece) : p.lexeme.isNewline = p.isNewline := rfl

@[simp] theorem render_nil : render [] = [] := rfl

@[simp] theorem render_cons (p : Piece) (ps : List Piece) : render (p :: ps) = p.text ++ render ps := rfl

@[simp] theorem render_append (ps qs : List Piece) : render (ps ++ qs) = render ps ++ render qs := by
  simp [render]

theorem textOf_map_lexeme (ps : List Piece) : Lexer.textOf (ps.map lexeme) = render ps := by
  simp [Lexer.textOf, render, List.flatMap_map, lexeme]

end Piece

namespace Layout

variable {rules : RuleSet}

/-! ## Dividing into lines -/

/-- A line that is ended by a line break. -/
structure Line.IsClosed (l : Line) : Prop where
  body : ∀ p ∈ l.body, p.isNewline = false
  ending : ∃ nl, l.ending = some nl ∧ nl.isNewline = true

theorem Line.split_append {l : Line} (h : l.IsClosed) (ps : List Piece) :
    Line.split (l.pieces ++ ps) = l :: Line.split ps := by
  obtain ⟨body, ending⟩ := l
  obtain ⟨hbody, nl, hnl, hnewline⟩ := h
  simp only at hbody hnl
  subst hnl
  induction body with
  | nil => simp [Line.pieces, Line.split, hnewline]
  | cons p body ih =>
    have hp : p.isNewline = false := hbody p (by simp)
    have ih := ih fun p hp => hbody p (by simp [hp])
    simp only [Line.pieces, Option.toList_some, List.append_assoc, List.cons_append,
      List.nil_append] at ih ⊢
    rw [Line.split, if_neg (by simp [hp]), ih, Line.consToFirst]

theorem Line.split_flatMap_append {ls : List Line} (h : ∀ l ∈ ls, l.IsClosed) (ps : List Piece) :
    Line.split (ls.flatMap Line.pieces ++ ps) = ls ++ Line.split ps := by
  induction ls with
  | nil => rfl
  | cons l ls ih =>
    rw [List.flatMap_cons, List.append_assoc, Line.split_append (h l (by simp)),
      ih fun l hl => h l (by simp [hl])]
    rfl

theorem Line.split_of_no_newline {ps : List Piece} (hne : ps ≠ [])
    (h : ∀ p ∈ ps, p.isNewline = false) : Line.split ps = [⟨ps, none⟩] := by
  induction ps with
  | nil => exact absurd rfl hne
  | cons p ps ih =>
    rw [Line.split, if_neg (by simp [h p (by simp)])]
    cases ps with
    | nil => rfl
    | cons q ps => rw [ih (by simp) fun p hp => h p (by simp [hp])]; rfl

/-- A list of pieces is some lines that are ended, and a rest without a line break. -/
theorem exists_closed_lines (g : List Piece) :
    ∃ (ls : List Line) (last : List Piece), g = ls.flatMap Line.pieces ++ last ∧ (∀ l ∈ ls, l.IsClosed) ∧
      ∀ p ∈ last, p.isNewline = false := by
  induction g with
  | nil => exact ⟨[], [], rfl, by simp, by simp⟩
  | cons p g ih =>
    obtain ⟨ls, last, rfl, hls, hlast⟩ := ih
    by_cases hp : p.isNewline = true
    · refine ⟨⟨[], some p⟩ :: ls, last, by simp [Line.pieces], ?_, hlast⟩
      intro l hl
      rcases List.mem_cons.1 hl with rfl | hl
      · exact ⟨by simp, p, rfl, hp⟩
      · exact hls l hl
    · simp only [Bool.not_eq_true] at hp
      cases ls with
      | nil =>
        refine ⟨[], p :: last, rfl, by simp, ?_⟩
        intro q hq
        rcases List.mem_cons.1 hq with rfl | hq
        · exact hp
        · exact hlast q hq
      | cons l ls =>
        have hl := hls l (by simp)
        refine ⟨⟨p :: l.body, l.ending⟩ :: ls, last, by simp [Line.pieces], ?_, hlast⟩
        intro m hm
        rcases List.mem_cons.1 hm with rfl | hm
        · refine ⟨?_, hl.ending⟩
          intro q hq
          rcases List.mem_cons.1 hq with rfl | hq
          · exact hp
          · exact hl.body q hq
        · exact hls m (by simp [hm])

/-! ## One line after the other -/

/-- The state behind some lines. -/
def stateAfter (rules : RuleSet) (st : LineState) (ls : List Line) : LineState :=
  ls.foldl (fun st l => (formatLine rules st l).state) st

theorem formatLines_cons (st : LineState) (l : Line) (ls : List Line) :
    formatLines rules st (l :: ls) =
      ((formatLine rules st l).pieces ++ (formatLines rules (formatLine rules st l).state ls).1,
        (formatLine rules st l).diagnostics ++
          (formatLines rules (formatLine rules st l).state ls).2) := rfl

theorem formatLines_append (st : LineState) (ls ms : List Line) :
    formatLines rules st (ls ++ ms) =
      ((formatLines rules st ls).1 ++ (formatLines rules (stateAfter rules st ls) ms).1,
        (formatLines rules st ls).2 ++ (formatLines rules (stateAfter rules st ls) ms).2) := by
  induction ls generalizing st with
  | nil => rfl
  | cons l ls ih => simp [formatLines_cons, ih, stateAfter, List.foldl_cons, List.append_assoc]

/-! ## Gaps as pieces -/

/-- The pieces of a gap: all of them are left as they are or none is, and a line break that was put
in is written as the rules say. -/
structure IsGap (rules : RuleSet) (kept : Bool) (g : List Piece) : Prop where
  layout : ∀ p ∈ g, p.isLayout = true
  suppressed : ∀ p ∈ g, p.suppressed = kept
  inserted : ∀ p ∈ g, p.isNewline = true → p.span = none → p.text = rules.lineEnding.text

theorem isGap_append {kept : Bool} {g h : List Piece} :
    IsGap rules kept (g ++ h) ↔ IsGap rules kept g ∧ IsGap rules kept h := by
  constructor
  · intro hgap
    exact ⟨⟨fun p hp => hgap.layout p (by simp [hp]), fun p hp => hgap.suppressed p (by simp [hp]),
        fun p hp => hgap.inserted p (by simp [hp])⟩,
      ⟨fun p hp => hgap.layout p (by simp [hp]), fun p hp => hgap.suppressed p (by simp [hp]),
        fun p hp => hgap.inserted p (by simp [hp])⟩⟩
  · rintro ⟨hg, hh⟩
    refine ⟨?_, ?_, ?_⟩
    · intro p hp
      exact (List.mem_append.1 hp).elim (hg.layout p) (hh.layout p)
    · intro p hp
      exact (List.mem_append.1 hp).elim (hg.suppressed p) (hh.suppressed p)
    · intro p hp
      exact (List.mem_append.1 hp).elim (hg.inserted p) (hh.inserted p)

theorem withEnding_of_suppressed {p : Piece} (h : p.suppressed = true) : withEnding rules p = p := by
  simp [withEnding, h]

theorem withEnding_of_blanks {p : Piece} (h : p.isLayout = true) (hp : p.isNewline = false) :
    withEnding rules p = p := by
  obtain ⟨kind, text, span, suppressed⟩ := p
  cases kind <;> simp [Piece.isLayout, TokenKind.isLayout, Piece.isNewline] at h hp
  simp [withEnding]

theorem map_withEnding_eq_self {ps : List Piece} (h : ∀ p ∈ ps, withEnding rules p = p) :
    ps.map (withEnding rules) = ps := by
  rw [List.map_congr_left h, List.map_id']

/-- A line break that is not left as it is comes out as the rules say. -/
theorem lexeme_withEnding_newline {g : List Piece} (hg : IsGap rules false g) {p : Piece} (hp : p ∈ g)
    (hnl : p.isNewline = true) : (withEnding rules p).lexeme = newline rules := by
  have hs := hg.suppressed p hp
  have hi := hg.inserted p hp hnl
  obtain ⟨kind, text, span, suppressed⟩ := p
  simp only [Piece.isNewline, decide_eq_true_eq] at hnl hs hi
  subst hnl hs
  cases span with
  | none => simp [withEnding, Piece.lexeme, newline, hi rfl]
  | some span => simp [withEnding, Piece.lexeme, newline]

/-! ## The end of a line -/

theorem stripEnd_append (xs : List Piece) {g : List Piece} (hxs : ∀ p ∈ xs.getLast?, isStripped p = false)
    {kept : Bool} (hg : IsGap rules kept g) :
    stripEnd (xs ++ g) = xs ++ if kept then g else [] := by
  unfold stripEnd
  rw [List.reverse_append]
  have hdrop : xs.reverse.dropWhile isStripped = xs.reverse := by
    cases hlast : xs.reverse with
    | nil => rfl
    | cons p ys =>
      have hp : isStripped p = false := by
        apply hxs
        rw [List.getLast?_eq_head?_reverse, hlast]
        rfl
      rw [List.dropWhile_cons_of_neg (by simp [hp])]
  cases kept with
  | false =>
    rw [List.dropWhile_append_of_pos, hdrop]
    · simp
    · intro p hp
      rw [List.mem_reverse] at hp
      simp [isStripped, hg.layout p hp, hg.suppressed p hp]
  | true =>
    have hkeep : (g.reverse ++ xs.reverse).dropWhile isStripped = g.reverse ++ xs.reverse := by
      cases hrev : g.reverse with
      | nil => simpa using hdrop
      | cons p ys =>
        have hp : p ∈ g := by rw [← List.mem_reverse, hrev]; simp
        rw [List.cons_append, List.dropWhile_cons_of_neg]
        simp [isStripped, hg.suppressed p hp]
    rw [hkeep]
    simp

theorem strippedEnd_append (xs : List Piece) {g : List Piece} (hxs : ∀ p ∈ xs.getLast?, isStripped p = false)
    {kept : Bool} (hg : IsGap rules kept g) (h : kept = true ∨ g = []) :
    strippedEnd (xs ++ g) = [] := by
  have hnil : (xs ++ g).reverse.takeWhile isStripped = [] := by
    cases hlast : (xs ++ g).reverse with
    | nil => rfl
    | cons p ys =>
      have hp : (xs ++ g).getLast? = some p := by rw [List.getLast?_eq_head?_reverse, hlast]; rfl
      have hstripped : isStripped p = false := by
        rw [List.getLast?_append] at hp
        cases hgl : g.getLast? with
        | none =>
          rw [hgl, Option.none_or] at hp
          exact hxs p hp
        | some q =>
          rw [hgl, Option.some_or, Option.some.injEq] at hp
          subst hp
          have hmem := List.mem_of_getLast? hgl
          rcases h with rfl | rfl
          · simp [isStripped, hg.suppressed q hmem]
          · simp at hmem
      rw [List.takeWhile_cons_of_neg (by simp [hstripped])]
  rw [strippedEnd, hnil]
  rfl

theorem endingDiagnostics_eq_nil {reported : Bool} {ps : List Piece}
    (h : ∀ p ∈ ps, (withEnding rules p).text = p.text) : endingDiagnostics rules reported ps = [] := by
  have hnone : firstOtherEnding rules ps = none := by
    rw [firstOtherEnding, List.find?_eq_none]
    intro p hp
    simp [h p hp]
  simp [endingDiagnostics, hnone]

/-! ## Empty lines -/

theorem Line.content_eq_nil {l : Line} (h : ∀ p ∈ l.body, p.isLayout = true) : l.content = [] := by
  rw [Line.content, List.filter_eq_nil_iff]
  intro p hp
  simp [h p hp]

/-- An empty line that is left as it is. -/
theorem formatLine_kept (st : LineState) {l : Line} (hl : IsGap rules true l.pieces)
    (hne : l.pieces ≠ []) :
    formatLine rules st l =
      ⟨{ st with emptyLines := st.emptyLines + 1
                 reportedEnding := (formatLine rules st l).state.reportedEnding },
        l.pieces, []⟩ := by
  have hbody : IsGap rules true l.body := (isGap_append.1 hl).1
  have hcontent : l.content = [] := Line.content_eq_nil hbody.layout
  have hany : l.pieces.any Piece.suppressed = true := by
    obtain ⟨p, ps, hps⟩ := List.exists_cons_of_ne_nil hne
    rw [List.any_eq_true]
    exact ⟨p, by simp [hps], hl.suppressed p (by simp [hps])⟩
  have hstrip : stripEnd l.body = l.body := by
    simpa using stripEnd_append [] (by simp) hbody
  have hstripped : strippedEnd l.body = [] := by
    simpa using strippedEnd_append [] (by simp) hbody (.inl rfl)
  have hsame : ∀ p ∈ l.pieces, withEnding rules p = p := by
    intro p hp
    exact withEnding_of_suppressed (hl.suppressed p hp)
  have hpieces : stripEnd l.body ++ l.ending.toList = l.pieces := by rw [hstrip]; rfl
  simp only [formatLine, hcontent, emptyLine, hany, Bool.not_true, Bool.and_false,
    Bool.false_eq_true, if_false, finishLine, hpieces, map_withEnding_eq_self hsame,
    stripDiagnostics, hstripped, List.nil_append,
    endingDiagnostics_eq_nil fun p hp => congrArg Piece.text (hsame p hp)]

/-- The state behind an empty line. -/
theorem state_formatLine_empty {kept : Bool} (st : LineState) {l : Line}
    (hl : IsGap rules kept l.pieces) :
    (formatLine rules st l).state.braces = st.braces ∧
      (formatLine rules st l).state.groups = st.groups ∧
        (formatLine rules st l).state.emptyLines = st.emptyLines + 1 := by
  have hcontent : l.content = [] := Line.content_eq_nil (isGap_append.1 hl).1.layout
  simp only [formatLine, hcontent, emptyLine]
  split
  · exact ⟨rfl, rfl, rfl⟩
  · exact ⟨rfl, rfl, rfl⟩

/-- An empty line that may be changed: its line break is left, unless it is one line too many. -/
theorem pieces_formatLine_empty (st : LineState) {l : Line} (hl : IsGap rules false l.pieces)
    (hending : ∀ p ∈ l.ending, p.isNewline = true) :
    (formatLine rules st l).pieces.map Piece.lexeme =
      if rules.maxEmptyLines < st.emptyLines + 1 then []
      else l.ending.toList.map fun _ => newline rules := by
  have hbody : IsGap rules false l.body := (isGap_append.1 hl).1
  have hcontent : l.content = [] := Line.content_eq_nil hbody.layout
  have hany : l.pieces.any Piece.suppressed = false := by
    rw [List.any_eq_false]
    intro p hp
    simp [hl.suppressed p hp]
  have hstrip : stripEnd l.body = [] := by
    simpa using stripEnd_append [] (by simp) hbody
  simp only [formatLine, hcontent, emptyLine, hany, Bool.not_false, Bool.and_true, decide_eq_true_eq]
  split
  · rfl
  · simp only [finishLine, hstrip, List.nil_append, List.map_map]
    apply List.map_congr_left
    intro p hp
    exact lexeme_withEnding_newline hl (p := p) (by simp [Line.pieces, hp])
      (hending p (Option.mem_toList.1 hp))

/-- Nothing is found at an empty line that is allowed and consists of the right line break. -/
theorem diagnostics_formatLine_empty {st : LineState} {l : Line} (hl : IsGap rules false l.pieces)
    (hbody : l.body = []) (hending : ∀ p ∈ l.ending, p.lexeme = newline rules)
    (hmax : st.emptyLines + 1 ≤ rules.maxEmptyLines) : (formatLine rules st l).diagnostics = [] := by
  have hcontent : l.content = [] := Line.content_eq_nil (by simp [hbody])
  have hsame : ∀ p ∈ l.ending.toList, (withEnding rules p).text = p.text := by
    intro p hp
    have hlex := hending p (Option.mem_toList.1 hp)
    have hnl : p.isNewline = true := by rw [← Piece.lexeme_isNewline, hlex]; rfl
    have hwith := lexeme_withEnding_newline hl (p := p) (by simp [Line.pieces, hp]) hnl
    exact congrArg Lexeme.text (hwith.trans hlex.symm)
  have hmax' : ¬ rules.maxEmptyLines < st.emptyLines + 1 := by omega
  simp [formatLine, hcontent, emptyLine, hmax', finishLine, hbody, stripEnd, strippedEnd,
    stripDiagnostics, endingDiagnostics_eq_nil hsame]

/-! ## Runs of empty lines -/

/-- What is left of a run of empty lines. -/
theorem formatLines_empty (st : LineState) {ls : List Line}
    (hgap : IsGap rules false (ls.flatMap Line.pieces)) (hls : ∀ l ∈ ls, l.IsClosed) :
    (formatLines rules st ls).1.map Piece.lexeme =
      List.replicate (min ls.length (rules.maxEmptyLines - st.emptyLines)) (newline rules) := by
  induction ls generalizing st with
  | nil => simp [formatLines]
  | cons l ls ih =>
    rw [List.flatMap_cons] at hgap
    obtain ⟨hl, hmore⟩ := isGap_append.1 hgap
    obtain ⟨nl, hnl, hnewline⟩ := (hls l (by simp)).ending
    have hpieces := pieces_formatLine_empty st hl (by simp [hnl, hnewline])
    obtain ⟨-, -, hcount⟩ := state_formatLine_empty st hl
    rw [formatLines_cons, List.map_append, hpieces, ih _ hmore fun l h => hls l (by simp [h]), hcount]
    split
    · rw [show rules.maxEmptyLines - st.emptyLines = 0 by omega,
        show rules.maxEmptyLines - (st.emptyLines + 1) = 0 by omega]
      simp
    · rw [hnl, List.length_cons]
      rw [show min (ls.length + 1) (rules.maxEmptyLines - st.emptyLines) =
          min ls.length (rules.maxEmptyLines - (st.emptyLines + 1)) + 1 by omega,
        List.replicate_succ]
      rfl

theorem state_formatLines_empty {kept : Bool} (st : LineState) {ls : List Line}
    (hgap : IsGap rules kept (ls.flatMap Line.pieces)) :
    (stateAfter rules st ls).braces = st.braces ∧ (stateAfter rules st ls).groups = st.groups ∧
      (stateAfter rules st ls).emptyLines = st.emptyLines + ls.length := by
  induction ls generalizing st with
  | nil => exact ⟨rfl, rfl, rfl⟩
  | cons l ls ih =>
    rw [List.flatMap_cons] at hgap
    obtain ⟨hl, hmore⟩ := isGap_append.1 hgap
    obtain ⟨h1, h2, h3⟩ := state_formatLine_empty st hl
    obtain ⟨ih1, ih2, ih3⟩ := ih (formatLine rules st l).state hmore
    refine ⟨ih1.trans h1, ih2.trans h2, ?_⟩
    rw [List.length_cons]
    exact ih3.trans (by omega)

/-- A run of empty lines that is left as it is. -/
theorem formatLines_kept (st : LineState) {ls : List Line}
    (hgap : IsGap rules true (ls.flatMap Line.pieces)) (hls : ∀ l ∈ ls, l.IsClosed) :
    formatLines rules st ls = (ls.flatMap Line.pieces, []) := by
  induction ls generalizing st with
  | nil => rfl
  | cons l ls ih =>
    rw [List.flatMap_cons] at hgap ⊢
    obtain ⟨hl, hmore⟩ := isGap_append.1 hgap
    have hne : l.pieces ≠ [] := by
      obtain ⟨nl, hnl, -⟩ := (hls l (by simp)).ending
      simp [Line.pieces, hnl]
    rw [formatLines_cons, formatLine_kept st hl hne, ih _ hmore fun l h => hls l (by simp [h])]
    rfl

/-- A line in front of others that is a line break only, since together they are line breaks only. -/
theorem body_eq_nil_of_replicate {l : Line} (hl : l.IsClosed) {ps : List Piece} {n : Nat}
    (h : (l.pieces ++ ps).map Piece.lexeme = List.replicate n (newline rules)) :
    l.body = [] ∧ (∀ p ∈ l.ending, p.lexeme = newline rules) ∧
      ∃ m, n = m + 1 ∧ ps.map Piece.lexeme = List.replicate m (newline rules) := by
  obtain ⟨nl, hnl, -⟩ := hl.ending
  have hmem {p : Piece} (hp : p ∈ l.pieces) : p.lexeme = newline rules := by
    apply List.eq_of_mem_replicate
    rw [← h]
    exact List.mem_map_of_mem (by simp [hp])
  have hbody : l.body = [] := by
    rw [List.eq_nil_iff_forall_not_mem]
    intro p hp
    have hp' := hl.body p hp
    rw [← Piece.lexeme_isNewline, hmem (by simp [Line.pieces, hp])] at hp'
    simp [Lexeme.isNewline, newline] at hp'
  rw [Line.pieces, hbody, hnl] at h
  cases n with
  | zero => simp at h
  | succ m =>
    rw [List.replicate_succ] at h
    refine ⟨hbody, ?_, m, rfl, (List.cons.inj h).2⟩
    intro p hp
    exact hmem (by simp [Line.pieces, Option.mem_toList.2 hp])

/-- Nothing is found at a run of empty lines that is as it should be. -/
theorem diagnostics_formatLines_empty {st : LineState} {ls : List Line}
    (hgap : IsGap rules false (ls.flatMap Line.pieces)) (hls : ∀ l ∈ ls, l.IsClosed)
    (h : (ls.flatMap Line.pieces).map Piece.lexeme =
      List.replicate (min ls.length (rules.maxEmptyLines - st.emptyLines)) (newline rules)) :
    (formatLines rules st ls).2 = [] := by
  induction ls generalizing st with
  | nil => rfl
  | cons l ls ih =>
    rw [List.flatMap_cons] at hgap h
    obtain ⟨hl, hmore⟩ := isGap_append.1 hgap
    obtain ⟨hbody, hending, m, hm, hrest⟩ := body_eq_nil_of_replicate (hls l (by simp)) h
    obtain ⟨-, -, hcount⟩ := state_formatLine_empty st hl
    rw [List.length_cons] at hm
    rw [show m = min ls.length (rules.maxEmptyLines - (st.emptyLines + 1)) by omega, ← hcount] at hrest
    rw [formatLines_cons, diagnostics_formatLine_empty hl hbody hending (by omega),
      ih hmore (fun l h => hls l (by simp [h])) hrest]
    rfl

/-! ## A line with content -/

/-- The start of a line up to a content piece: blanks, then pieces of which the first and the last are
content. -/
structure IsOpenLine (rules : RuleSet) (kept : Bool) (lead : List Piece) (first : Piece)
    (mid : List Piece) : Prop where
  gap : IsGap rules kept lead
  blanks : ∀ p ∈ lead, p.isNewline = false
  content : first.isLayout = false
  oneLine : ∀ p ∈ mid, p.isNewline = false
  last : ∀ p ∈ mid.getLast?, p.isLayout = false

/-- What the pass makes of the blanks before a line's first content piece. -/
def newLead (rules : RuleSet) (st : LineState) (lead : List Piece) (first : Piece) : List Lexeme :=
  if first.suppressed || lead.any Piece.suppressed then lead.map Piece.lexeme
  else blanks (indentFor rules st first).text

/-- The content pieces among some pieces. -/
def contentOf (ps : List Piece) : List Piece :=
  ps.filter fun p => !p.isLayout

section OpenLine

variable (st : LineState) {kept : Bool} {lead mid : List Piece} {first : Piece}

theorem takeWhile_lead (h : IsOpenLine rules kept lead first mid) (ps : List Piece) :
    (lead ++ first :: ps).takeWhile Piece.isLayout = lead := by
  rw [List.takeWhile_append_of_pos h.gap.layout, List.takeWhile_cons_of_neg (by simp [h.content]),
    List.append_nil]

theorem dropWhile_lead (h : IsOpenLine rules kept lead first mid) (ps : List Piece) :
    (lead ++ first :: ps).dropWhile Piece.isLayout = first :: ps := by
  rw [List.dropWhile_append_of_pos h.gap.layout, List.dropWhile_cons_of_neg (by simp [h.content])]

theorem indentDiffers_lead (h : IsOpenLine rules kept lead first mid) (indent : Text)
    (ps : List Piece) :
    indentDiffers indent (lead ++ first :: ps) =
      (!(first.suppressed || lead.any Piece.suppressed) && Piece.render lead ≠ indent) := by
  simp [indentDiffers, takeWhile_lead h, dropWhile_lead h]

/-- The pieces of the line with its blanks as the rules want them. -/
theorem exists_newLead (h : IsOpenLine rules kept lead first mid) (ps : List Piece) :
    ∃ lead', (if indentDiffers (indentFor rules st first).text (lead ++ first :: ps) = true
        then reindent (indentFor rules st first).text (lead ++ first :: ps)
        else lead ++ first :: ps) = lead' ++ first :: ps ∧
      lead'.map (withEnding rules) = lead' ∧
        Piece.render lead' = Lexer.textOf (newLead rules st lead first) := by
  rw [indentDiffers_lead h]
  have hlead : lead.map (withEnding rules) = lead := by
    apply map_withEnding_eq_self
    intro p hp
    exact withEnding_of_blanks (h.gap.layout p hp) (h.blanks p hp)
  by_cases hkept : (first.suppressed || lead.any Piece.suppressed) = true
  · refine ⟨lead, ?_, hlead, ?_⟩
    · simp [hkept]
    · rw [newLead, if_pos hkept, Piece.textOf_map_lexeme]
  · rw [newLead, if_neg hkept, textOf_blanks]
    by_cases hindent : Piece.render lead = (indentFor rules st first).text
    · exact ⟨lead, by simp [hindent], hlead, hindent⟩
    · by_cases hnil : (indentFor rules st first).text = []
      · refine ⟨[], ?_, rfl, by simp [hnil]⟩
        rw [hnil] at hindent
        simp [reindent, dropWhile_lead h, hkept, hnil, hindent]
      · refine ⟨[.blanks (indentFor rules st first).text], ?_, rfl, by simp [Piece.blanks]⟩
        simp [reindent, dropWhile_lead h, hkept, hnil, hindent]

theorem content_openLine (h : IsOpenLine rules kept lead first mid) {keptGap : Bool}
    {trail : List Piece} (htrail : IsGap rules keptGap trail) (ending : Option Piece) :
    (⟨lead ++ first :: (mid ++ trail), ending⟩ : Line).content = contentOf (first :: mid) := by
  have hlead : lead.filter (fun p => !p.isLayout) = [] := by
    rw [List.filter_eq_nil_iff]
    intro p hp
    simp [h.gap.layout p hp]
  have htrail' : trail.filter (fun p => !p.isLayout) = [] := by
    rw [List.filter_eq_nil_iff]
    intro p hp
    simp [htrail.layout p hp]
  simp only [Line.content, contentOf]
  rw [← List.cons_append, List.filter_append, List.filter_append, hlead, htrail', List.nil_append,
    List.append_nil]

theorem contentOf_openLine (h : IsOpenLine rules kept lead first mid) :
    contentOf (first :: mid) = first :: contentOf mid := by
  simp [contentOf, h.content]

theorem not_isStripped_last (h : IsOpenLine rules kept lead first mid) (xs : List Piece) :
    ∀ p ∈ (xs ++ first :: mid).getLast?, isStripped p = false := by
  intro p hp
  have hlayout : p.isLayout = false := by
    rw [List.getLast?_append] at hp
    cases hmid : mid with
    | nil =>
      rw [hmid] at hp
      simp only [List.getLast?_singleton, Option.some_or, Option.mem_some_iff] at hp
      rw [← hp]
      exact h.content
    | cons q qs =>
      rw [hmid, List.getLast?_cons_cons, ← hmid] at hp
      cases hlast : mid.getLast? with
      | none => simp [hmid] at hlast
      | some z =>
        rw [hlast, Option.some_or, Option.mem_some_iff] at hp
        rw [← hp]
        exact h.last z hlast
  simp [isStripped, hlayout]

/-- The text of a line with content. -/
theorem render_formatLine (h : IsOpenLine rules kept lead first mid) {keptGap : Bool}
    {trail : List Piece} {ending : Option Piece}
    (htrail : IsGap rules keptGap (trail ++ ending.toList))
    (hblanks : ∀ p ∈ trail, p.isNewline = false) :
    Piece.render (formatLine rules st ⟨lead ++ first :: (mid ++ trail), ending⟩).pieces =
      Lexer.textOf (newLead rules st lead first) ++
        (Piece.render ((first :: mid).map (withEnding rules)) ++
          ((if keptGap then Piece.render trail else []) ++
            Piece.render (ending.toList.map (withEnding rules)))) := by
  have hgap := (isGap_append.1 htrail).1
  obtain ⟨lead', hlead', hsame, hrender⟩ := exists_newLead st h (mid ++ trail)
  have htrail' : (if keptGap then trail else []).map (withEnding rules) =
      if keptGap then trail else [] := by
    apply map_withEnding_eq_self
    intro p hp
    split at hp
    · exact withEnding_of_blanks (hgap.layout p hp) (hblanks p hp)
    · simp at hp
  have hstrip : stripEnd (lead' ++ first :: (mid ++ trail)) =
      lead' ++ first :: mid ++ if keptGap then trail else [] := by
    rw [← stripEnd_append _ (not_isStripped_last h lead') hgap]
    simp
  have hcontent := content_openLine h hgap ending
  rw [contentOf_openLine h] at hcontent
  simp only [formatLine, hcontent, contentLine, finishLine, hlead', hstrip]
  rw [List.map_append, List.map_append, List.map_append, hsame, htrail', Piece.render_append,
    Piece.render_append, Piece.render_append, hrender]
  cases keptGap <;> simp

/-- The state behind a line with content. -/
theorem state_formatLine (h : IsOpenLine rules kept lead first mid) {keptGap : Bool}
    {trail : List Piece} (htrail : IsGap rules keptGap trail) (ending : Option Piece) :
    (formatLine rules st ⟨lead ++ first :: (mid ++ trail), ending⟩).state.braces =
        bracesAfter st.braces (contentOf (first :: mid)) ∧
      (formatLine rules st ⟨lead ++ first :: (mid ++ trail), ending⟩).state.groups =
          (indentFor rules st first).groups ∧
        (formatLine rules st ⟨lead ++ first :: (mid ++ trail), ending⟩).state.emptyLines = 0 := by
  have hcontent := content_openLine h htrail ending
  have hcons := contentOf_openLine h
  rw [hcons] at hcontent ⊢
  simp [formatLine, hcontent, contentLine, finishLine]

/-- Nothing is found at a line with content that is as it should be. -/
theorem diagnostics_formatLine (h : IsOpenLine rules kept lead first mid) {keptGap : Bool}
    {trail : List Piece} {ending : Option Piece} (htrail : IsGap rules keptGap trail)
    (hlead : newLead rules st lead first = lead.map Piece.lexeme)
    (hitems : ∀ p ∈ first :: mid, (withEnding rules p).text = p.text)
    (hgap : keptGap = true ∨ trail = [])
    (hending : ∀ p ∈ ending, (withEnding rules p).text = p.text) :
    (formatLine rules st ⟨lead ++ first :: (mid ++ trail), ending⟩).diagnostics = [] := by
  have hdiffers (ps : List Piece) :
      indentDiffers (indentFor rules st first).text (lead ++ first :: ps) = false := by
    rw [indentDiffers_lead h]
    by_cases hkept : (first.suppressed || lead.any Piece.suppressed) = true
    · simp [hkept]
    · rw [newLead, if_neg hkept] at hlead
      have := congrArg Lexer.textOf hlead
      rw [textOf_blanks, Piece.textOf_map_lexeme] at this
      simp [this]
  have hcontent := content_openLine h htrail ending
  rw [contentOf_openLine h] at hcontent
  have hsplit : lead ++ first :: (mid ++ trail) = (lead ++ first :: mid) ++ trail := by simp
  have hstripped : strippedEnd (lead ++ first :: (mid ++ trail)) = [] := by
    rw [hsplit]
    exact strippedEnd_append _ (not_isStripped_last h lead) htrail hgap
  have hstrip : stripEnd (lead ++ first :: (mid ++ trail)) = lead ++ first :: (mid ++ trail) := by
    rw [hsplit, stripEnd_append _ (not_isStripped_last h lead) htrail]
    rcases hgap with rfl | rfl
    · simp
    · simp
  have hsame : ∀ p ∈ lead ++ first :: (mid ++ trail) ++ ending.toList,
      (withEnding rules p).text = p.text := by
    intro p hp
    simp only [List.mem_append, List.mem_cons, Option.mem_toList] at hp
    rcases hp with (hp | hp | hp | hp) | hp
    · rw [withEnding_of_blanks (h.gap.layout p hp) (h.blanks p hp)]
    · exact hitems p (by simp [hp])
    · exact hitems p (by simp [hp])
    · rcases hgap with rfl | rfl
      · rw [withEnding_of_suppressed (htrail.suppressed p hp)]
      · simp at hp
    · exact hending p hp
  simp only [formatLine, hcontent, contentLine, hdiffers, finishLine, hstrip, stripDiagnostics,
    hstripped, Bool.false_eq_true, if_false, List.nil_append]
  exact endingDiagnostics_eq_nil hsame

end OpenLine

end Layout

end ShaderStyle
