import ShaderStyle.Proofs.Layout.Lines

/-!
# The pass over the lines

What the last pass makes of slots whose braces and brackets are in place. The pass sees lines, a slot
sees the gap before one item, and a gap may hold the end of one line, some empty lines and the start of
another. So the text of the lines is computed slot by slot (`linesText`), and shown to be what comes
out of the lines by induction over the slots with an open line before them (`comesOut`). Behind the
open line there are blanks only (`comesOut_blanks`), line breaks and then the end (`comesOut_lines`), a
slot that goes on with it (`ComesOut.of_snoc`), or one that opens the next line (`ComesOut.of_next`).
-/

namespace ShaderStyle.Layout

variable {rules : RuleSet}

/-! ## All lines, slot by slot -/

/-- What the pass makes of the gap of a slot. `start` says that nothing stands before it, and `st`
holds the braces and conditional groups that are open there. -/
def lineGap (rules : RuleSet) (start : Bool) (st : LineState) (s : Slot) : List Lexeme :=
  let g := s.gap.map Piece.lexeme
  if s.gap.any Piece.suppressed then g
  else if start || breaks g ≠ 0 then
    newBreaks rules start g ++
      if s.item.suppressed then lastBlanks g else blanks (indentFor rules st s.item).text
  else g

/-- What the pass makes of the layout behind the last slot. -/
def tailGap (rules : RuleSet) (start : Bool) (tail : List Piece) : List Lexeme :=
  if tail.any Piece.suppressed then tail.map Piece.lexeme
  else newBreaks rules start (tail.map Piece.lexeme)

/-- The text that the pass makes of some slots and the layout behind them. -/
def linesText (rules : RuleSet) (start : Bool) (braces groups : Nat) : List Slot → List Piece → Text
  | [], tail => Lexer.textOf (tailGap rules start tail)
  | s :: more, tail =>
    Lexer.textOf (lineGap rules start { braces, groups } s) ++ ((withEnding rules s.item).text ++
      linesText rules false (bracesAfter braces [s.item])
        (indentFor rules { braces, groups } s.item).groups more tail)

/-- The pass has nothing to change. -/
def LinesSettled (rules : RuleSet) (start : Bool) (braces groups : Nat) :
    List Slot → List Piece → Prop
  | [], tail => tailGap rules start tail = tail.map Piece.lexeme
  | s :: more, tail =>
    lineGap rules start { braces, groups } s = s.gap.map Piece.lexeme ∧
      (withEnding rules s.item).text = s.item.text ∧
        LinesSettled rules false (bracesAfter braces [s.item])
          (indentFor rules { braces, groups } s.item).groups more tail

/-- A slot as the pass meets it: a gap that is left as it is only before an item that is, and an item
that is a directive only at the start of a line. -/
structure IsSlot (rules : RuleSet) (start : Bool) (s : Slot) : Prop where
  gap : ∃ kept, IsGap rules kept s.gap ∧ (kept = true → s.item.suppressed = true)
  item : s.item.isLayout = false
  directive : ∀ name, s.item.kind = .directive name →
    start = true ∨ ∃ p ∈ s.gap, p.isNewline = true

theorem not_isNewline_of_content {p : Piece} (h : p.isLayout = false) : p.isNewline = false := by
  simp only [Piece.isLayout] at h
  cases hk : p.kind <;> simp [hk, TokenKind.isLayout] at h <;> simp [Piece.isNewline, hk]

section Lines

variable {ls : List Line} {last : List Piece}

theorem breaks_closed (hls : ∀ l ∈ ls, l.IsClosed) (hlast : ∀ p ∈ last, p.isNewline = false) :
    breaks ((ls.flatMap Line.pieces ++ last).map Piece.lexeme) = ls.length := by
  have hnone {ps : List Piece} (h : ∀ p ∈ ps, p.isNewline = false) :
      breaks (ps.map Piece.lexeme) = 0 := by
    rw [breaks, List.countP_map, List.countP_eq_zero]
    intro p hp
    simp [h p hp]
  induction ls with
  | nil => simpa using hnone hlast
  | cons l ls ih =>
    obtain ⟨nl, hnl, hnewline⟩ := (hls l (by simp)).ending
    have ih := ih fun l hl => hls l (by simp [hl])
    have hbody := hnone (hls l (by simp)).body
    unfold breaks at ih hbody ⊢
    rw [List.flatMap_cons, Line.pieces, hnl, List.append_assoc, List.append_assoc, List.map_append,
      List.countP_append, hbody, List.map_append, List.countP_append, ih]
    simp [hnewline, Nat.add_comm]

theorem getLast?_closed (hls : ∀ l ∈ ls, l.IsClosed) :
    ∀ l ∈ ((ls.flatMap Line.pieces).map Piece.lexeme).getLast?, l.isNewline = true := by
  intro l hl
  rcases List.eq_nil_or_concat ls with rfl | ⟨init, l', rfl⟩
  · simp at hl
  · obtain ⟨nl, hnl, hnewline⟩ := (hls l' (by simp)).ending
    have : l = nl.lexeme := by simpa [Line.pieces, hnl] using hl.symm
    rw [this, Piece.lexeme_isNewline, hnewline]

theorem not_isNewline_map {last : List Piece} (hlast : ∀ p ∈ last, p.isNewline = false) :
    ∀ l ∈ last.map Piece.lexeme, l.isNewline = false := by
  intro l hl
  obtain ⟨p, hp, rfl⟩ := List.mem_map.1 hl
  exact hlast p hp

theorem lastBlanks_closed (hls : ∀ l ∈ ls, l.IsClosed) (hlast : ∀ p ∈ last, p.isNewline = false) :
    lastBlanks ((ls.flatMap Line.pieces ++ last).map Piece.lexeme) = last.map Piece.lexeme := by
  rw [List.map_append]
  exact lastBlanks_append (getLast?_closed hls) (not_isNewline_map hlast)

theorem not_isNewline_newLead {st : LineState} {item : Piece}
    (hlast : ∀ p ∈ last, p.isNewline = false) :
    ∀ l ∈ newLead rules st last item, l.isNewline = false := by
  unfold newLead
  split
  · exact not_isNewline_map hlast
  · exact not_isNewline_blanks

theorem any_suppressed {kept : Bool} {g : List Piece} (hg : IsGap rules kept g) (hne : g ≠ []) :
    g.any Piece.suppressed = kept := by
  obtain ⟨p, ps, rfl⟩ := List.exists_cons_of_ne_nil hne
  have hp : p.suppressed = kept := hg.suppressed p (by simp)
  cases kept with
  | true => simp [hp]
  | false =>
    rw [List.any_eq_false]
    intro q hq
    simp [hg.suppressed q hq]

theorem any_suppressed_false {g : List Piece} (hg : IsGap rules false g) :
    g.any Piece.suppressed = false := by
  cases g with
  | nil => rfl
  | cons p ps => exact any_suppressed hg (by simp)

/-- A gap that is left as it is. -/
theorem lineGap_kept (start : Bool) (st : LineState) {s : Slot} (hg : IsGap rules true s.gap)
    (hitem : s.item.suppressed = true) : lineGap rules start st s = s.gap.map Piece.lexeme := by
  obtain ⟨g, item⟩ := s
  simp only at hg hitem
  cases g with
  | nil =>
    cases start <;> simp [lineGap, hitem, newBreaks, breaks, breaksLeft, lastBlanks]
  | cons p ps => simp [lineGap, any_suppressed hg (by simp)]

/-- A gap that starts a line: line breaks, then the blanks of the line. -/
theorem lineGap_closed (start : Bool) (st : LineState) (item : Piece)
    (hls : ∀ l ∈ ls, l.IsClosed) (hlast : ∀ p ∈ last, p.isNewline = false)
    (hgap : IsGap rules false (ls.flatMap Line.pieces ++ last)) (hstart : start = true ∨ ls ≠ []) :
    lineGap rules start st ⟨ls.flatMap Line.pieces ++ last, item⟩ =
      List.replicate (breaksLeft rules start ls.length) (newline rules) ++
        newLead rules st last item := by
  have hlines : (start || decide (ls.length ≠ 0)) = true := by
    rcases hstart with rfl | hne
    · rfl
    · simp [hne]
  simp only [lineGap, any_suppressed_false hgap, Bool.false_eq_true, if_false,
    breaks_closed hls hlast, hlines, if_true, newBreaks, lastBlanks_closed hls hlast, newLead,
    any_suppressed_false (isGap_append.1 hgap).2, Bool.or_false]

/-- A gap within a line. -/
theorem lineGap_blanks {st : LineState} {s : Slot} (h : ∀ p ∈ s.gap, p.isNewline = false) :
    lineGap rules false st s = s.gap.map Piece.lexeme := by
  have hbreaks : breaks (s.gap.map Piece.lexeme) = 0 := by
    have hnone : ∀ l ∈ ([] : List Line), l.IsClosed := by simp
    simpa using breaks_closed hnone h
  simp [lineGap, hbreaks]

theorem tailGap_kept {start : Bool} {tail : List Piece} (hg : IsGap rules true tail) :
    tailGap rules start tail = tail.map Piece.lexeme := by
  cases tail with
  | nil => cases start <;> simp [tailGap, newBreaks, breaks, breaksLeft]
  | cons p ps => simp [tailGap, any_suppressed hg (by simp)]

theorem tailGap_closed (start : Bool) (hls : ∀ l ∈ ls, l.IsClosed)
    (hlast : ∀ p ∈ last, p.isNewline = false)
    (hgap : IsGap rules false (ls.flatMap Line.pieces ++ last)) :
    tailGap rules start (ls.flatMap Line.pieces ++ last) =
      List.replicate (breaksLeft rules start ls.length) (newline rules) := by
  simp only [tailGap, any_suppressed_false hgap, Bool.false_eq_true, if_false, newBreaks,
    breaks_closed hls hlast]

/-! ## Empty lines in a gap -/

/-- What is left of the lines that end in a gap. -/
def newRun (rules : RuleSet) (kept start : Bool) (ls : List Line) : List Lexeme :=
  if kept then (ls.flatMap Line.pieces).map Piece.lexeme
  else List.replicate (breaksLeft rules start ls.length) (newline rules)

/-- A gap that starts a line: what is left of the lines in it, then the blanks of the line. -/
theorem lineGap_lines {kept start : Bool} (st : LineState) {item : Piece}
    (hls : ∀ l ∈ ls, l.IsClosed) (hlast : ∀ p ∈ last, p.isNewline = false)
    (hgap : IsGap rules kept (ls.flatMap Line.pieces ++ last))
    (hkept : kept = true → item.suppressed = true) (hstart : start = true ∨ ls ≠ []) :
    lineGap rules start st ⟨ls.flatMap Line.pieces ++ last, item⟩ =
      newRun rules kept start ls ++ newLead rules st last item := by
  cases kept with
  | true =>
    rw [lineGap_kept start st hgap (hkept rfl)]
    simp [newRun, newLead, hkept rfl]
  | false => exact lineGap_closed start st item hls hlast hgap hstart

/-- If such a gap has nothing to change, neither the lines in it nor the blanks have. -/
theorem settled_of_lineGap {kept start : Bool} {st : LineState} {item : Piece}
    (hls : ∀ l ∈ ls, l.IsClosed) (hlast : ∀ p ∈ last, p.isNewline = false)
    (hgap : IsGap rules kept (ls.flatMap Line.pieces ++ last))
    (hkept : kept = true → item.suppressed = true) (hstart : start = true ∨ ls ≠ [])
    (h : lineGap rules start st ⟨ls.flatMap Line.pieces ++ last, item⟩ =
      (ls.flatMap Line.pieces ++ last).map Piece.lexeme) :
    newRun rules kept start ls = (ls.flatMap Line.pieces).map Piece.lexeme ∧
      newLead rules st last item = last.map Piece.lexeme := by
  cases kept with
  | true => exact ⟨rfl, by simp [newLead, hkept rfl]⟩
  | false =>
    rw [lineGap_lines st hls hlast hgap hkept hstart, List.map_append] at h
    exact replicate_append_inj (getLast?_closed hls) (not_isNewline_newLead hlast)
      (not_isNewline_map hlast) h

theorem tailGap_lines {kept : Bool} (start : Bool) (hls : ∀ l ∈ ls, l.IsClosed)
    (hlast : ∀ p ∈ last, p.isNewline = false)
    (hgap : IsGap rules kept (ls.flatMap Line.pieces ++ last)) :
    tailGap rules start (ls.flatMap Line.pieces ++ last) =
      newRun rules kept start ls ++ if kept then last.map Piece.lexeme else [] := by
  cases kept with
  | true =>
    rw [tailGap_kept hgap]
    simp [newRun]
  | false =>
    rw [tailGap_closed start hls hlast hgap]
    simp [newRun]

/-- If the layout behind the last slot has nothing to change, the lines in it stay, and the blanks at the
very end are left as they are or there are none. -/
theorem settled_of_tailGap {kept start : Bool} (hls : ∀ l ∈ ls, l.IsClosed)
    (hlast : ∀ p ∈ last, p.isNewline = false)
    (hgap : IsGap rules kept (ls.flatMap Line.pieces ++ last))
    (h : tailGap rules start (ls.flatMap Line.pieces ++ last) =
      (ls.flatMap Line.pieces ++ last).map Piece.lexeme) :
    newRun rules kept start ls = (ls.flatMap Line.pieces).map Piece.lexeme ∧
      (kept = true ∨ last = []) := by
  cases kept with
  | true => exact ⟨rfl, .inl rfl⟩
  | false =>
    rw [tailGap_lines start hls hlast hgap, List.map_append] at h
    have hboth := replicate_append_inj (getLast?_closed hls) (by simp) (not_isNewline_map hlast) h
    exact ⟨hboth.1, .inr (List.map_eq_nil_iff.1 hboth.2.symm)⟩

/-- A run of empty lines at the very start. -/
theorem formatLines_leading {kept : Bool} (hgap : IsGap rules kept (ls.flatMap Line.pieces))
    (hls : ∀ l ∈ ls, l.IsClosed) :
    Piece.render (formatLines rules {} ls).1 = Lexer.textOf (newRun rules kept true ls) ∧
      (newRun rules kept true ls = (ls.flatMap Line.pieces).map Piece.lexeme →
        (formatLines rules {} ls).2 = []) := by
  cases kept with
  | true =>
    rw [formatLines_kept _ hgap hls]
    exact ⟨(Piece.textOf_map_lexeme _).symm, fun _ => rfl⟩
  | false =>
    have hrun : newRun rules false true ls =
        List.replicate (min ls.length (rules.maxEmptyLines - ({} : LineState).emptyLines))
          (newline rules) := by
      simp [newRun, breaksLeft]
    rw [hrun]
    constructor
    · rw [← formatLines_empty {} hgap hls, Piece.textOf_map_lexeme]
    · intro hsettled
      exact diagnostics_formatLines_empty hgap hls hsettled.symm

/-- What is left behind a line with content: its own end `l`, then the empty lines `ls`. -/
theorem textOf_newRun {kept : Bool} {st : LineState} (hst : st.emptyLines = 0) {l : Line}
    (hls : ∀ m ∈ l :: ls, m.IsClosed) (hgap : IsGap rules kept ((l :: ls).flatMap Line.pieces)) :
    Lexer.textOf (newRun rules kept false (l :: ls)) =
      (if kept then Piece.render l.body else []) ++
        (Piece.render (l.ending.toList.map (withEnding rules)) ++
          Piece.render (formatLines rules st ls).1) := by
  obtain ⟨nl, hnl, hnewline⟩ := (hls l (by simp)).ending
  have hls' : ∀ m ∈ ls, m.IsClosed := fun m hm => hls m (by simp [hm])
  rw [List.flatMap_cons] at hgap
  obtain ⟨hfirst, hempty⟩ := isGap_append.1 hgap
  have hmem : nl ∈ l.pieces := by simp [Line.pieces, hnl]
  cases kept with
  | true =>
    rw [newRun, if_pos rfl, if_pos rfl, Piece.textOf_map_lexeme, formatLines_kept _ hempty hls',
      List.flatMap_cons, Piece.render_append, Line.pieces, Piece.render_append, List.append_assoc, hnl]
    simp [withEnding_of_suppressed (hfirst.suppressed nl hmem)]
  | false =>
    have hnl' : (withEnding rules nl).text = rules.lineEnding.text :=
      congrArg Lexeme.text (lexeme_withEnding_newline hfirst hmem hnewline)
    have hleft : breaksLeft rules false (ls.length + 1) =
        min ls.length (rules.maxEmptyLines - st.emptyLines) + 1 := by
      simp [breaksLeft, hst, Nat.add_comm]
    rw [← Piece.textOf_map_lexeme (formatLines rules st ls).1, formatLines_empty st hempty hls', newRun,
      if_neg (by simp), if_neg (by simp), List.length_cons, hleft, List.replicate_succ, hnl]
    simp [hnl', newline]

/-- Nothing is found behind a line with content if its end and the empty lines stay. -/
theorem quiet_of_newRun {kept : Bool} {st : LineState} (hst : st.emptyLines = 0) {l : Line}
    (hls : ∀ m ∈ l :: ls, m.IsClosed) (hgap : IsGap rules kept ((l :: ls).flatMap Line.pieces))
    (h : newRun rules kept false (l :: ls) = ((l :: ls).flatMap Line.pieces).map Piece.lexeme) :
    (kept = true ∨ l.body = []) ∧ (∀ p ∈ l.ending, (withEnding rules p).text = p.text) ∧
      (formatLines rules st ls).2 = [] := by
  have hl := hls l (by simp)
  have hls' : ∀ m ∈ ls, m.IsClosed := fun m hm => hls m (by simp [hm])
  rw [List.flatMap_cons] at hgap
  obtain ⟨hfirst, hempty⟩ := isGap_append.1 hgap
  have hmem {p : Piece} (hp : p ∈ l.ending) : p ∈ l.pieces := by simp [Line.pieces, Option.mem_def.1 hp]
  cases kept with
  | true =>
    refine ⟨.inl rfl, ?_, by rw [formatLines_kept _ hempty hls']⟩
    intro p hp
    rw [withEnding_of_suppressed (hfirst.suppressed p (hmem hp))]
  | false =>
    rw [List.flatMap_cons] at h
    obtain ⟨hbody, hending, m, hm, hrest⟩ := body_eq_nil_of_replicate hl h.symm
    rw [List.length_cons, breaksLeft, if_neg (by simp), if_neg (by omega)] at hm
    rw [show m = min ls.length (rules.maxEmptyLines - st.emptyLines) by omega] at hrest
    refine ⟨.inr hbody, ?_, diagnostics_formatLines_empty hempty hls' hrest⟩
    intro p hp
    have hnewline : p.isNewline = true := by
      rw [← Piece.lexeme_isNewline, hending p hp]
      rfl
    have hwith := lexeme_withEnding_newline hfirst (hmem hp) hnewline
    exact congrArg Lexeme.text (hwith.trans (hending p hp).symm)

/-- Blanks at the very end go away unless they are left as they are. -/
theorem formatLines_last {kept : Bool} (st : LineState) (hgap : IsGap rules kept last)
    (hlast : ∀ p ∈ last, p.isNewline = false) :
    Piece.render (formatLines rules st (Line.split last)).1 = (if kept then Piece.render last else []) ∧
      (kept = true ∨ last = [] → (formatLines rules st (Line.split last)).2 = []) := by
  cases hcases : last with
  | nil => cases kept <;> simp [Line.split, formatLines]
  | cons p ps =>
    have hne : last ≠ [] := by simp [hcases]
    rw [← hcases, Line.split_of_no_newline hne hlast, formatLines_cons]
    have hline : IsGap rules kept (⟨last, none⟩ : Line).pieces := by simpa [Line.pieces] using hgap
    cases kept with
    | true =>
      rw [formatLine_kept _ hline (by simpa [Line.pieces] using hne)]
      simp [formatLines, Line.pieces]
    | false =>
      have hpieces := pieces_formatLine_empty st hline (by simp)
      simp only [Option.toList_none, List.map_nil, ite_self, List.map_eq_nil_iff] at hpieces
      simp [hpieces, formatLines, hne]

/-- An open line that is ended by a gap with line breaks, `l` and then the empty lines `ls`, before
other pieces. -/
theorem formatLines_ended (st : LineState) {kept keptGap : Bool} {lead mid : List Piece}
    {first : Piece} (h : IsOpenLine rules kept lead first mid) {l : Line}
    (hls : ∀ m ∈ l :: ls, m.IsClosed) (hgap : IsGap rules keptGap ((l :: ls).flatMap Line.pieces))
    (rest : List Piece) :
    ∃ st' : LineState, st'.braces = bracesAfter st.braces (contentOf (first :: mid)) ∧
      st'.groups = (indentFor rules st first).groups ∧
        Piece.render (formatLines rules st (Line.split
            (lead ++ first :: (mid ++ ((l :: ls).flatMap Line.pieces ++ rest))))).1 =
          Lexer.textOf (newLead rules st lead first) ++
            (Piece.render ((first :: mid).map (withEnding rules)) ++
              (Lexer.textOf (newRun rules keptGap false (l :: ls)) ++
                Piece.render (formatLines rules st' (Line.split rest)).1)) ∧
        (newLead rules st lead first = lead.map Piece.lexeme →
          (∀ p ∈ first :: mid, (withEnding rules p).text = p.text) →
          newRun rules keptGap false (l :: ls) = ((l :: ls).flatMap Line.pieces).map Piece.lexeme →
          (formatLines rules st (Line.split
            (lead ++ first :: (mid ++ ((l :: ls).flatMap Line.pieces ++ rest))))).2 =
            (formatLines rules st' (Line.split rest)).2) := by
  have hl := hls l (by simp)
  have hls' : ∀ m ∈ ls, m.IsClosed := fun m hm => hls m (by simp [hm])
  obtain ⟨hfirst, hempty⟩ := isGap_append.1 (by simpa only [List.flatMap_cons] using hgap)
  have hbody : IsGap rules keptGap l.body := (isGap_append.1 hfirst).1
  -- the lines are the open one with the blanks at its end, the empty ones, and those of the rest
  have hclosed : (⟨lead ++ first :: (mid ++ l.body), l.ending⟩ : Line).IsClosed := by
    refine ⟨?_, hl.ending⟩
    intro p hp
    simp only [List.mem_append, List.mem_cons] at hp
    rcases hp with hp | rfl | hp | hp
    · exact h.blanks p hp
    · exact not_isNewline_of_content h.content
    · exact h.oneLine p hp
    · exact hl.body p hp
  have hsplit : Line.split (lead ++ first :: (mid ++ ((l :: ls).flatMap Line.pieces ++ rest))) =
      ⟨lead ++ first :: (mid ++ l.body), l.ending⟩ :: (ls ++ Line.split rest) := by
    rw [← Line.split_flatMap_append hls', ← Line.split_append hclosed]
    simp [Line.pieces]
  obtain ⟨hbraces, hgroups, hcount⟩ := state_formatLine st h hbody l.ending
  obtain ⟨hbraces', hgroups', -⟩ := state_formatLines_empty
    (formatLine rules st ⟨lead ++ first :: (mid ++ l.body), l.ending⟩).state hempty
  refine ⟨_, hbraces'.trans hbraces, hgroups'.trans hgroups, ?_, ?_⟩
  · rw [hsplit, formatLines_cons, formatLines_append, Piece.render_append, Piece.render_append,
      render_formatLine st h hfirst hl.body, textOf_newRun hcount hls hgap]
    simp only [List.append_assoc]
  · intro hlead hitems hrun
    obtain ⟨hblanks, hending, hquiet⟩ := quiet_of_newRun hcount hls hgap hrun
    rw [hsplit, formatLines_cons, formatLines_append,
      diagnostics_formatLine _ h hbody hlead hitems hblanks hending, hquiet]
    rfl

end Lines

theorem bracesAfter_append (b : Nat) (ps qs : List Piece) :
    bracesAfter b (ps ++ qs) = bracesAfter (bracesAfter b ps) qs := by
  simp [bracesAfter]

/-- How a line is indented depends on the braces and the groups that are open. -/
theorem indentFor_congr (rules : RuleSet) {st st' : LineState} (hbraces : st.braces = st'.braces)
    (hgroups : st.groups = st'.groups) (p : Piece) : indentFor rules st p = indentFor rules st' p := by
  simp only [indentFor, hbraces, hgroups]

theorem newLead_congr (rules : RuleSet) {st st' : LineState} (hbraces : st.braces = st'.braces)
    (hgroups : st.groups = st'.groups) (lead : List Piece) (p : Piece) :
    newLead rules st lead p = newLead rules st' lead p := by
  simp only [newLead, indentFor_congr rules hbraces hgroups]

theorem groups_indentFor {st : LineState} {p : Piece} (h : ∀ name, p.kind ≠ .directive name) :
    (indentFor rules st p).groups = st.groups := by
  unfold indentFor
  split
  · rename_i name hname
    exact absurd hname (h name)
  · rfl

theorem IsOpenLine.snoc {kept : Bool} {lead mid : List Piece} {first : Piece}
    (h : IsOpenLine rules kept lead first mid) {s : Slot} (hs : s.item.isLayout = false)
    (hgap : ∀ p ∈ s.gap, p.isNewline = false) :
    IsOpenLine rules kept lead first (mid ++ s.pieces) := by
  refine ⟨h.gap, h.blanks, h.content, ?_, ?_⟩
  · intro p hp
    simp only [Slot.pieces, List.mem_append, List.mem_singleton] at hp
    rcases hp with hp | hp | rfl
    · exact h.oneLine p hp
    · exact hgap p hp
    · exact not_isNewline_of_content hs
  · intro p hp
    simp only [Slot.pieces, ← List.append_assoc, List.getLast?_concat, Option.mem_some_iff] at hp
    rw [← hp]
    exact hs

theorem contentOf_snoc {mid : List Piece} {first : Piece} {s : Slot} {kept : Bool}
    (hgap : IsGap rules kept s.gap) (hs : s.item.isLayout = false) :
    contentOf (first :: (mid ++ s.pieces)) = contentOf (first :: mid) ++ [s.item] := by
  have hnil : s.gap.filter (fun p => !p.isLayout) = [] := by
    rw [List.filter_eq_nil_iff]
    intro p hp
    simp [hgap.layout p hp]
  rw [contentOf, contentOf, ← List.cons_append, List.filter_append, Slot.pieces, List.filter_append,
    hnil]
  simp [hs]

/-! ## An open line and what follows it -/

/-- What comes of an open line, some slots and the layout behind them: the open line has its blanks as
the rules want them, the rest comes out slot by slot, and nothing is found if nothing changes. -/
structure ComesOut (rules : RuleSet) (st : LineState) (lead : List Piece) (first : Piece)
    (mid : List Piece) (slots : List Slot) (tail : List Piece) : Prop where
  text : Piece.render (formatLines rules st (Line.split
      (lead ++ first :: (mid ++ (slots.flatMap Slot.pieces ++ tail))))).1 =
    Lexer.textOf (newLead rules st lead first) ++
      (Piece.render ((first :: mid).map (withEnding rules)) ++
        linesText rules false (bracesAfter st.braces (contentOf (first :: mid)))
          (indentFor rules st first).groups slots tail)
  quiet : newLead rules st lead first = lead.map Piece.lexeme →
    (∀ p ∈ first :: mid, (withEnding rules p).text = p.text) →
    LinesSettled rules false (bracesAfter st.braces (contentOf (first :: mid)))
      (indentFor rules st first).groups slots tail →
    (formatLines rules st (Line.split
      (lead ++ first :: (mid ++ (slots.flatMap Slot.pieces ++ tail))))).2 = []

section ComesOut

variable {st : LineState} {kept : Bool} {lead mid tail last : List Piece} {first : Piece}
  {slots : List Slot} {ls : List Line}

/-- Behind the open line there is nothing but blanks. -/
theorem comesOut_blanks (h : IsOpenLine rules kept lead first mid) {keptTail : Bool}
    (htail : IsGap rules keptTail tail) (hblanks : ∀ p ∈ tail, p.isNewline = false) :
    ComesOut rules st lead first mid [] tail := by
  have hline : ∀ p ∈ lead ++ first :: (mid ++ tail), p.isNewline = false := by
    intro p hp
    simp only [List.mem_append, List.mem_cons] at hp
    rcases hp with hp | rfl | hp | hp
    · exact h.blanks p hp
    · exact not_isNewline_of_content h.content
    · exact h.oneLine p hp
    · exact hblanks p hp
  have hsplit : Line.split (lead ++ first :: (mid ++ tail)) =
      [⟨lead ++ first :: (mid ++ tail), none⟩] := Line.split_of_no_newline (by simp) hline
  have hnone : ∀ l ∈ ([] : List Line), l.IsClosed := by simp
  constructor
  · have hgap : IsGap rules keptTail (tail ++ (none : Option Piece).toList) := by simpa using htail
    have hrun : newRun rules keptTail false [] = [] := by
      cases keptTail <;> simp [newRun, breaksLeft]
    have htext : tailGap rules false tail =
        newRun rules keptTail false [] ++ if keptTail then tail.map Piece.lexeme else [] :=
      tailGap_lines false hnone hblanks htail
    rw [List.flatMap_nil, List.nil_append, hsplit, formatLines_cons, Piece.render_append,
      render_formatLine _ h hgap hblanks, linesText, htext, hrun]
    cases keptTail <;> simp [formatLines, Piece.textOf_map_lexeme]
  · intro hlead hitems hsettled
    have hright := (settled_of_tailGap hnone hblanks htail hsettled).2
    rw [List.flatMap_nil, List.nil_append, hsplit, formatLines_cons,
      diagnostics_formatLine _ h htail hlead hitems hright (by simp)]
    rfl

/-- Behind the open line there are line breaks, and no slot. -/
theorem comesOut_lines (h : IsOpenLine rules kept lead first mid) {keptTail : Bool} {l : Line}
    (hls : ∀ m ∈ l :: ls, m.IsClosed) (hlast : ∀ p ∈ last, p.isNewline = false)
    (htail : IsGap rules keptTail ((l :: ls).flatMap Line.pieces ++ last)) :
    ComesOut rules st lead first mid [] ((l :: ls).flatMap Line.pieces ++ last) := by
  obtain ⟨hgap, hgapLast⟩ := isGap_append.1 htail
  obtain ⟨st', -, -, hrender, hquiet⟩ := formatLines_ended st h hls hgap last
  obtain ⟨hlastRender, hlastQuiet⟩ := formatLines_last st' hgapLast hlast
  constructor
  · rw [List.flatMap_nil, List.nil_append, hrender, hlastRender, linesText,
      tailGap_lines false hls hlast htail, Lexer.textOf_append]
    cases keptTail <;> simp [Piece.textOf_map_lexeme]
  · intro hlead hitems hsettled
    obtain ⟨hrun, hright⟩ := settled_of_tailGap hls hlast htail hsettled
    rw [List.flatMap_nil, List.nil_append, hquiet hlead hitems hrun, hlastQuiet hright]

/-- A slot without a line break goes on with the open line. -/
theorem ComesOut.of_snoc {s : Slot} (hs : IsSlot rules false s)
    (hblanks : ∀ p ∈ s.gap, p.isNewline = false)
    (h : ComesOut rules st lead first (mid ++ s.pieces) slots tail) :
    ComesOut rules st lead first mid (s :: slots) tail := by
  obtain ⟨htext, hquiet⟩ := h
  obtain ⟨keptGap, hgap, -⟩ := hs.gap
  have hgroups (st : LineState) : (indentFor rules st s.item).groups = st.groups := by
    apply groups_indentFor
    intro name hname
    rcases hs.directive name hname with hfalse | ⟨p, hp, hnewline⟩
    · simp at hfalse
    · simp [hblanks p hp] at hnewline
  have hsame : s.gap.map (withEnding rules) = s.gap := by
    apply map_withEnding_eq_self
    intro p hp
    exact withEnding_of_blanks (hgap.layout p hp) (hblanks p hp)
  have hpieces : mid ++ (List.flatMap Slot.pieces (s :: slots) ++ tail) =
      mid ++ s.pieces ++ (List.flatMap Slot.pieces slots ++ tail) := by
    simp
  rw [contentOf_snoc hgap hs.item, bracesAfter_append] at htext hquiet
  constructor
  · rw [hpieces, htext]
    simp [linesText, hgroups, lineGap_blanks hblanks, Slot.pieces, hsame, Piece.textOf_map_lexeme]
  · rintro hlead hitems ⟨-, hitem, hsettled⟩
    rw [hgroups] at hsettled
    rw [hpieces]
    refine hquiet hlead ?_ hsettled
    intro p hp
    simp only [Slot.pieces, List.mem_cons, List.mem_append, List.not_mem_nil, or_false] at hp
    rcases hp with rfl | hp | hp | rfl
    · exact hitems _ (by simp)
    · exact hitems p (by simp [hp])
    · rw [withEnding_of_blanks (hgap.layout p hp) (hblanks p hp)]
    · exact hitem

theorem isOpenLine_nil {item : Piece} (hgap : IsGap rules kept last)
    (hlast : ∀ p ∈ last, p.isNewline = false) (hitem : item.isLayout = false) :
    IsOpenLine rules kept last item [] :=
  ⟨hgap, hlast, hitem, by simp, by simp⟩

/-- The slot whose item opens a line, behind the lines `ls` that end in its gap: these come out as a
run of empty lines, and the line as it does, whatever the state holds but for the open braces and
groups. -/
theorem ComesOut.behind (start : Bool) (here : LineState) {item : Piece}
    (h : ComesOut rules st last item [] slots tail) (hitem : item.isLayout = false)
    (hbraces : st.braces = here.braces) (hgroups : st.groups = here.groups)
    (hls : ∀ l ∈ ls, l.IsClosed) (hlast : ∀ p ∈ last, p.isNewline = false)
    (hgap : IsGap rules kept (ls.flatMap Line.pieces ++ last))
    (hkept : kept = true → item.suppressed = true) (hstart : start = true ∨ ls ≠ []) :
    linesText rules start here.braces here.groups
        (⟨ls.flatMap Line.pieces ++ last, item⟩ :: slots) tail =
      Lexer.textOf (newRun rules kept start ls) ++ Piece.render (formatLines rules st (Line.split
        (last ++ item :: ([] ++ (slots.flatMap Slot.pieces ++ tail))))).1 ∧
    (LinesSettled rules start here.braces here.groups
        (⟨ls.flatMap Line.pieces ++ last, item⟩ :: slots) tail →
      newRun rules kept start ls = (ls.flatMap Line.pieces).map Piece.lexeme ∧
        (formatLines rules st (Line.split
          (last ++ item :: ([] ++ (slots.flatMap Slot.pieces ++ tail))))).2 = []) := by
  obtain ⟨htext, hquiet⟩ := h
  let here' : LineState := { braces := here.braces, groups := here.groups }
  have hcontent : contentOf [item] = [item] := by simp [contentOf, hitem]
  have hindent : indentFor rules st item = indentFor rules here' item :=
    indentFor_congr rules hbraces hgroups item
  have hnewLead : newLead rules st last item = newLead rules here' last item :=
    newLead_congr rules hbraces hgroups last item
  rw [hcontent, hbraces, hindent, hnewLead] at htext hquiet
  constructor
  · rw [htext, linesText, lineGap_lines _ hls hlast hgap hkept hstart, Lexer.textOf_append]
    simp [here']
  · rintro ⟨hgapSettled, hitemSettled, hsettled⟩
    obtain ⟨hrun, hlead⟩ := settled_of_lineGap hls hlast hgap hkept hstart hgapSettled
    exact ⟨hrun, hquiet hlead (by simpa using hitemSettled) hsettled⟩

/-- A slot with line breaks ends the open line, and its item opens the next. -/
theorem ComesOut.of_next {s : Slot} (hs : IsSlot rules false s)
    (hbreak : ¬ ∀ p ∈ s.gap, p.isNewline = false)
    (hnext : ∀ st {kept : Bool} {last : List Piece}, IsOpenLine rules kept last s.item [] →
      ComesOut rules st last s.item [] slots tail)
    (h : IsOpenLine rules kept lead first mid) :
    ComesOut rules st lead first mid (s :: slots) tail := by
  obtain ⟨g, item⟩ := s
  obtain ⟨keptGap, hgap, hkept⟩ := hs.gap
  obtain ⟨ls, last, rfl, hls, hlast⟩ := exists_closed_lines g
  simp only at hgap hkept hbreak hnext
  cases ls with
  | nil => exact absurd (by simpa using hlast) hbreak
  | cons l ls =>
    obtain ⟨hgapLines, hgapLast⟩ := isGap_append.1 hgap
    have hpieces : List.flatMap Slot.pieces
        (⟨(l :: ls).flatMap Line.pieces ++ last, item⟩ :: slots) ++ tail =
        (l :: ls).flatMap Line.pieces ++
          (last ++ item :: ([] ++ (slots.flatMap Slot.pieces ++ tail))) := by
      simp [Slot.pieces]
    obtain ⟨st', hbraces, hgroups, hrender, hquiet⟩ := formatLines_ended st h hls hgapLines
      (last ++ item :: ([] ++ (slots.flatMap Slot.pieces ++ tail)))
    let here : LineState :=
      { braces := bracesAfter st.braces (contentOf (first :: mid))
        groups := (indentFor rules st first).groups }
    obtain ⟨htext, hsettles⟩ := (hnext st' (isOpenLine_nil hgapLast hlast hs.item)).behind false here
      hs.item hbraces hgroups hls hlast hgap hkept (.inr (by simp))
    constructor
    · rw [hpieces, hrender, htext]
    · intro hlead hitems hsettled
      obtain ⟨hrun, hrest⟩ := hsettles hsettled
      rw [hpieces, hquiet hlead hitems hrun, hrest]

/-- An open line comes out with what follows it, whatever the slots are. -/
theorem comesOut {keptTail : Bool} (htail : IsGap rules keptTail tail) (slots : List Slot)
    (hslots : ∀ s ∈ slots, IsSlot rules false s) (st : LineState) {kept : Bool}
    {lead mid : List Piece} {first : Piece} (h : IsOpenLine rules kept lead first mid) :
    ComesOut rules st lead first mid slots tail := by
  -- on the slots; a slot either goes on with the open line or ends it and opens the next
  induction slots generalizing st kept lead first mid with
  | nil =>
    obtain ⟨ls, last, rfl, hls, hlast⟩ := exists_closed_lines tail
    cases ls with
    | nil => exact comesOut_blanks h htail (by simpa using hlast)
    | cons l ls => exact comesOut_lines h hls hlast htail
  | cons s slots ih =>
    have hs := hslots s (by simp)
    have hmore : ∀ s ∈ slots, IsSlot rules false s := fun s h => hslots s (by simp [h])
    by_cases hblanks : ∀ p ∈ s.gap, p.isNewline = false
    · exact .of_snoc hs hblanks (ih hmore st (h.snoc hs.item hblanks))
    · exact .of_next hs hblanks (fun st _ _ hopen => ih hmore st hopen) h

end ComesOut

/-- The lines of slots and the layout behind them come out slot by slot. -/
theorem formatLines_slots {tail : List Piece} {keptTail : Bool} (htail : IsGap rules keptTail tail)
    {slots : List Slot} (hfirst : ∀ s ∈ slots.head?, IsSlot rules true s)
    (hslots : ∀ s ∈ slots.tail, IsSlot rules false s) :
    Piece.render (formatLines rules {} (Line.split (slots.flatMap Slot.pieces ++ tail))).1 =
      linesText rules true 0 0 slots tail ∧
    (LinesSettled rules true 0 0 slots tail →
      (formatLines rules {} (Line.split (slots.flatMap Slot.pieces ++ tail))).2 = []) := by
  cases slots with
  | nil =>
    obtain ⟨ls, last, rfl, hls, hlast⟩ := exists_closed_lines tail
    obtain ⟨hgapLines, hgapLast⟩ := isGap_append.1 htail
    obtain ⟨hrun, hrunQuiet⟩ := formatLines_leading hgapLines hls
    obtain ⟨hrender, hquiet⟩ := formatLines_last (stateAfter rules {} ls) hgapLast hlast
    rw [List.flatMap_nil, List.nil_append, Line.split_flatMap_append hls, formatLines_append]
    constructor
    · rw [Piece.render_append, hrun, hrender, linesText, tailGap_lines true hls hlast htail,
        Lexer.textOf_append]
      cases keptTail <;> simp [Piece.textOf_map_lexeme]
    · intro hsettled
      obtain ⟨hlines, hright⟩ := settled_of_tailGap hls hlast htail hsettled
      rw [hrunQuiet hlines, hquiet hright]
      rfl
  | cons s slots =>
    obtain ⟨g, item⟩ := s
    have hs := hfirst ⟨g, item⟩ (by simp)
    obtain ⟨keptGap, hgap, hkept⟩ := hs.gap
    obtain ⟨ls, last, rfl, hls, hlast⟩ := exists_closed_lines g
    simp only at hgap hkept
    obtain ⟨hgapLines, hgapLast⟩ := isGap_append.1 hgap
    have hpieces : List.flatMap Slot.pieces (⟨ls.flatMap Line.pieces ++ last, item⟩ :: slots) ++ tail =
        ls.flatMap Line.pieces ++ (last ++ item :: ([] ++ (slots.flatMap Slot.pieces ++ tail))) := by
      simp [Slot.pieces]
    obtain ⟨hrun, hrunQuiet⟩ := formatLines_leading hgapLines hls
    obtain ⟨hbraces, hgroups, -⟩ := state_formatLines_empty {} hgapLines
    obtain ⟨htext, hsettles⟩ := (comesOut htail slots hslots (stateAfter rules {} ls)
      (isOpenLine_nil hgapLast hlast hs.item)).behind true {} hs.item hbraces hgroups hls hlast hgap
        hkept (.inl rfl)
    rw [hpieces, Line.split_flatMap_append hls, formatLines_append]
    constructor
    · rw [Piece.render_append, hrun, htext]
    · intro hsettled
      obtain ⟨hlines, hrest⟩ := hsettles hsettled
      rw [hrunQuiet hlines, hrest]
      rfl

end ShaderStyle.Layout
