import Mathlib.Data.List.Chain
import ShaderStyle.Proofs.Layout.Indent

/-!
# The lines of a formatted text

Up to what is left as it is, the lines of a formatted text are laid out as the rules say
(`IsLaidOut`):

* they end with the right line break, and no blanks stand at their end;
* no more empty lines follow each other than are allowed;
* a line with content starts with the blanks that the content before it asks for.

Each line that the last pass writes keeps this, together with what the state says of the lines
written so far (`IsWritten.formatLine`); and so do all of them (`isLaidOut_newLines`).
-/

namespace ShaderStyle.Layout

variable {rules : RuleSet}

/-! ## What the lines look like -/

/-- The blanks at the start of a line. -/
def Line.lead (l : Line) : List Piece :=
  l.body.takeWhile Piece.isLayout

/-- The line has no content, and no part of it is left as it is. -/
structure Line.IsFreeEmpty (l : Line) : Prop where
  content : l.content = []
  free : ∀ p ∈ l.pieces, p.suppressed = false

/-- The content of some lines. -/
def contentLexemes (lines : List Line) : List Lexeme :=
  (lines.flatMap Line.content).map Piece.lexeme

/-- The lines are laid out as the rules say, up to what is left as it is. -/
structure IsLaidOut (rules : RuleSet) (lines : List Line) : Prop where
  ending : ∀ l ∈ lines, ∀ nl ∈ l.ending, nl.suppressed = false → nl.text = rules.lineEnding.text
  trailing : ∀ l ∈ lines, ∀ p ∈ l.body.getLast?, p.isLayout = true → p.suppressed = true
  empty : ∀ run, run <:+: lines → (∀ l ∈ run, l.IsFreeEmpty) → run.length ≤ rules.maxEmptyLines
  indent : ∀ before l, before ++ [l] <+: lines → ∀ first ∈ l.content.head?,
    first.suppressed = false →
      Piece.render l.lead = lineIndent rules (contentLexemes before) first.lexeme

theorem isLaidOut_nil (rules : RuleSet) : IsLaidOut rules [] := by
  refine ⟨by simp, by simp, ?_, by simp⟩
  intro run hrun _
  simp [List.infix_nil.1 hrun]

/-! ## Line breaks of a piece -/

theorem withEnding_kind (p : Piece) : (withEnding rules p).kind = p.kind := by
  unfold withEnding
  split
  · rfl
  · split <;> simp [*]

theorem withEnding_suppressed (rules : RuleSet) (p : Piece) :
    (withEnding rules p).suppressed = p.suppressed := by
  unfold withEnding
  split
  · rfl
  · split <;> rfl

theorem isLayout_withEnding (p : Piece) : (withEnding rules p).isLayout = p.isLayout := by
  rw [Piece.isLayout, withEnding_kind]
  rfl

theorem isNewline_withEnding (p : Piece) : (withEnding rules p).isNewline = p.isNewline := by
  rw [Piece.isNewline, withEnding_kind]
  rfl

theorem isMark_withEnding (p : Piece) (c : Char) : (withEnding rules p).isMark c = p.isMark c := by
  by_cases hkind : p.kind = .punctuation
  · have hself : withEnding rules p = p := by simp [withEnding, hkind]
    rw [hself]
  · simp [Piece.isMark, withEnding_kind, hkind]

theorem roleOf?_withEnding (p : Piece) :
    roleOf? (withEnding rules p).lexeme = roleOf? p.lexeme := by
  simp only [roleOf?, Piece.lexeme, withEnding_kind]

theorem lineIndent_withEnding (earlier : List Lexeme) (p : Piece) :
    lineIndent rules earlier (withEnding rules p).lexeme = lineIndent rules earlier p.lexeme := by
  have hkind : (withEnding rules p).lexeme.kind = p.lexeme.kind := withEnding_kind p
  have hmark : (withEnding rules p).lexeme.isMark '}' = p.lexeme.isMark '}' := isMark_withEnding p '}'
  simp only [lineIndent, lineLevel, groupsAround, roleOf?_withEnding, hkind, hmark]

theorem bracesAfter_withEnding (n : Nat) (ps : List Piece) :
    bracesAfter n (ps.map (withEnding rules)) = bracesAfter n ps := by
  simp only [bracesAfter, List.foldl_map, isMark_withEnding]

/-! ## The end of a line -/

theorem exists_stripEnd (body : List Piece) :
    ∃ blanks, body = stripEnd body ++ blanks ∧ ∀ p ∈ blanks, isStripped p = true := by
  refine ⟨(body.reverse.takeWhile isStripped).reverse, ?_, ?_⟩
  · rw [stripEnd, ← List.reverse_append, List.takeWhile_append_dropWhile, List.reverse_reverse]
  · intro p hp
    exact List.all_eq_true.1 List.all_takeWhile p (List.mem_reverse.1 hp)

theorem not_isStripped_getLast? (body : List Piece) :
    ∀ p ∈ (stripEnd body).getLast?, isStripped p = false := by
  intro p hp
  rw [stripEnd, List.getLast?_reverse] at hp
  have hhead := List.head?_dropWhile_not isStripped body.reverse
  rwa [hp] at hhead

theorem stripEnd_append_cons (xs : List Piece) {p : Piece} (hp : isStripped p = false)
    (ys : List Piece) : stripEnd (xs ++ p :: ys) = xs ++ p :: stripEnd ys := by
  have hdrop : (p :: xs.reverse).dropWhile isStripped = p :: xs.reverse :=
    List.dropWhile_cons_of_neg (by simp [hp])
  simp only [stripEnd, List.reverse_append, List.reverse_cons, List.append_assoc,
    List.singleton_append, List.dropWhile_append, hdrop]
  split
  · rename_i hempty
    simp [List.isEmpty_iff.1 hempty]
  · simp

theorem filter_layout {ps : List Piece} (h : ∀ p ∈ ps, p.isLayout = true) :
    ps.filter (fun p => !p.isLayout) = [] := by
  rw [List.filter_eq_nil_iff]
  intro p hp
  simp [h p hp]

theorem content_stripEnd (body : List Piece) :
    (stripEnd body).filter (fun p => !p.isLayout) = body.filter fun p => !p.isLayout := by
  rcases exists_stripEnd body with ⟨blanks, hbody, hblanks⟩
  have hlayout : ∀ p ∈ blanks, p.isLayout = true := by
    intro p hp
    have hstripped := hblanks p hp
    rw [isStripped, Bool.and_eq_true] at hstripped
    exact hstripped.1
  conv_rhs => rw [hbody, List.filter_append, filter_layout hlayout, List.append_nil]

/-! ## The line that the pass writes -/

/-- A line with its end as the rules want it. -/
def finished (rules : RuleSet) (l : Line) : Line :=
  ⟨(stripEnd l.body).map (withEnding rules), l.ending.map (withEnding rules)⟩

/-- A line with its start as the rules want it. -/
def indented (rules : RuleSet) (st : LineState) (l : Line) : Line :=
  match l.content with
  | [] => l
  | first :: _ =>
    { l with body :=
        if indentDiffers (indentFor rules st first).text l.body then
          reindent (indentFor rules st first).text l.body
        else l.body }

/-- Whether the line is an empty one too many. -/
def isDropped (rules : RuleSet) (st : LineState) (l : Line) : Bool :=
  l.content.isEmpty && rules.maxEmptyLines < st.emptyLines + 1 && !l.pieces.any Piece.suppressed

/-- The line that the pass writes for a line, if anything is left of it. -/
def newLine? (rules : RuleSet) (st : LineState) (l : Line) : Option Line :=
  if isDropped rules st l || (finished rules (indented rules st l)).pieces.isEmpty then none
  else some (finished rules (indented rules st l))

/-- The lines that the pass writes. -/
def newLines (rules : RuleSet) (st : LineState) : List Line → List Line
  | [] => []
  | l :: more => (newLine? rules st l).toList ++ newLines rules (formatLine rules st l).state more

theorem pieces_finished (st : LineState) (l : Line) :
    (finishLine rules st l).pieces = (finished rules l).pieces := by
  simp only [finishLine, finished, Line.pieces, List.map_append]
  cases l.ending <;> rfl

theorem pieces_formatLine (st : LineState) (l : Line) :
    (formatLine rules st l).pieces = (newLine? rules st l).toList.flatMap Line.pieces := by
  have hwritten (dropped : Bool) (l' : Line) :
      (if dropped then [] else l'.pieces) =
        ((if dropped || l'.pieces.isEmpty then none else some l') : Option Line).toList.flatMap
          Line.pieces := by
    cases dropped with
    | true => rfl
    | false =>
      cases hpieces : l'.pieces with
      | nil => rfl
      | cons p ps => simp [hpieces]
  rw [newLine?, ← hwritten, isDropped, formatLine, indented]
  cases l.content with
  | nil =>
    simp only [emptyLine, List.isEmpty_nil, Bool.true_and]
    split
    · rfl
    · exact pieces_finished { st with emptyLines := st.emptyLines + 1 } l
  | cons first rest =>
    simp only [contentLine, List.isEmpty_cons, Bool.false_and, Bool.false_eq_true, if_false]
    apply pieces_finished

theorem pieces_formatLines (st : LineState) (ls : List Line) :
    (formatLines rules st ls).1 = (newLines rules st ls).flatMap Line.pieces := by
  induction ls generalizing st with
  | nil => rfl
  | cons l ls ih => rw [formatLines_cons, newLines, List.flatMap_append, ih, pieces_formatLine]

theorem content_finished (l : Line) :
    (finished rules l).content = l.content.map (withEnding rules) := by
  have hlayout : (fun p => !p.isLayout) ∘ withEnding rules = fun p : Piece => !p.isLayout := by
    funext p
    rw [Function.comp_apply, isLayout_withEnding]
  simp only [Line.content, finished, List.filter_map, hlayout, content_stripEnd]

/-! ## Lines as the pass meets them -/

/-- A line as the pass meets it: it is ended by a line break that is the right one if it was put in;
what is left as it is goes on up to a content piece; and only the first content piece may be a
directive, or none if `start` is false. -/
structure Line.IsMet (rules : RuleSet) (start : Bool) (l : Line) : Prop where
  body : ∀ p ∈ l.body, p.isNewline = false
  ending : ∀ nl ∈ l.ending, nl.isNewline = true ∧
    (nl.span = none → nl.text = rules.lineEnding.text)
  suppressed : l.body.IsChain fun p q => p.isLayout = true → p.suppressed = true → q.suppressed = true
  directive : ∀ p ∈ if start then l.content.tail else l.content, ∀ name, p.kind ≠ .directive name

/-- What stands before content that may be changed may be changed. -/
theorem not_suppressed_lead {lead rest : List Piece} {first : Piece}
    (h : (lead ++ first :: rest).IsChain fun p q =>
      p.isLayout = true → p.suppressed = true → q.suppressed = true)
    (hlead : ∀ p ∈ lead, p.isLayout = true) (hfirst : first.suppressed = false) :
    ∀ p ∈ lead, p.suppressed = false := by
  induction lead with
  | nil => simp
  | cons p lead ih =>
    have hmore := ih h.tail fun p hp => hlead p (by simp [hp])
    have hnext : ∀ q ∈ (lead ++ first :: rest).head?, q.suppressed = false := by
      intro q hq
      cases lead with
      | nil => rwa [← Option.some.inj hq]
      | cons r lead =>
        rw [← Option.some.inj hq]
        exact hmore r List.mem_cons_self
    intro q hq
    rcases List.mem_cons.1 hq with rfl | hq
    · rw [← Bool.not_eq_true]
      intro hsuppressed
      rw [List.cons_append, List.isChain_cons] at h
      obtain ⟨r, hr⟩ : ∃ r, (lead ++ first :: rest).head? = some r := by
        cases lead <;> exact ⟨_, rfl⟩
      have hr' := h.1 r hr (hlead q (by simp)) hsuppressed
      rw [hnext r hr] at hr'
      simp at hr'
    · exact hmore q hq

section ContentLine

variable {l : Line} {first : Piece} {more : List Piece}

/-- A line with content, with its start as the rules want it. -/
theorem exists_indented (st : LineState) (hcontent : l.content = first :: more)
    (hmet : l.IsMet rules true) :
    ∃ lead rest, (indented rules st l).body = lead ++ first :: rest ∧
      (∀ p ∈ lead, p.isLayout = true ∧ p.isNewline = false) ∧ first.isLayout = false ∧
      rest.filter (fun p => !p.isLayout) = more ∧
      (first.suppressed = false → Piece.render lead = (indentFor rules st first).text) := by
  rcases List.filter_eq_cons_iff.1 hcontent with ⟨lead, rest, hbody, hlead, hfirst, hrest⟩
  simp only [Bool.not_eq_true', Bool.not_eq_false] at hlead hfirst
  have htake : l.body.takeWhile Piece.isLayout = lead := by
    rw [hbody, List.takeWhile_append_of_pos hlead, List.takeWhile_cons_of_neg (by simp [hfirst]),
      List.append_nil]
  have hdrop : l.body.dropWhile Piece.isLayout = first :: rest := by
    rw [hbody, List.dropWhile_append_of_pos hlead, List.dropWhile_cons_of_neg (by simp [hfirst])]
  have hblanks : ∀ p ∈ lead, p.isLayout = true ∧ p.isNewline = false := by
    intro p hp
    exact ⟨hlead p hp, hmet.body p (by simp [hbody, hp])⟩
  simp only [indented, hcontent]
  split
  · by_cases hindent : (indentFor rules st first).text = []
    · exact ⟨[], rest, by simp [reindent, hindent, hdrop], by simp, hfirst, hrest, by simp [hindent]⟩
    · refine ⟨[.blanks (indentFor rules st first).text], rest, by simp [reindent, hindent, hdrop], ?_,
        hfirst, hrest, by simp [Piece.blanks]⟩
      intro p hp
      rw [List.mem_singleton.1 hp]
      exact ⟨rfl, rfl⟩
  · rename_i hdiffers
    refine ⟨lead, rest, hbody, hblanks, hfirst, hrest, ?_⟩
    intro hfree
    have hnone : lead.any Piece.suppressed = false := by
      rw [List.any_eq_false]
      intro p hp
      simp [not_suppressed_lead (hbody ▸ hmet.suppressed) hlead hfree p hp]
    simpa [indentDiffers, htake, hdrop, hfree, hnone] using hdiffers

theorem content_indented (st : LineState) (hmet : l.IsMet rules true) :
    (indented rules st l).content = l.content := by
  cases hcontent : l.content with
  | nil => rw [indented, hcontent, hcontent]
  | cons first more =>
    rcases exists_indented st hcontent hmet with ⟨lead, rest, hbody, hlead, hfirst, hrest, -⟩
    rw [Line.content, hbody, List.filter_append, filter_layout fun p hp => (hlead p hp).1,
      List.filter_cons_of_pos (by simp [hfirst]), hrest]
    rfl

/-- The blanks at the start of a written line. -/
theorem render_lead (st : LineState) (hcontent : l.content = first :: more)
    (hmet : l.IsMet rules true) (hfree : first.suppressed = false) :
    Piece.render (finished rules (indented rules st l)).lead = (indentFor rules st first).text := by
  rcases exists_indented st hcontent hmet with ⟨lead, rest, hbody, hlead, hfirst, -, hrender⟩
  have hkept : isStripped first = false := by simp [isStripped, hfirst]
  have hlayout : Piece.isLayout ∘ withEnding rules = Piece.isLayout := by
    funext p
    exact isLayout_withEnding p
  rw [Line.lead, finished, hbody, stripEnd_append_cons lead hkept, List.takeWhile_map, hlayout,
    List.takeWhile_append_of_pos fun p hp => (hlead p hp).1,
    List.takeWhile_cons_of_neg (by simp [hfirst]), List.append_nil,
    map_withEnding_eq_self fun p hp => withEnding_of_blanks (hlead p hp).1 (hlead p hp).2]
  exact hrender hfree

end ContentLine

theorem ending_indented (st : LineState) (l : Line) : (indented rules st l).ending = l.ending := by
  unfold indented
  split <;> rfl

/-- The end of a written line. -/
theorem text_ending (st : LineState) {l : Line} (hmet : l.IsMet rules true) :
    ∀ nl ∈ (finished rules (indented rules st l)).ending, nl.suppressed = false →
      nl.text = rules.lineEnding.text := by
  intro nl hnl hfree
  rw [finished, ending_indented, Option.mem_def, Option.map_eq_some_iff] at hnl
  rcases hnl with ⟨p, hp, rfl⟩
  rw [withEnding_suppressed] at hfree
  rcases hmet.ending p hp with ⟨hnewline, hinserted⟩
  have hkind : p.kind = .lineBreak := of_decide_eq_true hnewline
  cases hspan : p.span with
  | none => simp [withEnding, hspan, hinserted hspan]
  | some span => simp [withEnding, hspan, hfree, hkind]

theorem trailing_finished (l : Line) :
    ∀ p ∈ (finished rules l).body.getLast?, p.isLayout = true → p.suppressed = true := by
  intro p hp hlayout
  rw [finished, List.getLast?_map, Option.mem_def, Option.map_eq_some_iff] at hp
  rcases hp with ⟨q, hq, rfl⟩
  rw [isLayout_withEnding] at hlayout
  rw [withEnding_suppressed]
  simpa [isStripped, hlayout] using not_isStripped_getLast? l.body q hq

/-! ## One line more -/

theorem IsLaidOut.concat {done : List Line} {l : Line} (h : IsLaidOut rules done)
    (hending : ∀ nl ∈ l.ending, nl.suppressed = false → nl.text = rules.lineEnding.text)
    (htrailing : ∀ p ∈ l.body.getLast?, p.isLayout = true → p.suppressed = true)
    (hempty : ∀ run, run <:+ done ++ [l] → (∀ l ∈ run, l.IsFreeEmpty) →
      run.length ≤ rules.maxEmptyLines)
    (hindent : ∀ first ∈ l.content.head?, first.suppressed = false →
      Piece.render l.lead = lineIndent rules (contentLexemes done) first.lexeme) :
    IsLaidOut rules (done ++ [l]) := by
  refine ⟨?_, ?_, ?_, ?_⟩
  · intro m hm
    rcases List.mem_append.1 hm with hm | hm
    · exact h.ending m hm
    · rwa [List.mem_singleton.1 hm]
  · intro m hm
    rcases List.mem_append.1 hm with hm | hm
    · exact h.trailing m hm
    · rwa [List.mem_singleton.1 hm]
  · intro run hrun
    rcases List.infix_concat_iff.1 hrun with hrun | hrun
    · exact hempty run hrun
    · exact h.empty run hrun
  · intro before m hm
    rcases List.prefix_concat_iff.1 hm with hm | hm
    · rcases List.append_inj' hm rfl with ⟨rfl, heq⟩
      rw [List.cons.injEq] at heq
      rw [heq.1]
      exact hindent
    · exact h.indent before m hm

/-- What holds between the lines written so far and the state of the pass. -/
structure IsWritten (rules : RuleSet) (done : List Line) (st : LineState) : Prop where
  laidOut : IsLaidOut rules done
  counts : st.Counts rules (contentLexemes done)
  empty : ∀ run, run <:+ done → (∀ l ∈ run, l.IsFreeEmpty) → run.length ≤ st.emptyLines

theorem contentLexemes_concat (done : List Line) (l : Line) :
    contentLexemes (done ++ [l]) = contentLexemes done ++ l.content.map Piece.lexeme := by
  simp [contentLexemes]

/-- A written line that is empty and free comes from such a line. -/
theorem isFreeEmpty_of_finished {l : Line} (h : (finished rules l).IsFreeEmpty) : l.IsFreeEmpty := by
  have hcontent : l.content = [] := by
    have := h.content
    rw [content_finished] at this
    exact List.map_eq_nil_iff.1 this
  refine ⟨hcontent, ?_⟩
  intro p hp
  rcases exists_stripEnd l.body with ⟨blanks, hbody, hblanks⟩
  have hkept : ∀ p ∈ stripEnd l.body ++ l.ending.toList, p.suppressed = false := by
    intro p hp
    rw [← withEnding_suppressed rules]
    apply h.free
    have hmem := List.mem_map_of_mem (f := withEnding rules) hp
    rw [Line.pieces, finished]
    cases hending : l.ending <;> simpa [hending] using hmem
  rw [Line.pieces, hbody, List.append_assoc] at hp
  rcases List.mem_append.1 hp with hp | hp
  · exact hkept p (by simp [hp])
  · rcases List.mem_append.1 hp with hp | hp
    · have hstripped := hblanks p hp
      rw [isStripped, Bool.and_eq_true, Bool.not_eq_true'] at hstripped
      exact hstripped.2
    · exact hkept p (by simp [Option.mem_toList.1 hp])

section Step

variable {done : List Line} {st : LineState} {l : Line}

/-- A line without content leaves what is written in order. -/
theorem IsWritten.formatLine_empty (h : IsWritten rules done st) (hmet : l.IsMet rules true)
    (hcontent : l.content = []) :
    IsWritten rules (done ++ (newLine? rules st l).toList) (formatLine rules st l).state := by
  have hstate : (formatLine rules st l).state.braces = st.braces ∧
      (formatLine rules st l).state.groups = st.groups ∧
        (formatLine rules st l).state.emptyLines = st.emptyLines + 1 := by
    simp only [formatLine, hcontent, emptyLine]
    split <;> exact ⟨rfl, rfl, rfl⟩
  rcases hstate with ⟨hbraces, hgroups, hcount⟩
  have hcounts : (formatLine rules st l).state.Counts rules (contentLexemes done) :=
    ⟨hbraces.trans h.counts.braces, fun hnests => hgroups.trans (h.counts.groups hnests)⟩
  have hself : indented rules st l = l := by rw [indented, hcontent]
  have hsuffix {run : List Line} (hrun : run <:+ done) (hfree : ∀ l ∈ run, l.IsFreeEmpty) :
      run.length ≤ (formatLine rules st l).state.emptyLines := by
    have := h.empty run hrun hfree
    omega
  rw [newLine?, hself]
  split
  · rw [Option.toList_none, List.append_nil]
    exact ⟨h.laidOut, hcounts, fun run hrun => hsuffix hrun⟩
  · rename_i hkept
    rw [Bool.or_eq_true, not_or] at hkept
    have hnew : (finished rules l).content = [] := by rw [content_finished, hcontent]; rfl
    -- a run that goes on with the line is one line longer, and the line is not one too many
    have hrun {run : List Line} (hrun : run <:+ done ++ [finished rules l])
        (hfree : ∀ l ∈ run, l.IsFreeEmpty) :
        run.length ≤ st.emptyLines + 1 ∧ run.length ≤ rules.maxEmptyLines := by
      rcases List.suffix_concat_iff.1 hrun with rfl | ⟨run, rfl, hbefore⟩
      · simp
      · have hmore := h.empty run hbefore fun l hl => hfree l (by simp [hl])
        have hline := isFreeEmpty_of_finished (hfree (finished rules l) (by simp))
        have hfree' : l.pieces.any Piece.suppressed = false := by
          rw [List.any_eq_false]
          intro p hp
          simp [hline.free p hp]
        have hmax : st.emptyLines + 1 ≤ rules.maxEmptyLines := by
          simpa [isDropped, hcontent, hfree'] using hkept.1
        rw [List.length_append, List.length_singleton]
        omega
    rw [Option.toList_some]
    refine ⟨?_, ?_, ?_⟩
    · refine h.laidOut.concat ?_ (trailing_finished l) (fun run hrun' hfree => (hrun hrun' hfree).2) ?_
      · have := text_ending st hmet
        rwa [hself] at this
      · simp [hnew]
    · rw [contentLexemes_concat, hnew, List.map_nil, List.append_nil]
      exact hcounts
    · intro run hrun' hfree
      rw [hcount]
      exact (hrun hrun' hfree).1

/-- Behind a line with content, the counters count what it opens and closes too. -/
theorem counts_formatLine {earlier : List Lexeme} (h : st.Counts rules earlier)
    (hmet : l.IsMet rules true) {first : Piece} {more : List Piece}
    (hcontent : l.content = first :: more) :
    (formatLine rules st l).state.Counts rules
      (earlier ++ ((first :: more).map (withEnding rules)).map Piece.lexeme) := by
  have hstate : (formatLine rules st l).state.braces = bracesAfter st.braces (first :: more) ∧
      (formatLine rules st l).state.groups = (indentFor rules st first).groups := by
    simp only [formatLine, hcontent, contentLine, finishLine, and_self]
  refine ⟨?_, ?_⟩
  · rw [openBraces_append, bracesAfter_withEnding, ← h.braces]
    exact hstate.1
  · intro hnests
    -- only the first piece may be a directive, so only it changes the groups
    have hroles : ∀ m ∈ (more.map (withEnding rules)).map Piece.lexeme, roleOf? m = none := by
      intro m hm
      rcases List.mem_map.1 hm with ⟨q, hq, rfl⟩
      rcases List.mem_map.1 hq with ⟨p, hp, rfl⟩
      rw [roleOf?_withEnding]
      apply roleOf?_eq_none
      apply hmet.directive p
      simpa [hcontent] using hp
    rw [hstate.2, groups_indentFor_eq h hnests, List.map_cons, List.map_cons,
      List.append_cons _ (withEnding rules first).lexeme, openGroups_append_eq_self hroles,
      openGroups_concat, openGroups_concat, roleOf?_withEnding]

/-- A line with content leaves what is written in order. -/
theorem IsWritten.formatLine_content (h : IsWritten rules done st) (hmet : l.IsMet rules true)
    {first : Piece} {more : List Piece} (hcontent : l.content = first :: more) :
    IsWritten rules (done ++ (newLine? rules st l).toList) (formatLine rules st l).state := by
  have hnew : (finished rules (indented rules st l)).content =
      (first :: more).map (withEnding rules) := by
    rw [content_finished, content_indented st hmet, hcontent]
  have hsome : newLine? rules st l = some (finished rules (indented rules st l)) := by
    have hpieces : (finished rules (indented rules st l)).pieces ≠ [] := by
      intro hnil
      rw [Line.pieces, List.append_eq_nil_iff] at hnil
      rw [Line.content, hnil.1] at hnew
      simp at hnew
    simp [newLine?, isDropped, hcontent, hpieces]
  rw [hsome, Option.toList_some]
  -- no run of empty lines goes on up to a line with content
  have hempty {run : List Line} (hrun : run <:+ done ++ [finished rules (indented rules st l)])
      (hfree : ∀ l ∈ run, l.IsFreeEmpty) : run = [] := by
    rcases List.suffix_concat_iff.1 hrun with rfl | ⟨run, rfl, -⟩
    · rfl
    · have := (hfree (finished rules (indented rules st l)) (by simp)).content
      rw [hnew] at this
      simp at this
  refine ⟨?_, ?_, ?_⟩
  · refine h.laidOut.concat (text_ending st hmet) (trailing_finished _) ?_ ?_
    · intro run hrun hfree
      simp [hempty hrun hfree]
    · intro p hp hfree
      rw [hnew, List.map_cons, List.head?_cons, Option.mem_some_iff] at hp
      subst hp
      rw [withEnding_suppressed] at hfree
      rw [render_lead st hcontent hmet hfree, lineIndent_withEnding, text_indentFor h.counts]
  · rw [contentLexemes_concat, hnew]
    exact counts_formatLine h.counts hmet hcontent
  · intro run hrun hfree
    simp [hempty hrun hfree]

/-- Every line leaves what is written in order. -/
theorem IsWritten.formatLine (h : IsWritten rules done st) (hmet : l.IsMet rules true) :
    IsWritten rules (done ++ (newLine? rules st l).toList) (formatLine rules st l).state := by
  cases hcontent : l.content with
  | nil => exact h.formatLine_empty hmet hcontent
  | cons first more => exact h.formatLine_content hmet hcontent

end Step

/-- All lines leave what is written in order. -/
theorem IsWritten.isLaidOut {done ls : List Line} {st : LineState} (h : IsWritten rules done st)
    (hmet : ∀ l ∈ ls, l.IsMet rules true) : IsLaidOut rules (done ++ newLines rules st ls) := by
  induction ls generalizing done st with
  | nil => simpa [newLines] using h.laidOut
  | cons l ls ih =>
    have hline := h.formatLine (hmet l (by simp))
    rw [newLines, ← List.append_assoc]
    exact ih hline fun l hl => hmet l (by simp [hl])

theorem isLaidOut_newLines {ls : List Line} (hmet : ∀ l ∈ ls, l.IsMet rules true) :
    IsLaidOut rules (newLines rules {} ls) := by
  have hstart : IsWritten rules [] {} := by
    refine ⟨isLaidOut_nil rules, LineState.counts_nil rules, ?_⟩
    intro run hrun _
    simp [List.suffix_nil.1 hrun]
  exact hstart.isLaidOut hmet

end ShaderStyle.Layout
