import Mathlib.Data.List.Forall2
import Mathlib.Data.List.TakeWhile
import ShaderStyle.Documentation

/-!
# Which comments document

What documents a token is said here line by line (`Documents`), where lines end at the line breaks
among the tokens: a documentation block before the token on its line with nothing but blanks between;
or, if only blanks stand before the token on its line, a documentation block alone on the line just
above, or else all the line comments, each alone on its line, on the lines that end just above.
Comments with markers count as little as other tokens.

* `commentsAbove_line`: how the search for comments reads one line, from its end;
* `commentsAbove_false`, `commentsAbove_true`: how it reads all lines above;
* `find_eq_iff`: the comments found are those that document.
-/

namespace ShaderStyle.Documentation

/-! ## What documents a token -/

/-- A documentation block without a marker. -/
def isBlock (t : Token) : Bool :=
  t.kind = .blockComment true && Marker.of? t.toLexeme = none

/-- A line comment without a marker. -/
def isNote (t : Token) : Bool :=
  (t.kind = .lineComment false || t.kind = .lineComment true) && Marker.of? t.toLexeme = none

/-- What stands on a line besides blanks. -/
def visible (line : List Token) : List Token :=
  line.filter fun t => !isBlanks t

/-- The lines of some tokens, the line breaks left out; the last one is not ended. -/
def linesOf (tokens : List Token) : List (List Token) :=
  tokens.splitOnP fun t => t.kind = .lineBreak

/-- The full lines before a token, top to bottom. -/
def linesAbove (before : List Token) : List (List Token) :=
  (linesOf before).dropLast

/-- What stands before a token on its own line. -/
def lineStart (before : List Token) : List Token :=
  (linesOf before).getLastD []

/-- The comments document a token, of which `above` holds the lines above, top to bottom, and `start`
what stands before it on its own line. -/
inductive Documents (above : List (List Token)) (start : List Token) : List Token → Prop
  | beside {before blanks : List Token} {c : Token} (line : start = before ++ c :: blanks)
      (between : visible blanks = []) (block : isBlock c = true) : Documents above start [c]
  | block {outer : List (List Token)} {line : List Token} {c : Token}
      (first : visible start = []) (lines : above = outer ++ [line]) (alone : visible line = [c])
      (block : isBlock c = true) : Documents above start [c]
  | notes {outer run : List (List Token)} {cs : List Token} (first : visible start = [])
      (lines : above = outer ++ run) (nonempty : run ≠ [])
      (alone : List.Forall₂ (fun line c => visible line = [c] ∧ isNote c = true) run cs)
      (maximal : ∀ line ∈ outer.getLast?, ∀ c, visible line = [c] → isNote c = false) :
      Documents above start cs

/-! ## Blanks at the end of a line -/

variable {b c t : Token} {line before start r : List Token} {lines : List (List Token)}

theorem visible_append (l l' : List Token) : visible (l ++ l') = visible l ++ visible l' :=
  List.filter_append l l'

/-- From its end, a line has blanks only, or blanks and then a visible token. -/
theorem cases_line (line : List Token) :
    visible line = [] ∧ line.reverse.dropWhile isBlanks = [] ∨
      ∃ before c blanks, line = before ++ c :: blanks ∧ visible blanks = [] ∧ isBlanks c = false ∧
        line.reverse.dropWhile isBlanks = c :: before.reverse := by
  have hsplit := List.takeWhile_append_dropWhile (p := isBlanks) (l := line.reverse)
  have hblanks : visible (line.reverse.takeWhile isBlanks).reverse = [] := by
    rw [visible, List.filter_eq_nil_iff]
    intro t ht
    simp [List.all_eq_true.1 List.all_takeWhile t (List.mem_reverse.1 ht)]
  cases hdrop : line.reverse.dropWhile isBlanks with
  | nil =>
    rw [hdrop, List.append_nil] at hsplit
    rw [hsplit, List.reverse_reverse] at hblanks
    exact .inl ⟨hblanks, rfl⟩
  | cons c v =>
    have hc : isBlanks c = false := by
      have hhead := List.head?_dropWhile_not isBlanks line.reverse
      rw [hdrop] at hhead
      simpa using hhead
    have hline := congrArg List.reverse hsplit
    rw [hdrop, List.reverse_append, List.reverse_cons, List.append_assoc, List.reverse_reverse] at hline
    exact .inr ⟨v.reverse, c, _, hline.symm, hblanks, hc, by rw [List.reverse_reverse]⟩

theorem visible_of_cons {blanks : List Token} (hc : isBlanks c = false) (hblanks : visible blanks = []) :
    visible (before ++ c :: blanks) = visible before ++ [c] := by
  have hcons : visible (c :: blanks) = c :: visible blanks :=
    List.filter_cons_of_pos (by simp [hc])
  rw [visible_append, hcons, hblanks]

theorem isBlanks_of_isBlock (h : isBlock c = true) : isBlanks c = false := by
  have hkind : c.kind = .blockComment true := of_decide_eq_true (Bool.and_eq_true_iff.1 h).1
  simp [isBlanks, hkind]

/-! ## The lines above a token -/

/-- What stands before a line, in reverse: nothing, or the line break that ends the nearest of `lines`
and that line, and so on. -/
inductive AreAbove : List (List Token) → List Token → Prop
  | none : AreAbove [] []
  | line {b : Token} {line r : List Token} {lines : List (List Token)} (ended : b.kind = .lineBreak)
      (whole : ∀ t ∈ line, t.kind ≠ .lineBreak) (more : AreAbove lines r) :
      AreAbove (line :: lines) (b :: (line.reverse ++ r))

/-- Tokens have no line break, or there is a last one. -/
theorem cases_lastBreak (tokens : List Token) :
    (∀ t ∈ tokens, t.kind ≠ .lineBreak) ∨
      ∃ before b line, tokens = before ++ b :: line ∧ b.kind = .lineBreak ∧
        ∀ t ∈ line, t.kind ≠ .lineBreak := by
  induction tokens with
  | nil => exact .inl nofun
  | cons t tokens ih =>
    rcases ih with hnone | ⟨before, b, line, rfl, hlast⟩
    · by_cases ht : t.kind = .lineBreak
      · exact .inr ⟨[], t, tokens, rfl, ht, hnone⟩
      · refine .inl ?_
        intro u hu
        rcases List.mem_cons.1 hu with rfl | hu
        · exact ht
        · exact hnone u hu
    · exact .inr ⟨t :: before, b, line, rfl, hlast⟩

theorem linesOf_eq_singleton (h : ∀ t ∈ line, t.kind ≠ .lineBreak) : linesOf line = [line] :=
  List.splitOnP_eq_singleton fun t ht => decide_eq_false (h t ht)

theorem linesOf_append (hb : b.kind = .lineBreak) (hline : ∀ t ∈ line, t.kind ≠ .lineBreak) :
    linesOf (before ++ b :: line) = linesOf before ++ [line] := by
  rw [linesOf, List.splitOnP_append_cons before line (decide_eq_true hb)]
  exact congrArg _ (linesOf_eq_singleton hline)

/-- The lines of the tokens before a line break stand above the line behind it. -/
theorem areAbove_linesOf (hb : b.kind = .lineBreak) (before : List Token) :
    AreAbove (linesOf before).reverse (b :: before.reverse) := by
  induction hsize : before.length using Nat.strongRecOn generalizing b before with
  | ind size ih =>
    subst hsize
    rcases cases_lastBreak before with hnone | ⟨outer, b', line, rfl, hb', hline⟩
    · have h := AreAbove.line hb hnone .none
      rw [List.append_nil] at h
      rwa [linesOf_eq_singleton hnone]
    · have hmore := ih outer.length (by simp) hb' outer rfl
      rw [linesOf_append hb' hline]
      simp only [List.reverse_append, List.reverse_cons, List.reverse_nil, List.nil_append,
        List.cons_append, List.append_assoc]
      exact .line hb hline hmore

/-- The tokens before a token, in reverse, are what stands on its own line and the lines above. -/
theorem exists_areAbove (before : List Token) :
    ∃ r, before.reverse = (lineStart before).reverse ++ r ∧ AreAbove (linesAbove before).reverse r ∧
      ∀ t ∈ lineStart before, t.kind ≠ .lineBreak := by
  unfold linesAbove lineStart
  rcases cases_lastBreak before with hnone | ⟨outer, b, line, rfl, hb, hline⟩
  · rw [linesOf_eq_singleton hnone]
    exact ⟨[], by simp, .none, hnone⟩
  · rw [linesOf_append hb hline, List.dropLast_concat, List.getLastD_concat]
    refine ⟨b :: outer.reverse, ?_, areAbove_linesOf hb outer, hline⟩
    rw [List.reverse_append, List.reverse_cons, List.append_assoc]
    rfl

theorem AreAbove.eq_nil_or_cons (h : AreAbove lines r) :
    r = [] ∨ ∃ b r', r = b :: r' ∧ b.kind = .lineBreak := by
  cases h with
  | none => exact .inl rfl
  | line ended => exact .inr ⟨_, _, rfl, ended⟩

theorem AreAbove.dropWhile_eq (h : AreAbove lines r) : r.dropWhile isBlanks = r := by
  rcases h.eq_nil_or_cons with rfl | ⟨b, r, rfl, hb⟩
  · rfl
  · exact List.dropWhile_cons_of_neg (by simp [isBlanks, hb])

theorem AreAbove.head?_all (h : AreAbove lines r) :
    r.head?.all (fun t => t.kind = .lineBreak) = true := by
  rcases h.eq_nil_or_cons with rfl | ⟨b, r, rfl, hb⟩
  · rfl
  · simp [hb]

/-! ## Reading the lines above -/

theorem commentsAbove_cons (first : Bool) (t : Token) (above : List Token) :
    commentsAbove first (t :: above) =
      if t.kind = .lineBreak then
        match above.dropWhile isBlanks with
        | [] => []
        | comment :: more =>
          if isUnmarkedComment comment &&
              (more.dropWhile isBlanks).head?.all (fun t => t.kind = .lineBreak) then
            match comment.kind with
            | .blockComment true => if first then [comment] else []
            | .lineComment _ => comment :: commentsAbove false (more.dropWhile isBlanks)
            | _ => []
          else []
      else [] := by
  rw [commentsAbove]
  split
  · split
    all_goals
      rename_i hdrop
      generalize above.dropWhile isBlanks = kept at hdrop ⊢
      subst hdrop
      rfl
  · rfl

/-- What the search makes of a comment alone on its line, if it goes on with `r`. -/
def readComment (first : Bool) (c : Token) (r : List Token) : List Token :=
  if isBlock c then if first then [c] else []
  else if isNote c then c :: commentsAbove false r
  else []

theorem readComment_eq (first : Bool) (c : Token) (r : List Token) :
    readComment first c r =
      if isUnmarkedComment c then
        match c.kind with
        | .blockComment true => if first then [c] else []
        | .lineComment _ => c :: commentsAbove false r
        | _ => []
      else [] := by
  unfold readComment isBlock isNote isUnmarkedComment
  cases hkind : c.kind with
  | lineComment doc => cases doc <;> simp [TokenKind.isComment]
  | blockComment doc => cases doc <;> simp [TokenKind.isComment]
  | _ => simp [TokenKind.isComment]

/-- A line counts if nothing but one comment is visible on it. -/
theorem commentsAbove_line (first : Bool) (hb : b.kind = .lineBreak)
    (hline : ∀ t ∈ line, t.kind ≠ .lineBreak) (h : AreAbove lines r) :
    commentsAbove first (b :: (line.reverse ++ r)) =
      match visible line with
      | [c] => readComment first c r
      | _ => [] := by
  rw [commentsAbove_cons, if_pos hb, List.dropWhile_append]
  rcases cases_line line with ⟨hvisible, hdrop⟩ | ⟨before, c, blanks, rfl, hblanks, hc, hdrop⟩
  · -- an empty line
    rw [hvisible, hdrop, List.isEmpty_nil, if_pos rfl, h.dropWhile_eq]
    rcases h.eq_nil_or_cons with rfl | ⟨b', r, rfl, hb'⟩
    · rfl
    · simp [isUnmarkedComment, hb', TokenKind.isComment]
  · rw [hdrop, List.isEmpty_cons, if_neg Bool.false_ne_true, visible_of_cons hc hblanks]
    simp only [List.cons_append]
    rw [List.dropWhile_append]
    rcases cases_line before with ⟨hvisible, hdrop'⟩ | ⟨outer, d, blanks', rfl, -, hd, hdrop'⟩
    · -- nothing else stands on the line
      rw [hvisible, hdrop', List.isEmpty_nil, if_pos rfl, h.dropWhile_eq, h.head?_all, Bool.and_true]
      exact (readComment_eq first c r).symm
    · -- another token stands before it
      have hkind : d.kind ≠ .lineBreak := hline d (by simp)
      have htwo : ∀ c', visible (outer ++ d :: blanks') ++ [c] ≠ [c'] := by
        intro c' heq
        have hmem : d ∈ visible (outer ++ d :: blanks') := by simp [visible, hd]
        have hlength := congrArg List.length heq
        have hpos := List.length_pos_of_mem hmem
        simp only [List.length_append, List.length_cons, List.length_nil] at hlength
        omega
      rw [hdrop', List.isEmpty_cons, if_neg Bool.false_ne_true, List.cons_append, List.head?_cons,
        Option.all_some, decide_eq_false hkind, Bool.and_false, if_neg Bool.false_ne_true]
      split
      · rename_i heq
        exact absurd heq (htwo _)
      · rfl

/-- The line comment that stands alone on a line. -/
def note? (line : List Token) : Option Token :=
  match visible line with
  | [c] => if isNote c then some c else none
  | _ => none

/-- A line comment stands alone on the line. -/
def holdsNote (line : List Token) : Bool :=
  (note? line).isSome

/-- The line comments on the first of some lines, as long as each is alone on its line. -/
def notesOf (lines : List (List Token)) : List Token :=
  (lines.takeWhile holdsNote).filterMap note?

theorem note?_eq_some_iff : note? line = some c ↔ visible line = [c] ∧ isNote c = true := by
  unfold note?
  split
  · rename_i c' hvisible
    rw [hvisible]
    by_cases hnote : isNote c' = true
    · rw [if_pos hnote]
      constructor
      · rintro ⟨⟩
        exact ⟨rfl, hnote⟩
      · rintro ⟨⟨⟩, -⟩
        rfl
    · rw [if_neg hnote]
      constructor
      · nofun
      · rintro ⟨⟨⟩, hnote'⟩
        exact absurd hnote' hnote
  · rename_i hnot
    constructor
    · nofun
    · rintro ⟨hvisible, -⟩
      exact absurd hvisible (hnot c)

theorem holdsNote_eq_false_iff :
    holdsNote line = false ↔ ∀ c, visible line = [c] → isNote c = false := by
  simp [holdsNote, Option.eq_none_iff_forall_ne_some, note?_eq_some_iff]

theorem isBlock_of_isNote (h : isNote c = true) : isBlock c = false := by
  unfold isNote at h
  unfold isBlock
  cases hkind : c.kind <;> simp_all

theorem notesOf_cons (line : List Token) (lines : List (List Token)) :
    notesOf (line :: lines) = (note? line).elim [] fun c => c :: notesOf lines := by
  cases hnote : note? line <;> simp [notesOf, holdsNote, hnote]

/-- Once a comment is found, the search goes on through line comments alone on their lines. -/
theorem commentsAbove_false (h : AreAbove lines r) : commentsAbove false r = notesOf lines := by
  induction h with
  | none => simp [commentsAbove, notesOf]
  | line ended whole more ih =>
    rw [commentsAbove_line false ended whole more, notesOf_cons, note?]
    split
    · rename_i c _
      rw [readComment, ih]
      cases hnote : isNote c with
      | false => cases isBlock c <;> rfl
      | true => simp [isBlock_of_isNote hnote]
    · rfl

/-- At first, a documentation block alone on the nearest line counts too. -/
theorem commentsAbove_true (h : AreAbove lines r) :
    (∃ line outer c, lines = line :: outer ∧ visible line = [c] ∧ isBlock c = true ∧
        commentsAbove true r = [c]) ∨
      (∀ line ∈ lines.head?, ∀ c, visible line = [c] → isBlock c = false) ∧
        commentsAbove true r = notesOf lines := by
  cases h with
  | none => exact .inr ⟨nofun, by simp [commentsAbove, notesOf]⟩
  | @line b line r lines ended whole more =>
    rw [commentsAbove_line true ended whole more, notesOf_cons, note?]
    split
    · rename_i c hvisible
      rw [readComment, commentsAbove_false more]
      cases hblock : isBlock c with
      | true => exact .inl ⟨line, lines, c, rfl, hvisible, hblock, rfl⟩
      | false =>
        refine .inr ⟨?_, ?_⟩
        · rintro _ ⟨⟩ c' hvisible'
          rw [hvisible, List.cons.injEq] at hvisible'
          rw [← hvisible'.1, hblock]
        · cases isNote c <;> rfl
    · rename_i hnot
      refine .inr ⟨?_, rfl⟩
      rintro _ ⟨⟩ c hvisible
      exact absurd hvisible (hnot c)

theorem forall₂_note?_iff {lines : List (List Token)} {cs : List Token} :
    List.Forall₂ (fun line c => visible line = [c] ∧ isNote c = true) lines cs ↔
      (∀ line ∈ lines, holdsNote line = true) ∧ lines.filterMap note? = cs := by
  simp only [← note?_eq_some_iff]
  induction lines generalizing cs with
  | nil =>
    rw [List.forall₂_nil_left_iff]
    constructor
    · rintro rfl
      exact ⟨nofun, rfl⟩
    · rintro ⟨-, rfl⟩
      rfl
  | cons line lines ih =>
    rw [List.forall₂_cons_left_iff]
    constructor
    · rintro ⟨c, cs, hnote, hcs, rfl⟩
      rcases ih.1 hcs with ⟨hall, rfl⟩
      simp only [List.mem_cons, forall_eq_or_imp, holdsNote, hnote, Option.isSome_some, true_and]
      exact ⟨hall, List.filterMap_cons_some hnote⟩
    · rintro ⟨hall, rfl⟩
      rcases Option.isSome_iff_exists.1 (hall line List.mem_cons_self) with ⟨c, hnote⟩
      refine ⟨c, lines.filterMap note?, hnote, ?_, List.filterMap_cons_some hnote⟩
      exact ih.2 ⟨fun l hl => hall l (List.mem_cons_of_mem line hl), rfl⟩

/-- The comments on the nearest lines are those on a run of lines that cannot be longer. -/
theorem reverse_notesOf_eq_iff {above : List (List Token)} {cs : List Token} :
    (notesOf above.reverse).reverse = cs ↔
      ∃ outer run, above = outer ++ run ∧
        List.Forall₂ (fun line c => visible line = [c] ∧ isNote c = true) run cs ∧
        ∀ line ∈ outer.getLast?, ∀ c, visible line = [c] → isNote c = false := by
  simp only [← holdsNote_eq_false_iff]
  constructor
  · rintro rfl
    refine ⟨(above.reverse.dropWhile holdsNote).reverse, (above.reverse.takeWhile holdsNote).reverse,
      ?_, ?_, ?_⟩
    · rw [← List.reverse_append, List.takeWhile_append_dropWhile, List.reverse_reverse]
    · rw [forall₂_note?_iff, notesOf, List.filterMap_reverse]
      refine ⟨?_, rfl⟩
      intro line hline
      exact List.all_eq_true.1 List.all_takeWhile line (List.mem_reverse.1 hline)
    · intro line hline
      rw [List.getLast?_reverse] at hline
      have hhead := List.head?_dropWhile_not holdsNote above.reverse
      rw [Option.mem_def.1 hline] at hhead
      simpa using hhead
  · rintro ⟨outer, run, rfl, hrun, hmaximal⟩
    rw [forall₂_note?_iff] at hrun
    have houter : outer.reverse.takeWhile holdsNote = [] := by
      rw [List.takeWhile_eq_nil_iff]
      intro hlength
      have hlast : outer.reverse[0] ∈ outer.getLast? := by
        rw [← List.head?_reverse, List.head?_eq_getElem?, Option.mem_def, List.getElem?_eq_getElem hlength]
      exact Bool.eq_false_iff.1 (hmaximal _ hlast)
    have htake : (outer ++ run).reverse.takeWhile holdsNote = run.reverse := by
      rw [List.reverse_append, List.takeWhile_append_of_pos, houter, List.append_nil]
      intro line hline
      exact hrun.1 line (List.mem_reverse.1 hline)
    rw [notesOf, htake, List.filterMap_reverse, List.reverse_reverse, hrun.2]

/-! ## The comments found -/

/-- If a visible token stands before a token on its line, only that one counts. -/
theorem find_beside {tokens before blanks : List Token} {i : Nat} {c : Token}
    (h : lineStart (tokens.take i) = before ++ c :: blanks) (hblanks : visible blanks = [])
    (hc : isBlanks c = false) : find tokens i = if isBlock c then [c] else [] := by
  rcases exists_areAbove (tokens.take i) with ⟨r, hr, -, hline⟩
  have hkind : c.kind ≠ .lineBreak := hline c (by simp [h])
  have hall : ∀ t ∈ blanks.reverse, isBlanks t = true := by
    intro t ht
    simpa using List.filter_eq_nil_iff.1 hblanks t (List.mem_reverse.1 ht)
  have hdrop : (tokens.take i).reverse.dropWhile isBlanks = c :: (before.reverse ++ r) := by
    rw [hr, h, List.reverse_append, List.reverse_cons, List.append_assoc, List.append_assoc,
      List.dropWhile_append_of_pos hall]
    exact List.dropWhile_cons_of_neg (by simp [hc])
  rw [find, hdrop]
  simp only [commentsAbove_cons, if_neg hkind, List.reverse_nil]
  rfl

/-- If no visible token does, the lines above count. -/
theorem find_first {tokens : List Token} {i : Nat} (h : visible (lineStart (tokens.take i)) = []) :
    ∃ r, AreAbove (linesAbove (tokens.take i)).reverse r ∧
      find tokens i = (commentsAbove true r).reverse := by
  rcases exists_areAbove (tokens.take i) with ⟨r, hr, habove, -⟩
  have hall : ∀ t ∈ (lineStart (tokens.take i)).reverse, isBlanks t = true := by
    intro t ht
    simpa using List.filter_eq_nil_iff.1 h t (List.mem_reverse.1 ht)
  refine ⟨r, habove, ?_⟩
  rw [find, hr, List.dropWhile_append_of_pos hall, habove.dropWhile_eq]
  rcases habove.eq_nil_or_cons with rfl | ⟨b, r, rfl, hb⟩
  · simp [commentsAbove]
  · simp [hb]

theorem documents_find {tokens : List Token} {i : Nat} (h : find tokens i ≠ []) :
    Documents (linesAbove (tokens.take i)) (lineStart (tokens.take i)) (find tokens i) := by
  rcases cases_line (lineStart (tokens.take i)) with
    ⟨hfirst, -⟩ | ⟨before, c, blanks, hline, hblanks, hc, -⟩
  · rcases find_first hfirst with ⟨r, habove, hfind⟩
    rw [hfind] at h ⊢
    rcases commentsAbove_true habove with ⟨line, outer, c, hlines, halone, hblock, hc⟩ | ⟨-, hnotes⟩
    · rw [hc]
      rw [List.reverse_eq_cons_iff] at hlines
      exact .block hfirst hlines halone hblock
    · rw [hnotes] at h ⊢
      rcases reverse_notesOf_eq_iff.1 rfl with ⟨outer, run, hlines, hrun, hmaximal⟩
      refine .notes hfirst hlines ?_ hrun hmaximal
      rintro rfl
      rw [List.forall₂_nil_left_iff.1 hrun] at h
      exact h rfl
  · rw [find_beside hline hblanks hc] at h ⊢
    split at h
    · rename_i hblock
      rw [if_pos hblock]
      exact .beside hline hblanks hblock
    · exact absurd rfl h

/-- A line with a line comment is no line with a documentation block. -/
theorem notesOf_eq_nil_of_isBlock {outer : List (List Token)} (halone : visible line = [c])
    (hblock : isBlock c = true) : notesOf (line :: outer) = [] := by
  rw [notesOf_cons]
  cases hnote : note? line with
  | none => rfl
  | some c' =>
    rw [note?_eq_some_iff, halone, List.cons.injEq] at hnote
    rw [hnote.1.1, isBlock_of_isNote hnote.2] at hblock
    cases hblock

theorem Documents.find_eq {tokens cs : List Token} {i : Nat}
    (h : Documents (linesAbove (tokens.take i)) (lineStart (tokens.take i)) cs) :
    find tokens i = cs ∧ cs ≠ [] := by
  cases h with
  | beside line between block =>
    rw [find_beside line between (isBlanks_of_isBlock block), if_pos block]
    exact ⟨rfl, List.cons_ne_nil _ _⟩
  | @block outer line c first lines alone block =>
    rcases find_first first with ⟨r, habove, hfind⟩
    rw [lines, List.reverse_concat] at habove
    rw [hfind]
    rcases commentsAbove_true habove with ⟨_, _, c', hlines, halone, -, hc⟩ | ⟨hnone, -⟩
    · rw [List.cons.injEq] at hlines
      rw [hlines.1, halone, List.cons.injEq] at alone
      rw [hc, alone.1]
      exact ⟨rfl, List.cons_ne_nil _ _⟩
    · rw [hnone line rfl c alone] at block
      cases block
  | @notes outer run cs first lines nonempty alone maximal =>
    rcases find_first first with ⟨r, habove, hfind⟩
    have hcs := reverse_notesOf_eq_iff.2 ⟨outer, run, lines, alone, maximal⟩
    have hne : cs ≠ [] := by
      rintro rfl
      exact nonempty (List.forall₂_nil_right_iff.1 alone)
    rcases commentsAbove_true habove with ⟨line, rest, c, hlines, halone, hblock, -⟩ | ⟨-, hnotes⟩
    · rw [hlines, notesOf_eq_nil_of_isBlock halone hblock] at hcs
      exact absurd hcs.symm hne
    · rw [hfind, hnotes]
      exact ⟨hcs, hne⟩

/-- The comments found are those that document the token: none exactly if nothing does. -/
theorem find_eq_iff (tokens : List Token) (i : Nat) (cs : List Token) :
    find tokens i = cs ∧ cs ≠ [] ↔
      Documents (linesAbove (tokens.take i)) (lineStart (tokens.take i)) cs := by
  constructor
  · rintro ⟨rfl, hsome⟩
    exact documents_find hsome
  · exact Documents.find_eq

end ShaderStyle.Documentation
