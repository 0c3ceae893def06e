import Mathlib.Data.List.Forall2
import ShaderStyle.Proofs.Compliance.Findings
import ShaderStyle.Proofs.Documentation.Tags
import ShaderStyle.Proofs.Layout.Absorption

/-!
# Compliance of restyled outlines

Formatting changes an outline in two ways only: line breaks inside items are written anew, which no
check can tell (`SameItem`), and the line breaks between items become fewer, or one before a brace.

* `covered_of_tightened`: what stands on one line stays on one line, unless a brace is moved, so line
  markers still cover what they covered;
* `docsAt_alike`: comments document what they documented, as long as an empty line may be left;
* `compliesAt_formatted`: so a declaration that complies still does when its page is formatted.
-/

namespace ShaderStyle.Outline

open Lexer Layout Documentation

/-! ## Items -/

/-- The two lexemes differ at most in how line breaks inside a block comment or a directive are
written. -/
structure SameItem (l l' : Lexeme) : Prop where
  kind : l'.kind = l.kind
  marker : Marker.of? l' = Marker.of? l
  breakCount : Text.breakCount l'.text = Text.breakCount l.text
  parameterNames : parameterNames l'.commentBody = parameterNames l.commentBody
  returnCount : returnCount l'.commentBody = returnCount l.commentBody
  same : (∀ doc, l.kind ≠ .blockComment doc) → (∀ name, l.kind ≠ .directive name) → l' = l
  hash : ∀ name, l.kind = .directive name → l.text.head? = some '#' ∧ l'.text.head? = some '#'

theorem SameItem.refl_of {l : Lexeme} (h : ∀ name, l.kind = .directive name → l.text.head? = some '#') :
    SameItem l l :=
  ⟨rfl, rfl, rfl, rfl, rfl, fun _ _ => rfl, fun name hname => ⟨h name hname, h name hname⟩⟩

/-- Formatting an item changes nothing that a check could tell. -/
theorem sameItem_newItem {d : Dialect} {b : Bool} {l : Lexeme} {t : Text} (h : Reads d b l t)
    (rules : RuleSet) (kept : Bool) : SameItem l (newItem rules kept l) := by
  have hending := Text.isBreakText_lineEnding rules.lineEnding
  have hmarker := marker_newItem h rules kept
  have hhead := head?_newItem h rules kept
  rcases l with ⟨kind, text⟩
  have hhash : ∀ name, kind = .directive name → text.head? = some '#' := by
    rintro name rfl
    rcases h.exists_hash with ⟨-, x, rfl⟩
    rfl
  cases kept with
  | true => exact .refl_of hhash
  | false =>
    cases kind with
    | blockComment doc =>
      have hbody : (newItem rules false ⟨.blockComment doc, text⟩).commentBody =
          Text.withEnding rules.lineEnding.text (Lexeme.commentBody ⟨.blockComment doc, text⟩) :=
        h.commentBody_withEnding _
      refine ⟨rfl, hmarker, Text.breakCount_withEnding hending text, ?_, ?_, ?_, ?_⟩
      · rw [hbody, parameterNames_withEnding hending]
      · rw [hbody, returnCount_withEnding hending]
      · intro hnot
        exact absurd rfl (hnot doc)
      · intro name hname
        simp at hname
    | directive name =>
      refine ⟨rfl, hmarker, Text.breakCount_withEnding hending text, rfl, rfl, ?_, ?_⟩
      · intro _ hnot
        exact absurd rfl (hnot name)
      · intro other hother
        exact ⟨hhash other hother, hhead.trans (hhash other hother)⟩
    | _ => exact .refl_of hhash

/-! ## Declarations -/

theorem bared_same {l l' : Lexeme} (h : SameItem l l') (hsite : isSite l = true) (n : Nat) :
    Scan.bared ⟨l', n⟩ = Scan.bared ⟨l, n⟩ := by
  by_cases hdirective : ∃ name, l.kind = .directive name
  · rcases hdirective with ⟨name, hname⟩
    rcases h.hash name hname with ⟨hhead, hhead'⟩
    rcases List.head?_eq_some_iff.1 hhead with ⟨x, hx⟩
    rcases List.head?_eq_some_iff.1 hhead' with ⟨x', hx'⟩
    have hname' : l'.kind = .directive name := h.kind.trans hname
    rw [Scan.bared_eq (by simp [Site.isDirective, hname']) hx',
      Scan.bared_eq (by simp [Site.isDirective, hname]) hx]
    simp only [h.kind]
  · have hblock : ∀ doc, l.kind ≠ .blockComment doc := by
      rintro doc hdoc
      simp [isSite, hdoc, TokenKind.isTrivia, TokenKind.isComment] at hsite
    rw [h.same hblock fun name hname => hdirective ⟨name, hname⟩]

theorem sites_bared {ls ls' : List Lexeme} (h : List.Forall₂ SameItem ls ls') (n : Nat) :
    (sites n ls').map Scan.bared = (sites n ls).map Scan.bared := by
  induction h generalizing n with
  | nil => rfl
  | @cons l l' ls ls' hl _ ih =>
    have hsite : isSite l' = isSite l := by simp only [isSite, hl.kind]
    rw [sites, sites, hsite]
    split
    · rename_i hsite
      rw [List.map_cons, List.map_cons, ih, bared_same hl hsite]
    · exact ih (n + 1)

/-- The same declarations are found. -/
theorem declared_same {rows rows' : List Row}
    (h : List.Forall₂ SameItem (rows.map Row.item) (rows'.map Row.item)) (d : Dialect) :
    declared d rows' = declared d rows := by
  rw [declared, declared, ← Scan.declarations_bared, sites_bared h, Scan.declarations_bared]

/-! ## What is covered -/

/-- The items are the same, and a row that goes on a line still does. -/
structure Tightened (r r' : Row) : Prop where
  item : SameItem r.item r'.item
  breaks : r.breaks = 0 → r'.breaks = 0

theorem line_le_of_mem_spots {inside : Bool} {line : Int} {rows : List Row} {s : Spot}
    (h : s ∈ spots inside line rows) : line ≤ s.line := by
  induction rows generalizing inside line with
  | nil => simp [spots] at h
  | cons r rows ih =>
    rcases List.mem_cons.1 h with rfl | h
    · simp only
      omega
    · have hline := ih h
      omega

/-- Of two items that are the same, regions cover both or none. -/
theorem inside_same {rows rows' : List Row}
    (h : List.Forall₂ SameItem (rows.map Row.item) (rows'.map Row.item)) {inside : Bool}
    {line line' : Int} {k : Nat} {s s' : Spot} (hs : (spots inside line rows)[k]? = some s)
    (hs' : (spots inside line' rows')[k]? = some s') :
    s'.inside = s.inside ∧ s'.isMarked = s.isMarked := by
  induction rows generalizing rows' inside line line' k with
  | nil => simp [spots] at hs
  | cons r rows ih =>
    rcases rows' with _ | ⟨r', rows'⟩
    · simp [spots] at hs'
    rcases List.forall₂_cons.1 h with ⟨hr, hrows⟩
    cases k with
    | zero =>
      simp only [spots, List.getElem?_cons_zero, Option.some.injEq] at hs hs'
      subst hs hs'
      simp only [Spot.isMarked, keeps, hr.marker, and_self]
    | succ k =>
      have hafter : insideAfter .check inside r'.item = insideAfter .check inside r.item := by
        simp only [insideAfter, hr.marker]
      simp only [spots, List.getElem?_cons_succ, hafter] at hs hs'
      exact ih hrows hs hs'

/-- An item on the line on which the content before ends is still there. -/
theorem line_of_tightened {rows rows' : List Row} (h : List.Forall₂ Tightened rows rows')
    {inside inside' : Bool} {line line' : Int} {k : Nat} {s s' : Spot}
    (hs : (spots inside line rows)[k]? = some s) (hs' : (spots inside' line' rows')[k]? = some s')
    (hline : s.line = line) : s'.line = line' := by
  induction h generalizing inside inside' line line' k with
  | nil => simp [spots] at hs
  | @cons r r' rows rows' hr _ ih =>
    cases k with
    | zero =>
      simp only [spots, List.getElem?_cons_zero, Option.some.injEq] at hs hs'
      subst hs hs'
      simp only at hline ⊢
      have hbreaks := hr.breaks (by omega)
      omega
    | succ k =>
      simp only [spots, List.getElem?_cons_succ] at hs hs'
      -- the line does not change up to the item, so it does not at the first row either
      have hle := line_le_of_mem_spots (List.mem_of_getElem? hs)
      have hbreaks := hr.breaks (by omega)
      have hcount := hr.item.breakCount
      have hnext := ih hs hs' (by omega)
      omega

/-- Items that stand on one line still do. -/
theorem sameLine_of_tightened {rows rows' : List Row} (h : List.Forall₂ Tightened rows rows')
    {inside inside' : Bool} {line line' : Int} {i k : Nat} {m s m' s' : Spot}
    (hm : (spots inside line rows)[i]? = some m) (hs : (spots inside line rows)[k]? = some s)
    (hm' : (spots inside' line' rows')[i]? = some m')
    (hs' : (spots inside' line' rows')[k]? = some s') (hline : m.line = s.line) :
    m'.line = s'.line := by
  induction h generalizing inside inside' line line' i k with
  | nil => simp [spots] at hm
  | @cons r r' rows rows' hr hrows ih =>
    have hcount := hr.item.breakCount
    have hfirst {j : Nat} {z z' : Spot}
        (hz : (spots (insideAfter .check inside r.item)
          (line + r.breaks + Text.breakCount r.item.text) rows)[j]? = some z)
        (hz' : (spots (insideAfter .check inside' r'.item)
          (line' + r'.breaks + Text.breakCount r'.item.text) rows')[j]? = some z')
        (hzline : z.line = line + r.breaks) : z'.line = line' + r'.breaks := by
      have hle := line_le_of_mem_spots (List.mem_of_getElem? hz)
      have hnext := line_of_tightened hrows hz hz' (by omega)
      omega
    cases i with
    | zero =>
      simp only [spots, List.getElem?_cons_zero, Option.some.injEq] at hm hm'
      subst hm hm'
      cases k with
      | zero =>
        simp only [spots, List.getElem?_cons_zero, Option.some.injEq] at hs hs'
        subst hs hs'
        rfl
      | succ k =>
        simp only [spots, List.getElem?_cons_succ] at hs hs'
        exact (hfirst hs hs' hline.symm).symm
    | succ i =>
      simp only [spots, List.getElem?_cons_succ] at hm hm'
      cases k with
      | zero =>
        simp only [spots, List.getElem?_cons_zero, Option.some.injEq] at hs hs'
        subst hs hs'
        exact hfirst hm hm' hline
      | succ k =>
        simp only [spots, List.getElem?_cons_succ] at hs hs'
        exact ih hm hs hm' hs'

theorem covered_iff {rows : List Row} {k : Nat} :
    covered rows k = true ↔ ∃ s : Spot, (spots false 1 rows)[k]? = some s ∧
      (s.inside = true ∨ ∃ (i : Nat) (m : Spot), (spots false 1 rows)[i]? = some m ∧ m.isMarked = true ∧
        m.line = s.line) := by
  simp only [covered, Option.any_eq_true, Bool.or_eq_true, List.any_eq_true, Bool.and_eq_true,
    decide_eq_true_eq, List.mem_iff_getElem?]
  constructor
  · rintro ⟨s, hs, hinside | ⟨m, ⟨i, hm⟩, hmarked, hline⟩⟩
    · exact ⟨s, hs, .inl hinside⟩
    · exact ⟨s, hs, .inr ⟨i, m, hm, hmarked, hline⟩⟩
  · rintro ⟨s, hs, hinside | ⟨i, m, hm, hmarked, hline⟩⟩
    · exact ⟨s, hs, .inl hinside⟩
    · exact ⟨s, hs, .inr ⟨m, ⟨i, hm⟩, hmarked, hline⟩⟩

theorem exists_spot {rows rows' : List Row} (hlength : rows.length = rows'.length) {inside : Bool}
    {line : Int} {k : Nat} {s : Spot} (hs : (spots inside line rows)[k]? = some s) :
    ∃ s', (spots inside line rows')[k]? = some s' := by
  have hk : k < (spots inside line rows).length := (List.getElem?_eq_some_iff.1 hs).1
  have hk' : k < (spots inside line rows').length := by
    rw [length_spots] at hk ⊢
    omega
  exact ⟨_, List.getElem?_eq_getElem hk'⟩

/-- Where items that stood on one line still do, everything that was covered still is. -/
theorem covered_of_tightened {rows rows' : List Row} (h : List.Forall₂ Tightened rows rows') {k : Nat}
    (hk : covered rows k = true) : covered rows' k = true := by
  have hitems : List.Forall₂ SameItem (rows.map Row.item) (rows'.map Row.item) := by
    rw [List.forall₂_map_left_iff, List.forall₂_map_right_iff]
    exact h.imp fun _ _ hr => hr.item
  rw [covered_iff] at hk ⊢
  rcases hk with ⟨s, hs, hcovers⟩
  obtain ⟨s', hs'⟩ := exists_spot h.length_eq hs
  refine ⟨s', hs', ?_⟩
  rcases hcovers with hinside | ⟨i, m, hm, hmarked, hline⟩
  · exact .inl ((inside_same hitems hs hs').1.trans hinside)
  · obtain ⟨m', hm'⟩ := exists_spot h.length_eq hm
    exact .inr ⟨i, m', hm', (inside_same hitems hm hm').2.trans hmarked,
      sameLine_of_tightened h hm hs hm' hs' hline⟩

/-- Without line markers, what was covered lies in a region, and still does. -/
theorem covered_of_unmarked {rows rows' : List Row}
    (h : List.Forall₂ SameItem (rows.map Row.item) (rows'.map Row.item))
    (hunmarked : ∀ s ∈ spots false 1 rows, s.isMarked = false) {k : Nat}
    (hk : covered rows k = true) : covered rows' k = true := by
  have hlength : rows.length = rows'.length := by simpa using h.length_eq
  rw [covered_iff] at hk ⊢
  rcases hk with ⟨s, hs, hinside | ⟨i, m, hm, hmarked, -⟩⟩
  · obtain ⟨s', hs'⟩ := exists_spot hlength hs
    exact ⟨s', hs', .inl ((inside_same h hs hs').1.trans hinside)⟩
  · rw [hunmarked m (List.mem_of_getElem? hm)] at hmarked
    simp at hmarked

/-! ## Comments -/

/-- Both numbers of line breaks are none, one, or more. -/
def AlikeBreaks (n n' : Nat) : Prop :=
  (n = 0 ↔ n' = 0) ∧ (n = 1 ↔ n' = 1)

/-- The items are the same, and a comment has as many line breaks before it as far as it matters. -/
structure Commented (r r' : Row) : Prop where
  item : SameItem r.item r'.item
  breaks : r.item.kind.isComment = true → AlikeBreaks r.breaks r'.breaks

/-- The comments are the same, or one block on each side that says the same. -/
def DocsAlike (ls ls' : List Lexeme) : Prop :=
  ls' = ls ∨ ∃ l l', ls = [l] ∧ ls' = [l'] ∧ SameItem l l'

theorem isUnmarked_same {l l' : Lexeme} (h : SameItem l l') : isUnmarked l' = isUnmarked l := by
  simp only [isUnmarked, h.kind, h.marker]

theorem eq_of_lineComment {l l' : Lexeme} (h : SameItem l l') {doc : Bool}
    (hl : l.kind = .lineComment doc) : l' = l :=
  h.same (by simp [hl]) (by simp [hl])

theorem docsAbove_of_not_comment {r : Row} (h : r.item.kind.isComment = false) (first : Bool) (n : Nat)
    (above : List Row) : docsAbove first n (r :: above) = [] := by
  simp [docsAbove, isUnmarked, h]

theorem docsAbove_cons_alike {r r' : Row} (hr : SameItem r.item r'.item) {above above' : List Row}
    {n n' : Nat} (hn : n = 1 ↔ n' = 1)
    (halone : r.item.kind.isComment = true →
      (decide (r'.breaks ≠ 0) || above'.isEmpty) = (decide (r.breaks ≠ 0) || above.isEmpty))
    (hrest : r.item.kind.isComment = true →
      docsAbove false r'.breaks above' = docsAbove false r.breaks above) :
    docsAbove false n' (r' :: above') = docsAbove false n (r :: above) ∧
      DocsAlike (docsAbove true n (r :: above)) (docsAbove true n' (r' :: above')) := by
  by_cases hcomment : r.item.kind.isComment = true
  · have hcounts : (decide (n' = 1) && isUnmarked r'.item &&
        (decide (r'.breaks ≠ 0) || above'.isEmpty)) =
          (decide (n = 1) && isUnmarked r.item && (decide (r.breaks ≠ 0) || above.isEmpty)) := by
      rw [isUnmarked_same hr, halone hcomment]
      simp only [hn]
    have hrest := hrest hcomment
    simp only [docsAbove, hcounts, hr.kind]
    split
    · cases hkind : r.item.kind with
      | blockComment doc =>
        cases doc with
        | true => exact ⟨rfl, .inr ⟨_, _, rfl, rfl, hr⟩⟩
        | false => exact ⟨rfl, .inl rfl⟩
      | lineComment doc =>
        have hitem := eq_of_lineComment hr hkind
        simp only [hitem, hrest, true_and]
        exact .inl rfl
      | _ => exact ⟨rfl, .inl rfl⟩
    · exact ⟨rfl, .inl rfl⟩
  · rw [Bool.not_eq_true] at hcomment
    have hcomment' : r'.item.kind.isComment = false := by rw [hr.kind, hcomment]
    simp only [docsAbove_of_not_comment hcomment, docsAbove_of_not_comment hcomment', true_and]
    exact .inl rfl

theorem docsBefore_of_ne_zero {n : Nat} (hn : n ≠ 0) (above : List Row) :
    docsBefore n above = (docsAbove true n above).reverse := by
  unfold docsBefore
  rw [if_neg hn]

theorem docsBefore_of_not_comment {r : Row} (h : r.item.kind.isComment = false) (n : Nat)
    (above : List Row) : docsBefore n (r :: above) = [] := by
  by_cases hn : n = 0
  · have hdoc : r.item.kind ≠ .blockComment true := by
      intro hdoc
      simp [hdoc, TokenKind.isComment] at h
    simp [docsBefore, hn, hdoc]
  · rw [docsBefore_of_ne_zero hn, docsAbove_of_not_comment h]
    rfl

/-- The rows are the same, and wherever a comment stands before or behind them, so are the line breaks
as far as they matter; `comment` says whether one stands before the first row. -/
def Spaced (comment : Bool) : List Row → List Row → Prop
  | [], [] => True
  | r :: rows, r' :: rows' =>
    Commented r r' ∧ (comment = true → AlikeBreaks r.breaks r'.breaks) ∧
      Spaced r.item.kind.isComment rows rows'
  | _, _ => False

theorem Spaced.length_eq {comment : Bool} {rows rows' : List Row} (h : Spaced comment rows rows') :
    rows.length = rows'.length := by
  induction rows generalizing comment rows' with
  | nil =>
    rcases rows' with _ | ⟨r', rows'⟩
    · rfl
    · exact h.elim
  | cons r rows ih =>
    rcases rows' with _ | ⟨r', rows'⟩
    · exact h.elim
    · simpa using ih h.2.2

section Comments

variable {first first' : Row} (hfirst : SameItem first.item first'.item)

include hfirst

/-- The run of comments above a line is the same in both outlines; the line breaks before the first
row do not matter. -/
theorem docsAbove_alike {above above' : List Row} (h : List.Forall₂ Commented above above')
    {n n' : Nat} (hn : n = 1 ↔ n' = 1) :
    docsAbove false n' (above' ++ [first']) = docsAbove false n (above ++ [first]) ∧
      DocsAlike (docsAbove true n (above ++ [first])) (docsAbove true n' (above' ++ [first'])) := by
  induction h generalizing n n' with
  | nil =>
    apply docsAbove_cons_alike hfirst hn
    · intro _
      simp
    · intro _
      rfl
  | @cons r r' above above' hr _ ih =>
    apply docsAbove_cons_alike hr.item hn
    · intro hcomment
      have hempty (rows : List Row) (r : Row) : (rows ++ [r]).isEmpty = false := by
        cases rows <;> rfl
      simp [(hr.breaks hcomment).1, hempty]
    · intro hcomment
      exact (ih (hr.breaks hcomment).2).1

theorem exists_heads {above above' : List Row} (h : List.Forall₂ Commented above above') :
    ∃ r r' rows rows', above ++ [first] = r :: rows ∧ above' ++ [first'] = r' :: rows' ∧
      SameItem r.item r'.item := by
  cases h with
  | nil => exact ⟨_, _, _, _, rfl, rfl, hfirst⟩
  | cons hr _ => exact ⟨_, _, _, _, rfl, rfl, hr.item⟩

/-- What follows is documented by the same comments, if as many line breaks stand before it as far as
it matters, or no comment does. -/
theorem docsBefore_alike {above above' : List Row} (h : List.Forall₂ Commented above above')
    {n n' : Nat}
    (hn : AlikeBreaks n n' ∨ ∀ r ∈ (above ++ [first]).head?, r.item.kind.isComment = false) :
    DocsAlike (docsBefore n (above ++ [first])) (docsBefore n' (above' ++ [first'])) := by
  rcases exists_heads hfirst h with ⟨r, r', rows, rows', hrows, hrows', hr⟩
  rcases hn with hn | hnone
  · by_cases hzero : n = 0
    · -- on the same line, only a block right before counts
      have hzero' := hn.1.1 hzero
      have hdoc : (decide (r'.item.kind = .blockComment true) && decide (Marker.of? r'.item = none)) =
          (decide (r.item.kind = .blockComment true) && decide (Marker.of? r.item = none)) := by
        rw [hr.kind, hr.marker]
      rw [hrows, hrows', hzero, hzero']
      simp only [docsBefore, if_true, hdoc]
      split
      · exact .inr ⟨_, _, rfl, rfl, hr⟩
      · exact .inl rfl
    · have hzero' : n' ≠ 0 := fun h => hzero (hn.1.2 h)
      rw [docsBefore_of_ne_zero hzero, docsBefore_of_ne_zero hzero']
      rcases (docsAbove_alike hfirst h hn.2).2 with heq | ⟨l, l', hl, hl', hsame⟩
      · exact .inl (congrArg List.reverse heq)
      · rw [hl, hl']
        exact .inr ⟨l, l', rfl, rfl, hsame⟩
  · rw [hrows] at hnone ⊢
    have hcomment := hnone r rfl
    have hcomment' : r'.item.kind.isComment = false := by rw [hr.kind, hcomment]
    rw [hrows', docsBefore_of_not_comment hcomment, docsBefore_of_not_comment hcomment']
    exact .inl rfl

/-- The rows behind some others are documented alike. -/
theorem docsBefore_spaced {rows rows' : List Row} {comment : Bool} (h : Spaced comment rows rows')
    {above above' : List Row} (habove : List.Forall₂ Commented above above')
    (hcomment : ∀ r ∈ (above ++ [first]).head?, r.item.kind.isComment = comment) {k : Nat}
    {r r' : Row} (hr : rows[k]? = some r) (hr' : rows'[k]? = some r') :
    DocsAlike (docsBefore r.breaks ((rows.take k).reverse ++ (above ++ [first])))
      (docsBefore r'.breaks ((rows'.take k).reverse ++ (above' ++ [first']))) := by
  -- by induction over the rows; those that are passed join the rows above
  induction rows generalizing rows' comment above above' k with
  | nil => simp at hr
  | cons s rows ih =>
    rcases rows' with _ | ⟨s', rows'⟩
    · simp at hr'
    rcases h with ⟨hs, hspace, hmore⟩
    cases k with
    | zero =>
      simp only [List.getElem?_cons_zero, Option.some.injEq] at hr hr'
      subst hr hr'
      apply docsBefore_alike hfirst habove
      cases comment with
      | true => exact .inl (hspace rfl)
      | false => exact .inr hcomment
    | succ k =>
      rw [List.getElem?_cons_succ] at hr hr'
      have hnext := ih hmore (.cons hs habove) (by simp) hr hr'
      simpa using hnext

/-- In outlines whose comments and what follows them are spaced alike, everything is documented
alike. -/
theorem docsAt_alike {rows rows' : List Row} (h : Spaced first.item.kind.isComment rows rows')
    (k : Nat) : DocsAlike (docsAt (first :: rows) k) (docsAt (first' :: rows') k) := by
  have hnil (n : Nat) : docsBefore n [] = [] := by
    unfold docsBefore
    split <;> rfl
  cases k with
  | zero =>
    left
    simp [docsAt, hnil]
  | succ k =>
    have hlength := h.length_eq
    simp only [docsAt, List.getElem?_cons_succ, List.take_succ_cons, List.reverse_cons]
    cases hr : rows[k]? with
    | none =>
      have hr' : rows'[k]? = none := by
        rw [List.getElem?_eq_none_iff] at hr ⊢
        omega
      rw [hr']
      exact .inl rfl
    | some r =>
      obtain ⟨r', hr'⟩ : ∃ r', rows'[k]? = some r' := by
        have hk : k < rows'.length := by
          have := (List.getElem?_eq_some_iff.1 hr).1
          omega
        exact ⟨_, List.getElem?_eq_getElem hk⟩
      rw [hr']
      exact docsBefore_spaced hfirst h .nil (by simp) hr hr'

end Comments

/-- Comments that say the same document the same. -/
theorem documented_alike {rules : RuleSet} {x : Declaration} {ls ls' : List Lexeme}
    (halike : DocsAlike ls ls') (h : Documented rules x ls) : Documented rules x ls' := by
  rcases halike with rfl | ⟨l, l', rfl, rfl, hsame⟩
  · exact h
  · have htext (l : Lexeme) : docsText [l] = l.commentBody := by simp [docsText]
    have hsome : ([l'] ≠ []) = ([l] ≠ []) := by simp
    unfold Documented at h ⊢
    rw [htext] at h ⊢
    rw [hsame.parameterNames, hsame.returnCount, hsome]
    exact h

/-! ## The formatted page -/

variable {rules : RuleSet} {edges : Nat → Option Text}

/-- The line breaks that formatting leaves before an item. -/
theorem breaks_newGap_eq (here : Layout.Place) (c : Layout.Cell) :
    Layout.breaks (newGap rules edges here c) =
      if c.inside then Layout.breaks c.gap
      else if c.isPlaced here then
        match rules.openBrace with
        | .sameLine => 0
        | .ownLine => 1
      else breaksLeft rules here.start (Layout.breaks c.gap) := by
  unfold newGap
  split
  · rfl
  split
  · cases rules.openBrace with
    | sameLine => exact breaks_blanks _
    | ownLine => simp [breaks_cons, breaks_blanks, newline, Lexeme.isNewline]
  split
  · rw [breaks_append, breaks_newBreaks]
    split
    · rw [breaks_lastBlanks, Nat.add_zero]
    · rw [breaks_blanks, Nat.add_zero]
  · rename_i hline
    have hgap : Layout.breaks c.gap = 0 := by
      simp only [Bool.or_eq_true, not_or, decide_eq_true_eq, Decidable.not_not] at hline
      exact hline.2
    have hleft : breaksLeft rules here.start (Layout.breaks c.gap) = 0 := by
      simp [breaksLeft, hgap]
    rw [hleft]
    split
    · exact breaks_blanks _
    · exact hgap

/-- Formatting keeps the items of the cells the same. -/
def ItemsStay (rules : RuleSet) (cells : List Layout.Cell) : Prop :=
  ∀ c ∈ cells, SameItem c.item (newItem rules c.kept c.item)

theorem sameItem_newCells {cells : List Layout.Cell} (hstay : ItemsStay rules cells)
    (here : Layout.Place) :
    List.Forall₂ SameItem ((cells.map Cell.row).map Row.item)
      (((newCells rules edges here cells).map Cell.row).map Row.item) := by
  induction cells generalizing here with
  | nil => exact .nil
  | cons c cells ih =>
    exact .cons (hstay c (by simp)) (ih (fun c hc => hstay c (by simp [hc])) (here.after rules c))

/-- If braces stay on the line of their header, what stands on one line still does. -/
theorem tightened_newCells (hbrace : rules.openBrace = .sameLine) {cells : List Layout.Cell}
    (hstay : ItemsStay rules cells) (here : Layout.Place) :
    List.Forall₂ Tightened (cells.map Cell.row) ((newCells rules edges here cells).map Cell.row) := by
  induction cells generalizing here with
  | nil => exact .nil
  | cons c cells ih =>
    refine .cons ⟨hstay c (by simp), ?_⟩
      (ih (fun c hc => hstay c (by simp [hc])) (here.after rules c))
    intro hzero
    have hzero : Layout.breaks c.gap = 0 := hzero
    show Layout.breaks (newGap rules edges here c) = 0
    rw [breaks_newGap_eq, hzero, hbrace]
    simp [breaksLeft]

theorem alikeBreaks_breaksLeft (hmax : 1 ≤ rules.maxEmptyLines) (n : Nat) :
    AlikeBreaks n (breaksLeft rules false n) := by
  unfold breaksLeft AlikeBreaks
  by_cases hn : n = 0
  · simp [hn]
  · simp only [Bool.false_eq_true, if_false, if_neg hn]
    omega

theorem not_isComment_of_isPlaced {here : Layout.Place} {c : Layout.Cell}
    (h : c.isPlaced here = true) :
    c.item.kind.isComment = false := by
  simp only [Cell.isPlaced, Lexeme.isMark, Bool.and_eq_true, decide_eq_true_eq] at h
  rw [h.1.1.1]
  rfl

theorem not_isComment_of_endsHeader {c : Layout.Cell} (h : endsHeader c.piece = true) :
    c.item.kind.isComment = false := by
  cases hk : c.item.kind <;> simp [endsHeader, Cell.piece, hk] at h <;> rfl

/-- If an empty line may be left, comments and what follows them are spaced alike. -/
theorem spaced_newCells (hmax : 1 ≤ rules.maxEmptyLines) {cells : List Layout.Cell}
    (hstay : ItemsStay rules cells) {here : Layout.Place} {comment : Bool}
    (hstart : here.start = false)
    (hheader : here.header = true → comment = false) :
    Spaced comment (cells.map Cell.row) ((newCells rules edges here cells).map Cell.row) := by
  induction cells generalizing here comment with
  | nil => trivial
  | cons c cells ih =>
    have hbreaks : AlikeBreaks (Layout.breaks c.gap) (Layout.breaks (newGap rules edges here c)) ∨
        c.isPlaced here = true := by
      rw [breaks_newGap_eq, hstart]
      split
      · exact .inl ⟨Iff.rfl, Iff.rfl⟩
      · split
        · exact .inr (by assumption)
        · exact .inl (alikeBreaks_breaksLeft hmax _)
    refine ⟨⟨hstay c (by simp), ?_⟩, ?_, ih (fun c hc => hstay c (by simp [hc])) rfl ?_⟩
    · intro hcomment
      rcases hbreaks with hbreaks | hplaced
      · exact hbreaks
      · have hitem : c.item.kind.isComment = true := hcomment
        simp [not_isComment_of_isPlaced hplaced] at hitem
    · intro hcomment
      rcases hbreaks with hbreaks | hplaced
      · exact hbreaks
      · -- a brace is placed only behind a header, which is no comment
        simp only [Cell.isPlaced, Bool.and_eq_true] at hplaced
        simp [hheader hplaced.2] at hcomment
    · intro hnext
      simp only [Place.after, Bool.and_eq_true] at hnext
      exact not_isComment_of_endsHeader hnext.1

theorem isMarked_eq_false {cells : List Layout.Cell}
    (h : ∀ c ∈ cells, Marker.of? c.item ≠ some .line)
    {inside : Bool} {line : Int} :
    ∀ s ∈ spots inside line (cells.map Cell.row), s.isMarked = false := by
  induction cells generalizing inside line with
  | nil => simp [spots]
  | cons c cells ih =>
    intro s hs
    rcases List.mem_cons.1 hs with rfl | hs
    · exact decide_eq_false (h c (by simp))
    · exact ih (fun c hc => h c (by simp [hc])) s hs

/-- No kind of declaration has to be documented. -/
def NoDocs (rules : RuleSet) : Prop :=
  rules.functionDocs ≠ some true ∧ rules.structDocs ≠ some true ∧ rules.fieldDocs ≠ some true

theorem documented_of_noDocs (hdocs : NoDocs rules) (x : Declaration) (comments : List Lexeme) :
    Documented rules x comments := by
  rcases hdocs with ⟨hfunction, hstruct, hfield⟩
  unfold Documented
  split
  · rename_i rule hrule
    cases hk : x.kind <;> simp [hk, Compliance.docRule?] at hrule
    · exact absurd hrule.2 hfunction
    · exact absurd hrule.2 hstruct
    · exact absurd hrule.2 hfield
  · trivial

theorem docsAt_formatted (hmax : 1 ≤ rules.maxEmptyLines) {p : Page}
    (hstay : ItemsStay rules p.cells) (k : Nat) :
    DocsAlike (docsAt p.outline k) (docsAt (p.formatted rules).outline k) := by
  rcases p with ⟨_ | ⟨c, cells⟩, tail, after⟩
  · exact .inl rfl
  · refine docsAt_alike (hstay c (by simp)) (spaced_newCells hmax ?_ rfl ?_) k
    · intro c hc
      exact hstay c (by simp [hc])
    · intro hheader
      simp only [Place.after, Bool.and_eq_true] at hheader
      exact not_isComment_of_endsHeader hheader.1

/-- A declaration that complies still does when it is formatted, unless braces are moved and line
markers are about, or empty lines are dropped and documentation is asked for. -/
theorem compliesAt_formatted {p : Page} (hstay : ItemsStay rules p.cells)
    (hlines : rules.openBrace = .sameLine ∨ ∀ c ∈ p.cells, Marker.of? c.item ≠ some .line)
    (hdocs : 1 ≤ rules.maxEmptyLines ∨ NoDocs rules) {x : Declaration}
    (h : CompliesAt rules p.outline x) : CompliesAt rules (p.formatted rules).outline x := by
  intro huncovered
  have huncovered' : covered p.outline x.nameIndex = false := by
    rw [← Bool.not_eq_true] at huncovered ⊢
    intro hcovered
    apply huncovered
    rcases hlines with hbrace | hunmarked
    · exact covered_of_tightened (tightened_newCells hbrace hstay {}) hcovered
    · exact covered_of_unmarked (sameItem_newCells hstay {}) (isMarked_eq_false hunmarked) hcovered
  rcases h huncovered' with ⟨hnamed, hdocumented⟩
  refine ⟨hnamed, ?_⟩
  rcases hdocs with hmax | hnone
  · exact documented_alike (docsAt_formatted hmax hstay _) hdocumented
  · exact documented_of_noDocs hnone _ _

theorem declared_formatted {p : Page} (hstay : ItemsStay rules p.cells) (d : Dialect) :
    declared d (p.formatted rules).outline = declared d p.outline :=
  declared_same (sameItem_newCells hstay {}) d

end ShaderStyle.Outline
