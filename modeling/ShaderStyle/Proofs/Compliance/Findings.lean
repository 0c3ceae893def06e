import ShaderStyle.Proofs.Compliance.Outline
import ShaderStyle.Proofs.Documentation.Comments

/-!
# What the checks find

The comments that document a token are read off the outline (`map_find`), and so is everything else
that the checks look at: they find nothing exactly if the outline complies (`check_eq_nil_iff`).
-/

namespace ShaderStyle.Outline

open Lexer Layout Documentation

/-! ## Gaps from behind -/

/-- Whether a lexeme is blanks within a line. -/
def isBlanks (l : Lexeme) : Bool :=
  l.kind = .whitespace

/-- Behind the blanks at its start, layout has nothing or a line break. -/
theorem cases_dropWhile {g : List Lexeme} (hg : ∀ l ∈ g, l.kind.isLayout = true) :
    (g.dropWhile isBlanks = [] ∧ breaks g = 0) ∨
      ∃ l h, g.dropWhile isBlanks = l :: h ∧ l.kind = .lineBreak ∧ breaks g = breaks h + 1 ∧
        ∀ l ∈ h, l.kind.isLayout = true := by
  induction g with
  | nil => exact .inl ⟨rfl, rfl⟩
  | cons l g ih =>
    have hl := hg l (by simp)
    have hmore : ∀ l ∈ g, l.kind.isLayout = true := fun l hl => hg l (by simp [hl])
    by_cases hblank : l.kind = .whitespace
    · have hdrop : (l :: g).dropWhile isBlanks = g.dropWhile isBlanks := by simp [isBlanks, hblank]
      have hbreaks : breaks (l :: g) = breaks g := by simp [breaks_cons, Lexeme.isNewline, hblank]
      rw [hdrop, hbreaks]
      exact ih hmore
    · have hnewline : l.kind = .lineBreak := by
        cases hk : l.kind <;> simp [hk, TokenKind.isLayout] at hl hblank
        rfl
      refine .inr ⟨l, g, ?_, hnewline, ?_, hmore⟩
      · simp [isBlanks, hblank]
      · simp [breaks_cons, Lexeme.isNewline, hnewline]

/-- The lexemes of some cells, from behind. -/
def reversed (cells : List Layout.Cell) : List Lexeme :=
  cells.flatMap fun c => c.item :: c.gap.reverse

theorem reverse_flatMap_lexemes (cells : List Layout.Cell) :
    (cells.flatMap Cell.lexemes).reverse = reversed cells.reverse := by
  induction cells with
  | nil => rfl
  | cons c cells ih =>
    rw [List.flatMap_cons, List.reverse_append, ih, List.reverse_cons]
    simp [reversed, Cell.lexemes]

/-- The cells are made of layout and content. -/
def Parted (cells : List Layout.Cell) : Prop :=
  ∀ c ∈ cells, (∀ l ∈ c.gap, l.kind.isLayout = true) ∧ c.item.kind.isLayout = false

/-- The blanks before some cells, from behind, end with the gap. -/
theorem dropWhile_append_reversed {cells : List Layout.Cell} (hcells : Parted cells)
    (g : List Lexeme) :
    (g ++ reversed cells).dropWhile isBlanks = g.dropWhile isBlanks ++ reversed cells := by
  have hstop : (reversed cells).dropWhile isBlanks = reversed cells := by
    cases cells with
    | nil => rfl
    | cons c cells =>
      have hitem := (hcells c (by simp)).2
      have hblanks : isBlanks c.item = false := by
        rw [← Bool.not_eq_true]
        intro hblanks
        rw [of_decide_eq_true hblanks] at hitem
        simp [TokenKind.isLayout] at hitem
      simp [reversed, hblanks]
  rw [List.dropWhile_append]
  split
  · rename_i hempty
    rw [hstop, List.isEmpty_iff.1 hempty]
    rfl
  · rfl

/-! ## Comments above -/

theorem map_dropWhile (tokens : List Token) :
    (tokens.dropWhile Documentation.isBlanks).map Token.toLexeme =
      (tokens.map Token.toLexeme).dropWhile isBlanks := by
  rw [List.dropWhile_map]
  rfl

theorem docsAbove_eq_nil {n : Nat} (hn : n ≠ 1) (first : Bool) (above : List Row) :
    docsAbove first n above = [] := by
  cases above with
  | nil => rfl
  | cons r above => simp [docsAbove, hn]

/-- Comments count only behind a single line break. -/
theorem commentsAbove_gap {cells : List Layout.Cell} (hcells : Parted cells) {g : List Lexeme}
    (hg : ∀ l ∈ g, l.kind.isLayout = true) {tokens : List Token}
    (htokens : tokens.map Token.toLexeme = g.dropWhile isBlanks ++ reversed cells) :
    (breaks g ≠ 1 ∧ ∀ first, commentsAbove first tokens = []) ∨
      breaks g = 1 ∧ ∃ t above, tokens = t :: above ∧ t.kind = .lineBreak ∧
        (above.dropWhile Documentation.isBlanks).map Token.toLexeme = reversed cells := by
  rcases cases_dropWhile hg with ⟨hdrop, hbreaks⟩ | ⟨l, h, hdrop, hl, hbreaks, hlayout⟩
  · -- no line break: what stands before is on the same line
    refine .inl ⟨by omega, ?_⟩
    intro first
    rw [hdrop, List.nil_append] at htokens
    cases cells with
    | nil =>
      rw [List.map_eq_nil_iff.1 htokens]
      simp [commentsAbove]
    | cons c cells =>
      rcases List.map_eq_cons_iff.1 htokens with ⟨t, above, rfl, ht, -⟩
      have hitem := (hcells c (by simp)).2
      rw [← ht] at hitem
      rw [commentsAbove_cons, if_neg]
      intro hkind
      rw [hkind] at hitem
      simp [TokenKind.isLayout] at hitem
  rw [hdrop, List.cons_append] at htokens
  rcases List.map_eq_cons_iff.1 htokens with ⟨t, above, rfl, rfl, habove⟩
  have hmore : (above.dropWhile Documentation.isBlanks).map Token.toLexeme =
      h.dropWhile isBlanks ++ reversed cells := by
    rw [map_dropWhile, habove, dropWhile_append_reversed hcells]
  rcases cases_dropWhile hlayout with ⟨hdrop', hbreaks'⟩ | ⟨l', h', hdrop', hl', hbreaks', -⟩
  · rw [hdrop', List.nil_append] at hmore
    exact .inr ⟨by omega, t, above, rfl, hl, hmore⟩
  · -- an empty line
    refine .inl ⟨by omega, ?_⟩
    intro first
    rw [hdrop', List.cons_append] at hmore
    rcases List.map_eq_cons_iff.1 hmore with ⟨comment, more, hfound, rfl, -⟩
    have hcomment : isUnmarkedComment comment = false := by
      simp [isUnmarkedComment, hl', TokenKind.isComment]
    rw [commentsAbove_cons, if_pos hl, hfound]
    simp [hcomment]

/-- A comment is alone on its line if a line break or nothing stands before it. -/
theorem all_lineBreak {cells : List Layout.Cell} (hcells : Parted cells) {g : List Lexeme}
    (hg : ∀ l ∈ g, l.kind.isLayout = true) {tokens : List Token}
    (htokens : tokens.map Token.toLexeme = g.dropWhile isBlanks ++ reversed cells) :
    tokens.head?.all (fun t => t.kind = .lineBreak) = (breaks g ≠ 0 || cells.isEmpty) := by
  rcases cases_dropWhile hg with ⟨hdrop, hbreaks⟩ | ⟨l, h, hdrop, hl, hbreaks, -⟩
  · rw [hdrop, List.nil_append] at htokens
    cases cells with
    | nil =>
      rw [List.map_eq_nil_iff.1 htokens]
      simp
    | cons c cells =>
      rcases List.map_eq_cons_iff.1 htokens with ⟨t, more, rfl, ht, -⟩
      have hitem := (hcells c (by simp)).2
      rw [← ht] at hitem
      have hkind : t.kind ≠ .lineBreak := by
        intro hkind
        rw [hkind] at hitem
        simp [TokenKind.isLayout] at hitem
      simp [hkind, hbreaks]
  · rw [hdrop, List.cons_append] at htokens
    rcases List.map_eq_cons_iff.1 htokens with ⟨t, more, rfl, rfl, -⟩
    simp [hl, hbreaks]

/-- The comments above a line are read off the rows above it. -/
theorem map_commentsAbove {cells : List Layout.Cell} (hcells : Parted cells) {g : List Lexeme}
    (hg : ∀ l ∈ g, l.kind.isLayout = true) {tokens : List Token}
    (htokens : tokens.map Token.toLexeme = g.dropWhile isBlanks ++ reversed cells) (first : Bool) :
    (commentsAbove first tokens).map Token.toLexeme =
      docsAbove first (breaks g) (cells.map Cell.row) := by
  -- by induction over the rows, nearest first; `g` is the gap below the first of them
  induction cells generalizing g tokens first with
  | nil =>
    rcases commentsAbove_gap hcells hg htokens with ⟨-, hnil⟩ | ⟨-, t, above, rfl, ht, habove⟩
    · rw [hnil]
      rfl
    · rw [commentsAbove_cons, if_pos ht, List.map_eq_nil_iff.1 habove]
      rfl
  | cons c cells ih =>
    rcases commentsAbove_gap hcells hg htokens with ⟨hn, hnil⟩ | ⟨hn, t, above, rfl, ht, habove⟩
    · rw [hnil, docsAbove_eq_nil hn]
      rfl
    rcases List.map_eq_cons_iff.1 habove with ⟨comment, more, hmore, hcomment, hgap⟩
    have hparted : Parted cells := fun c hc => hcells c (by simp [hc])
    have hlayout : ∀ l ∈ c.gap.reverse, l.kind.isLayout = true := by
      intro l hl
      exact (hcells c (by simp)).1 l (List.mem_reverse.1 hl)
    have houter : (more.dropWhile Documentation.isBlanks).map Token.toLexeme =
        c.gap.reverse.dropWhile isBlanks ++ reversed cells := by
      rw [map_dropWhile, hgap, ← dropWhile_append_reversed hparted]
      rfl
    have hbreaks : breaks c.gap.reverse = breaks c.gap := by simp [breaks]
    have hrest := ih hparted hlayout houter false
    have halone := all_lineBreak hparted hlayout houter
    have hunmarked : isUnmarkedComment comment = isUnmarked c.item := by
      rw [← hcomment]
      rfl
    have hkind : c.row.item.kind = comment.kind := congrArg Lexeme.kind hcomment.symm
    rw [hbreaks] at hrest halone
    have hcounts : (decide (breaks g = 1) && isUnmarked c.row.item &&
        (decide (c.row.breaks ≠ 0) || (cells.map Cell.row).isEmpty)) =
          (isUnmarkedComment comment &&
            (more.dropWhile Documentation.isBlanks).head?.all fun t => t.kind = .lineBreak) := by
      rw [hn, hunmarked, halone, List.isEmpty_map]
      rfl
    rw [commentsAbove_cons, if_pos ht, hmore, List.map_cons, docsAbove, hcounts]
    show List.map Token.toLexeme (if _ then _ else _) = if _ then _ else _
    split
    · rw [hkind]
      cases comment.kind with
      | blockComment doc =>
        cases doc with
        | true =>
          cases first with
          | true => exact congrArg (fun l => [l]) hcomment
          | false => rfl
        | false => rfl
      | lineComment doc =>
        rw [List.map_cons, hcomment, hrest]
        rfl
      | _ => rfl
    · rfl

/-! ## Comments of a declaration -/

theorem take_indexOf {cells : List Layout.Cell} (more : List Lexeme) {k : Nat} {c : Layout.Cell}
    (hk : cells[k]? = some c) :
    (cells.flatMap Cell.lexemes ++ more).take (indexOf cells k) =
      (cells.take k).flatMap Cell.lexemes ++ c.gap := by
  induction cells generalizing k with
  | nil => simp at hk
  | cons head cells ih =>
    have hsplit : (head :: cells).flatMap Cell.lexemes ++ more =
        head.gap ++ head.item :: (cells.flatMap Cell.lexemes ++ more) := by
      simp [Cell.lexemes]
    rw [hsplit]
    cases k with
    | zero =>
      simp only [List.getElem?_cons_zero, Option.some.injEq] at hk
      subst hk
      simp [indexOf]
    | succ k =>
      rw [List.getElem?_cons_succ] at hk
      have hindex : indexOf (head :: cells) (k + 1) = head.gap.length + (indexOf cells k + 1) := by
        rw [indexOf]
        omega
      rw [hindex, List.take_length_add_append, List.take_succ_cons, ih hk]
      simp [Cell.lexemes]

/-- The comments that document what stands behind some tokens, which come in reverse order. -/
theorem map_docsBefore {cells : List Layout.Cell} (hcells : Parted cells) {g : List Lexeme}
    (hg : ∀ l ∈ g, l.kind.isLayout = true) {tokens : List Token}
    (htokens : tokens.map Token.toLexeme = g.dropWhile isBlanks ++ reversed cells) :
    (match tokens with
      | [] => []
      | t :: above =>
        if t.kind = TokenKind.blockComment true && Marker.of? t.toLexeme = none then [t]
        else (commentsAbove true (t :: above)).reverse).map Token.toLexeme =
      docsBefore (breaks g) (cells.map Cell.row) := by
  have habove := map_commentsAbove hcells hg htokens true
  rcases cases_dropWhile hg with ⟨hdrop, hbreaks⟩ | ⟨l, h, hdrop, hl, hbreaks, -⟩
  · rw [hdrop, List.nil_append] at htokens
    rw [hbreaks, docsAbove_eq_nil (by decide)] at habove
    rw [hbreaks]
    cases cells with
    | nil =>
      rw [List.map_eq_nil_iff.1 htokens]
      rfl
    | cons c cells =>
      rcases List.map_eq_cons_iff.1 htokens with ⟨t, more, rfl, ht, -⟩
      have hdocs : (decide (c.row.item.kind = .blockComment true) &&
          decide (Marker.of? c.row.item = none)) =
            (decide (t.kind = .blockComment true) && decide (Marker.of? t.toLexeme = none)) := by
        rw [show c.row.item = t.toLexeme from ht.symm]
      simp only [docsBefore, if_true, List.map_cons, hdocs]
      split
      · exact congrArg (fun l => [l]) ht
      · rw [List.map_reverse, habove]
        rfl
  · rw [hdrop, List.cons_append] at htokens
    rcases List.map_eq_cons_iff.1 htokens with ⟨t, more, rfl, rfl, -⟩
    unfold docsBefore
    rw [if_neg (by omega), ← habove, ← List.map_reverse]
    simp [hl]

/-- The comments that document the token of an item are those that document the item. -/
theorem map_find {cells : List Layout.Cell} (hcells : Parted cells) {tokens : List Token}
    {more : List Lexeme} (htokens : tokens.map Token.toLexeme = cells.flatMap Cell.lexemes ++ more)
    {k : Nat} {c : Layout.Cell} (hk : cells[k]? = some c) :
    (find tokens (indexOf cells k)).map Token.toLexeme = docsAt (cells.map Cell.row) k := by
  have hparted : Parted (cells.take k).reverse := fun c hc =>
    hcells c (List.mem_of_mem_take (List.mem_reverse.1 hc))
  have hlayout : ∀ l ∈ c.gap.reverse, l.kind.isLayout = true := by
    intro l hl
    exact (hcells c (List.mem_of_getElem? hk)).1 l (List.mem_reverse.1 hl)
  have hbefore : ((tokens.take (indexOf cells k)).reverse.dropWhile Documentation.isBlanks).map
      Token.toLexeme = c.gap.reverse.dropWhile isBlanks ++ reversed (cells.take k).reverse := by
    rw [map_dropWhile, List.map_reverse, List.map_take, htokens, take_indexOf more hk,
      List.reverse_append, reverse_flatMap_lexemes, dropWhile_append_reversed hparted]
  have hdocs := map_docsBefore hparted hlayout hbefore
  have hbreaks : breaks c.gap.reverse = breaks c.gap := by simp [breaks]
  refine Eq.trans hdocs ?_
  rw [docsAt, List.getElem?_map, hk, ← List.map_take, ← List.map_reverse, hbreaks]
  rfl

/-! ## Names -/

/-- A finding about another place. -/
def relocated (span : Span) (x : Diagnostic) : Diagnostic :=
  { x with span := span }

theorem checkCase_relocated (b : Binding) (span span' : Span) (rule : String)
    (style : Option CaseStyle) (s : Compliance.Subject) :
    Compliance.checkCase b span' rule style s =
      (Compliance.checkCase b span rule style s).map (relocated span') := by
  cases style with
  | none => rfl
  | some style =>
    simp only [Compliance.checkCase]
    split <;> rfl

theorem checkGlobalPrefix_relocated (rules : RuleSet) (b : Binding) (span span' : Span) :
    Compliance.checkGlobalPrefix rules b span' =
      ((Compliance.checkGlobalPrefix rules b span).1,
        (Compliance.checkGlobalPrefix rules b span).2.map (relocated span')) := by
  unfold Compliance.checkGlobalPrefix
  cases rules.globalPrefix with
  | none => rfl
  | some wanted =>
    simp only
    split
    · cases Compliance.Subject.split? ⟨[], b.name⟩ wanted <;> rfl
    · rfl

theorem checkTypePrefix_relocated (rules : RuleSet) (b : Binding) (span span' : Span)
    (s : Compliance.Subject) :
    Compliance.checkTypePrefix rules b span' s =
      ((Compliance.checkTypePrefix rules b span s).1,
        (Compliance.checkTypePrefix rules b span s).2.map (relocated span')) := by
  unfold Compliance.checkTypePrefix
  cases Compliance.typePrefix? rules b with
  | none => rfl
  | some found =>
    simp only
    cases s.split? found.2 <;> rfl

/-- The findings about a name do not depend on where it stands. -/
theorem checkName_relocated (rules : RuleSet) (b : Binding) (span span' : Span) :
    Compliance.checkName rules b span' =
      (Compliance.checkName rules b span).map (relocated span') := by
  have hvariable : Compliance.checkVariable rules b span' =
      (Compliance.checkVariable rules b span).map (relocated span') := by
    simp only [Compliance.checkVariable, checkGlobalPrefix_relocated rules b span span',
      checkTypePrefix_relocated rules b span span', checkCase_relocated b span span',
      List.map_append]
  unfold Compliance.checkName
  split
  · exact checkCase_relocated b span span' _ _ _
  · exact checkCase_relocated b span span' _ _ _
  · exact hvariable

theorem checkName_eq_nil_iff (rules : RuleSet) (b : Binding) (span : Span) :
    Compliance.checkName rules b span = [] ↔ WellNamed rules b := by
  constructor
  · intro hnil span'
    rw [checkName_relocated rules b span, hnil]
    rfl
  · intro hnamed
    exact hnamed span

/-! ## All findings -/

theorem checkDocs_eq_nil_iff (rules : RuleSet) (tokens : List Token) (x : Declaration) (span : Span) :
    Compliance.checkDocs rules tokens x span = [] ↔
      Documented rules x ((find tokens x.startIndex).map Token.toLexeme) := by
  have htext : Documentation.text (find tokens x.startIndex) =
      docsText ((find tokens x.startIndex).map Token.toLexeme) := by
    rw [docsText, List.map_map]
    rfl
  unfold Compliance.checkDocs Documented
  rcases Compliance.docRule? rules x.kind with _ | ⟨rule, _ | _ | _⟩
  · simp
  · simp
  · simp
  · rw [← htext]
    cases hfound : find tokens x.startIndex with
    | nil => simp
    | cons t more => by_cases hkind : x.kind = .function <;> simp [hkind]

theorem documented_renamed (rules : RuleSet) (φ : Nat → Nat) (x : Declaration)
    (comments : List Lexeme) :
    Documented rules (x.renamed φ) comments ↔ Documented rules x comments := by
  have hnames : (x.renamed φ).parameters.map Binding.name = x.parameters.map Binding.name := by
    rw [Declaration.renamed, List.map_map]
    rfl
  unfold Documented
  rw [hnames]
  rfl

theorem counted_of_isLexed {d : Dialect} {b : Bool} {ls g : List Lexeme} (h : IsLexed d b ls)
    (hg : ∀ l ∈ g, l ∈ ls ∧ l.kind.isLayout = true) : Counted g := by
  intro l hl
  rcases hg l hl with ⟨hmem, hlayout⟩
  refine ⟨hlayout, ?_⟩
  rcases exists_reads_of_mem h hmem with ⟨b, t, hread⟩
  rcases l with ⟨kind, text⟩
  cases kind <;> simp [TokenKind.isLayout] at hlayout
  · rcases reads_whitespace_iff.1 hread with ⟨-, hpads, -⟩
    apply Text.breakCount_eq_zero
    intro c hc
    rw [← Bool.not_eq_true]
    intro hbreak
    have hpad := hpads c hc
    rw [not_isPad_of_isBreak hbreak] at hpad
    simp at hpad
  · exact (reads_lineBreak_iff.1 hread).1.breakCount

theorem parted_of_regular {cells : List Layout.Cell} {after inside : Bool}
    (h : Page.Regular after inside cells) : Parted cells := by
  induction cells generalizing inside with
  | nil =>
    intro c hc
    simp at hc
  | cons head cells ih =>
    rcases h with ⟨-, -, hgap, hitem, hmore⟩
    intro c hc
    rcases List.mem_cons.1 hc with rfl | hc
    · exact ⟨hgap, hitem⟩
    · exact ih hmore c hc

theorem length_spots (inside : Bool) (line : Int) (rows : List Row) :
    (spots inside line rows).length = rows.length := by
  induction rows generalizing inside line with
  | nil => rfl
  | cons r rows ih => simp [spots, ih]

theorem exists_token {cells : List Layout.Cell} (hgaps : ∀ c ∈ cells, Counted c.gap) {k : Nat}
    (hk : k < cells.length) (tail : List Lexeme) :
    ∃ t, (place 0 .origin (cells.flatMap Cell.lexemes ++ tail))[indexOf cells k]? = some t := by
  have hlength : k < (spots false Position.origin.line (cells.map Cell.row)).length := by
    rw [length_spots, List.length_map]
    exact hk
  have hspot : (tokenSpots false (place 0 .origin (cells.flatMap Cell.lexemes ++ tail)))[indexOf
      cells k]? = some _ :=
    (getElem?_tokenSpots hgaps hk false 0 .origin).trans (List.getElem?_eq_getElem hlength)
  rw [tokenSpots, List.getElem?_map, Option.map_eq_some_iff] at hspot
  rcases hspot with ⟨z, hz, -⟩
  exact ⟨z.1, (List.getElem?_zip_eq_some.1 hz).1⟩

/-- The checks find nothing about a declaration exactly if it complies. -/
theorem checkDeclaration_eq_nil_iff {cells : List Layout.Cell} {tail : List Lexeme}
    (hcells : Parted cells) (hgaps : ∀ c ∈ cells, Counted c.gap) (htail : Counted tail)
    (rules : RuleSet) {d : Dialect} {x : Declaration} (hx : x ∈ declared d (cells.map Cell.row)) :
    Compliance.checkDeclaration rules (place 0 .origin (cells.flatMap Cell.lexemes ++ tail))
        (Suppression.scan (place 0 .origin (cells.flatMap Cell.lexemes ++ tail))).check
        (x.renamed (indexOf cells)) = [] ↔
      CompliesAt rules (cells.map Cell.row) x := by
  rcases index_of_mem_declared hx with ⟨hname, hstart⟩
  rw [List.length_map] at hname hstart
  have hsuppressed := getD_check hgaps htail hname
  have htokens := map_toLexeme_place 0 .origin (cells.flatMap Cell.lexemes ++ tail)
  rw [List.append_assoc] at htokens
  have hdocs := map_find hcells htokens (List.getElem?_eq_getElem hstart)
  obtain ⟨t, ht⟩ := exists_token hgaps hname tail
  generalize place 0 .origin (cells.flatMap Cell.lexemes ++ tail) = tokens at *
  have hindex : (x.renamed (indexOf cells)).nameIndex = indexOf cells x.nameIndex := rfl
  rw [Compliance.checkDeclaration, hindex, hsuppressed, ht, CompliesAt]
  cases covered (cells.map Cell.row) x.nameIndex with
  | true => simp
  | false =>
    simp only [Bool.false_eq_true, if_false, List.append_eq_nil_iff, true_implies]
    rw [checkDocs_eq_nil_iff, documented_renamed, ← hdocs]
    exact and_congr (checkName_eq_nil_iff rules x.toBinding t.span) Iff.rfl

/-- The checks find nothing in a lexed source exactly if its outline complies. -/
theorem check_eq_nil_iff {d : Dialect} {ls : List Lexeme} (h : IsLexed d true ls) (rules : RuleSet) :
    Compliance.check rules d (place 0 .origin ls) (Suppression.scan (place 0 .origin ls)).check = [] ↔
      Complies rules d (Page.ofLexemes false ls).outline := by
  have hregular := Page.isRegular_ofLexemes false ls
  have hlexemes := Page.lexemes_ofLexemes false ls
  generalize Page.ofLexemes false ls = p at hregular hlexemes
  rcases p with ⟨cells, tail, after⟩
  have hcells := parted_of_regular hregular.cells
  have hgaps : ∀ c ∈ cells, Counted c.gap := by
    intro c hc
    apply counted_of_isLexed h
    intro l hl
    refine ⟨?_, (hcells c hc).1 l hl⟩
    rw [← hlexemes]
    exact List.mem_append_left _ (List.mem_flatMap.2 ⟨c, hc, List.mem_append_left _ hl⟩)
  have htail : Counted tail := by
    apply counted_of_isLexed h
    intro l hl
    refine ⟨?_, hregular.tail l hl⟩
    rw [← hlexemes]
    exact List.mem_append_right _ hl
  rw [← hlexemes]
  show Compliance.check rules d (place 0 .origin (cells.flatMap Cell.lexemes ++ tail)) _ = [] ↔
    Complies rules d (cells.map Cell.row)
  rw [Compliance.check, scanDeclarations_eq hgaps htail, List.flatMap_eq_nil_iff, List.forall_mem_map]
  constructor
  · intro hnil x hx
    exact (checkDeclaration_eq_nil_iff hcells hgaps htail rules hx).1 (hnil x hx)
  · intro hcomplies x hx
    exact (checkDeclaration_eq_nil_iff hcells hgaps htail rules hx).2 (hcomplies x hx)

end ShaderStyle.Outline
