import ShaderStyle.Proofs.Layout.Passes
import ShaderStyle.Proofs.Layout.Relex

/-!
# What formatting leaves alone

Formatting changes layout only: the output holds the content of the source in order, with nothing but
layout in between (`Interleaved`), and where consecutive tokens are left as they are nothing comes
between them. Both are read off `Retains`, which follows the tokens one by one and remembers whether
the last one was left as it is.
-/

namespace ShaderStyle

/-- Nothing but blanks and line breaks. -/
def Text.IsLayout (t : Text) : Prop :=
  ∀ c ∈ t, Text.isPad c = true ∨ Text.isBreak c = true

theorem Text.IsLayout.append {s t : Text} (hs : s.IsLayout) (ht : t.IsLayout) : (s ++ t).IsLayout := by
  intro c hc
  rcases List.mem_append.1 hc with hc | hc
  · exact hs c hc
  · exact ht c hc

@[simp] theorem Text.isLayout_nil : Text.IsLayout [] := by
  intro c hc
  simp at hc

namespace Layout

open Lexer

/-- The tokens of a source, each with whether its markers leave it as it is. -/
def marked (tokens : List Token) : List (Lexeme × Bool) :=
  (tokens.map Token.toLexeme).zip (Suppression.scan tokens).format

/-- The tokens that are no layout. -/
def content (ms : List (Lexeme × Bool)) : List (Lexeme × Bool) :=
  ms.filter fun m => !m.1.kind.isLayout

/-- The text is made of the content among the tokens, in order, with layout before, between and behind
it. The text of a token is as it was, or has its line breaks written as the rules say. -/
def Interleaved (rules : RuleSet) (ms : List (Lexeme × Bool)) (t : Text) : Prop :=
  ∃ (first : Text) (gaps : List Text), gaps.length = (content ms).length ∧
    first.IsLayout ∧ (∀ g ∈ gaps, g.IsLayout) ∧
    t = first ++ ((content ms).zipWith (fun m g => (newItem rules m.2 m.1).text ++ g) gaps).flatten

section Interleaved

variable {rules : RuleSet} {ms : List (Lexeme × Bool)} {l : Lexeme} {t : Text}

theorem interleaved_nil (ht : t.IsLayout) : Interleaved rules [] t :=
  ⟨t, [], rfl, ht, by simp, by simp [content]⟩

theorem Interleaved.layout (h : Interleaved rules ms t) (hl : l.kind.isLayout = true) (s : Bool) :
    Interleaved rules ((l, s) :: ms) t := by
  have hcontent : content ((l, s) :: ms) = content ms := by simp [content, hl]
  unfold Interleaved
  rw [hcontent]
  exact h

theorem Interleaved.prepend {g : Text} (h : Interleaved rules ms t) (hg : g.IsLayout) :
    Interleaved rules ms (g ++ t) := by
  obtain ⟨first, gaps, hlen, hfirst, hgaps, rfl⟩ := h
  exact ⟨g ++ first, gaps, hlen, hg.append hfirst, hgaps, by rw [List.append_assoc]⟩

theorem Interleaved.item (h : Interleaved rules ms t) (hl : l.kind.isLayout = false) (s : Bool) :
    Interleaved rules ((l, s) :: ms) ((newItem rules s l).text ++ t) := by
  obtain ⟨first, gaps, hlen, hfirst, hgaps, rfl⟩ := h
  have hcontent : content ((l, s) :: ms) = (l, s) :: content ms := by simp [content, hl]
  unfold Interleaved
  rw [hcontent]
  refine ⟨[], first :: gaps, by simp [hlen], by simp, ?_, by simp⟩
  intro g hg
  rcases List.mem_cons.1 hg with rfl | hg
  · exact hfirst
  · exact hgaps g hg

/-- A token that is left as it is, layout or content. -/
theorem Interleaved.kept (h : Interleaved rules ms t) (hl : l.kind.isLayout = true → l.text.IsLayout) :
    Interleaved rules ((l, true) :: ms) (l.text ++ t) := by
  by_cases hlayout : l.kind.isLayout = true
  · exact (h.prepend (hl hlayout)).layout hlayout true
  · exact h.item (by simpa using hlayout) true

end Interleaved

/-! ## Token by token -/

/-- The text retains what it should of the tokens: a token that is left as it is stands there with its
text, right behind the one before it if that is left as it is too; other layout is gone, other content
is there. Layout is put in anywhere else. `after` says that the token before is left as it is. -/
inductive Retains (rules : RuleSet) : Bool → List (Lexeme × Bool) → Text → Prop
  | nil {after : Bool} {g : Text} (hg : g.IsLayout) : Retains rules after [] g
  | kept {after : Bool} {g t : Text} {l : Lexeme} {ms : List (Lexeme × Bool)} (hg : g.IsLayout)
      (hafter : after = true → g = []) (hl : l.kind.isLayout = true → l.text.IsLayout)
      (h : Retains rules true ms t) : Retains rules after ((l, true) :: ms) (g ++ (l.text ++ t))
  | layout {after : Bool} {t : Text} {l : Lexeme} {ms : List (Lexeme × Bool)}
      (hl : l.kind.isLayout = true) (h : Retains rules false ms t) :
      Retains rules after ((l, false) :: ms) t
  | item {after : Bool} {g t : Text} {l : Lexeme} {ms : List (Lexeme × Bool)} (hg : g.IsLayout)
      (hl : l.kind.isLayout = false) (h : Retains rules false ms t) :
      Retains rules after ((l, false) :: ms) (g ++ ((newItem rules false l).text ++ t))

namespace Retains

variable {rules : RuleSet} {after : Bool} {ms : List (Lexeme × Bool)} {t : Text}

theorem interleaved (h : Retains rules after ms t) : Interleaved rules ms t := by
  induction h with
  | nil hg => exact interleaved_nil hg
  | kept hg _ hl _ ih => exact (ih.kept hl).prepend hg
  | layout hl _ ih => exact ih.layout hl false
  | item hg hl _ ih => exact (ih.item hl false).prepend hg

/-- Tokens that follow one that is left as it is, and are themselves, stand right behind it. -/
theorem run_after {run : List (Lexeme × Bool)} (hrun : ∀ m ∈ run, m.2 = true)
    (h : Retains rules true (run ++ ms) t) :
    ∃ post, t = (run.flatMap fun m => m.1.text) ++ post ∧ Interleaved rules ms post := by
  induction run generalizing t with
  | nil => exact ⟨t, rfl, h.interleaved⟩
  | cons m run ih =>
    obtain ⟨l, s⟩ := m
    have hs : s = true := hrun (l, s) (by simp)
    subst hs
    cases h with
    | @kept _ g t _ _ hg hafter hl h =>
      obtain ⟨post, rfl, hpost⟩ := ih (fun m hm => hrun m (by simp [hm])) h
      exact ⟨post, by simp [hafter rfl], hpost⟩

/-- A run of tokens that are left as they are stands in the text as it is, between what is retained of
the tokens before and behind it. -/
theorem exists_run {before run behind : List (Lexeme × Bool)} (hrun : ∀ m ∈ run, m.2 = true)
    (h : Retains rules after (before ++ (run ++ behind)) t) :
    ∃ pre post, t = pre ++ ((run.flatMap fun m => m.1.text) ++ post) ∧ Interleaved rules before pre ∧
      Interleaved rules behind post := by
  induction before generalizing after t with
  | nil =>
    cases run with
    | nil => exact ⟨[], t, rfl, interleaved_nil (by simp), h.interleaved⟩
    | cons m run =>
      obtain ⟨l, s⟩ := m
      have hs : s = true := hrun (l, s) (by simp)
      subst hs
      cases h with
      | @kept _ g t _ _ hg hafter hl h =>
        obtain ⟨post, rfl, hpost⟩ := run_after (fun m hm => hrun m (by simp [hm])) h
        exact ⟨g, post, by simp, interleaved_nil hg, hpost⟩
  | cons m before ih =>
    cases h with
    | @kept _ g t l _ hg hafter hl h =>
      obtain ⟨pre, post, rfl, hpre, hpost⟩ := ih h
      exact ⟨g ++ (l.text ++ pre), post, by simp, (hpre.kept hl).prepend hg, hpost⟩
    | @layout _ t l _ hl h =>
      obtain ⟨pre, post, rfl, hpre, hpost⟩ := ih h
      exact ⟨pre, post, rfl, hpre.layout hl false, hpost⟩
    | @item _ g t l _ hg hl h =>
      obtain ⟨pre, post, rfl, hpre, hpost⟩ := ih h
      exact ⟨g ++ ((newItem rules false l).text ++ pre), post, by simp,
        (hpre.item hl false).prepend hg, hpost⟩

end Retains

/-! ## The formatted page -/

/-- The lexemes of a cell, each with whether it is left as it is. -/
def Cell.marked (c : Cell) : List (Lexeme × Bool) :=
  c.gap.map (·, c.inside) ++ [(c.item, c.kept)]

/-- The lexemes of a page, each with whether it is left as it is. -/
def Page.marked (p : Page) : List (Lexeme × Bool) :=
  p.cells.flatMap Cell.marked ++ p.tail.map (·, p.tailInside)

theorem Page.IsRegular.marked_consLayout {inside : Bool} {p : Page} (h : p.IsRegular inside)
    (l : Lexeme) : (p.consLayout l).marked = (l, inside) :: p.marked := by
  obtain ⟨_ | ⟨c, more⟩, tail, after⟩ := p
  · have hafter : after = inside := h.cells
    simp [consLayout, Page.marked, hafter]
  · have hinside : c.inside = inside := h.cells.1
    simp [consLayout, Page.marked, Cell.marked, hinside]

/-- The tokens of a source are left as they are where the page says so. -/
theorem marked_place (ls : List Lexeme) :
    marked (place 0 .origin ls) = (Page.ofLexemes false ls).marked ++
      [(⟨.eof, []⟩, (Page.ofLexemes false ls).tailInside)] := by
  have hplace (offset : Nat) (position : Position) (inside : Bool) :
      ((place offset position ls).map Token.toLexeme).zip
        (Suppression.regionFlags .format inside (place offset position ls)) =
      (Page.ofLexemes inside ls).marked ++
        [(⟨.eof, []⟩, (Page.ofLexemes inside ls).tailInside)] := by
    induction ls generalizing offset position inside with
    | nil => simp [place, regionFlags_cons, Page.ofLexemes, Page.marked, keeps, Marker.of?,
        TokenKind.isComment, Suppression.regionFlags]
    | cons l ls ih =>
      rw [place, regionFlags_cons, List.map_cons, List.zip_cons_cons, ih, Page.ofLexemes]
      split
      · rename_i hlayout
        have hkeeps : keeps .format inside l = inside := keeps_layout hlayout _ _
        have hafter : insideAfter .format inside l = inside := insideAfter_layout hlayout _ _
        rw [(Page.isRegular_ofLexemes inside ls).marked_consLayout, hkeeps, hafter, List.cons_append]
        obtain ⟨_ | ⟨c, more⟩, tail, after⟩ := Page.ofLexemes inside ls <;> rfl
      · rfl
  exact hplace 0 .origin false

variable {d : Dialect} {rules : RuleSet}

theorem isLayout_of_reads {b : Bool} {l : Lexeme} {t : Text} (hl : l.kind.isLayout = true)
    (h : Reads d b l t) : l.text.IsLayout := by
  obtain ⟨kind, text⟩ := l
  intro c hc
  cases kind <;> simp [TokenKind.isLayout] at hl
  · exact .inl ((reads_whitespace_iff.1 h).2.1 c hc)
  · exact .inr (Text.isBreak_of_mem (reads_lineBreak_iff.1 h).1 hc)

theorem isLayout_of_readsAll {b : Bool} {g : List Lexeme} {t : Text}
    (hg : ∀ l ∈ g, l.kind.isLayout = true) (h : ReadsAll d b g t) :
    (∀ l ∈ g, l.text.IsLayout) ∧ (textOf g).IsLayout := by
  induction g generalizing b with
  | nil => simp
  | cons l g ih =>
    have hl := isLayout_of_reads (hg l (by simp)) h.1
    obtain ⟨hmore, htext⟩ := ih (fun l hl => hg l (by simp [hl])) h.2
    exact ⟨by simpa using ⟨hl, hmore⟩, hl.append htext⟩

theorem isLayout_newBreaks (start : Bool) (g : List Lexeme) :
    (textOf (newBreaks rules start g)).IsLayout := by
  intro c hc
  obtain ⟨l, hl, hc⟩ := List.mem_flatMap.1 hc
  rw [List.eq_of_mem_replicate hl] at hc
  exact .inr (Text.isBreak_of_mem (Text.isBreakText_lineEnding rules.lineEnding) hc)

section Gap

variable {after : Bool} {g : List Lexeme} {ms : List (Lexeme × Bool)} {t : Text}

/-- A gap that is left as it is. -/
theorem Retains.keptGap (hg : ∀ l ∈ g, l.text.IsLayout) (h : ∀ after, Retains rules after ms t) :
    Retains rules after (g.map (·, true) ++ ms) (textOf g ++ t) := by
  induction g generalizing after with
  | nil => exact h after
  | cons l g ih =>
    rw [textOf_cons, List.append_assoc]
    exact .kept (g := []) (by simp) (fun _ => rfl) (fun _ => hg l (by simp))
      (ih fun l hl => hg l (by simp [hl]))

/-- A gap that may be replaced; where it is empty the token before it is the last one. -/
theorem Retains.otherGap (hg : ∀ l ∈ g, l.kind.isLayout = true)
    (h : Retains rules (after && g.isEmpty) ms t) :
    Retains rules after (g.map (·, false) ++ ms) t := by
  have hgap (g : List Lexeme) (hg : ∀ l ∈ g, l.kind.isLayout = true) (h : Retains rules false ms t) :
      Retains rules false (g.map (·, false) ++ ms) t := by
    induction g with
    | nil => exact h
    | cons l g ih => exact .layout (hg l (by simp)) (ih fun l hl => hg l (by simp [hl]))
  cases g with
  | nil => simpa using h
  | cons l g =>
    rw [List.isEmpty_cons, Bool.and_false] at h
    exact .layout (hg l (by simp)) (hgap g (fun l hl => hg l (by simp [hl])) h)

end Gap

theorem isComment_of_marker {l : Lexeme} {m : Marker} (h : Marker.of? l = some m) :
    l.kind.isComment = true := by
  unfold Marker.of? at h
  split at h
  · assumption
  · simp at h

/-- Behind a lexeme that is left as it is a region is open, unless the lexeme is a comment. -/
theorem insideAfter_of_keeps {inside : Bool} {l : Lexeme} (h : keeps .format inside l = true) :
    insideAfter .format inside l = true ∨ l.kind.isComment = true := by
  unfold insideAfter
  split
  · exact .inl rfl
  · split
    · rename_i hcloses
      exact .inr (isComment_of_marker hcloses)
    · rename_i hopens _
      exact .inl (by simpa [keeps, hopens] using h)

theorem not_bracket_of_isComment {c : Cell} (h : c.item.kind.isComment = true) :
    isOpener c.piece = false ∧ isCloser c.piece = false := by
  have hkind : c.piece.kind ≠ .punctuation := by
    intro hk
    rw [show c.item.kind = .punctuation from hk] at h
    simp [TokenKind.isComment] at h
  simp [isOpener, isCloser, hkind]

/-- A formatted page retains what it should of the page. `last` says that the item before the cells is
left as it is. -/
theorem retains_newCells {edges : Nat → Option Text} {cells : List Cell} {tail : List Lexeme}
    {here : Place} {after inside last : Bool} (start : Bool)
    (hsound : SoundCells rules edges here cells) (hregular : Page.Regular after inside cells)
    (hpads : ∀ i t, edges i = some t → ∀ z ∈ t, Text.isPad z = true)
    (htail : ∀ l ∈ tail, l.kind.isLayout = true)
    (hlexed : IsLexed d here.start (cells.flatMap Cell.lexemes ++ tail))
    (hlast : last = true → inside = true ∨ here.start = false ∧ here.opener = false) :
    Retains rules last (cells.flatMap Cell.marked ++ tail.map (·, after))
      (textOf ((newCells rules edges here cells).flatMap Cell.lexemes ++
        newTail rules start after tail)) := by
  induction cells generalizing here inside last with
  | nil =>
    simp only [List.flatMap_nil, List.nil_append, newCells, newTail]
    have hread := readsAll_tail htail hlexed
    rw [← List.append_nil (tail.map _)]
    cases after with
    | true =>
      rw [if_pos rfl, ← List.append_nil (textOf tail)]
      exact .keptGap (isLayout_of_readsAll htail hread).1 fun _ => .nil (by simp)
    | false => exact .otherGap htail (.nil (isLayout_newBreaks start tail))
  | cons c cells ih =>
    obtain ⟨hc, hmore⟩ := hsound
    obtain ⟨rfl, hkeeps, -, -, hregular⟩ := hregular
    obtain ⟨hgap, hitem, hrest⟩ := isLexed_cell hc hlexed
    have hlast' : c.kept = true → insideAfter .format c.inside c.item = true ∨
        (here.after rules c).start = false ∧ (here.after rules c).opener = false := by
      intro hkept
      rcases insideAfter_of_keeps (hkeeps ▸ hkept) with h | h
      · exact .inl h
      · exact .inr ⟨rfl, (not_bracket_of_isComment h).1⟩
    have ih := ih hmore hregular hrest hlast'
    rw [textOf_newCells_cons, List.flatMap_cons, Cell.marked, List.append_assoc, List.append_assoc,
      List.singleton_append]
    by_cases hinside : c.inside = true
    · have hkept := hc.kept hinside
      rw [newGap, if_pos hinside, hinside]
      refine .keptGap (isLayout_of_readsAll hc.gap hgap).1 ?_
      intro after
      rw [hkept] at ih ⊢
      exact .kept (g := []) (by simp) (fun _ => rfl) (by simp [hc.item]) ih
    · simp only [Bool.not_eq_true] at hinside
      have hnewGap : ReadsAll d false (newGap rules edges here c)
          (c.item.text ++ textOf (cells.flatMap Cell.lexemes ++ tail)) :=
        readsAll_newGap hc (hpads here.index) hgap (startsItem_of_reads hitem hc.item _) rfl
      have hlayout := (isLayout_of_readsAll (layout_newGap hc) hnewGap).2
      rw [hinside]
      refine .otherGap hc.gap ?_
      cases hkept : c.kept with
      | false =>
        rw [hkept] at ih
        exact .item hlayout hc.item ih
      | true =>
        rw [hkept] at ih
        refine .kept hlayout ?_ (by simp [hc.item]) ih
        -- two regions may follow each other directly, with nothing in between
        intro hdirect
        simp only [Bool.and_eq_true, List.isEmpty_iff] at hdirect
        obtain ⟨hstart, hopener⟩ : here.start = false ∧ here.opener = false := by
          rcases hlast hdirect.1 with h | h
          · simp [hinside] at h
          · exact h
        have hplaced : c.isPlaced here = false := by simp [Cell.isPlaced, hkept]
        have hmarker : Marker.of? c.item = some (.opens .format) := by
          rw [hkept, keeps, hinside] at hkeeps
          simpa using hkeeps.symm
        have hedge : edges here.index = none :=
          hc.edge_eq_none hopener (not_bracket_of_isComment (isComment_of_marker hmarker)).2
        rw [(newGap_eq_nil_iff hstart hplaced hedge).2 hdirect.2]
        rfl

/-- The end of the file adds nothing. -/
theorem Retains.end_of_file {after : Bool} {ms : List (Lexeme × Bool)} {t : Text}
    (h : Retains rules after ms t) (s : Bool) : Retains rules after (ms ++ [(⟨.eof, []⟩, s)]) t := by
  induction h with
  | nil hg =>
    cases s with
    | true => exact .kept (g := []) (by simp) (fun _ => rfl) (by simp) (.nil hg)
    | false => exact .item (g := []) (by simp) rfl (.nil hg)
  | kept hg hafter hl _ ih => exact .kept hg hafter hl ih
  | layout hl _ ih => exact .layout hl ih
  | item hg hl _ ih => exact .item hg hl ih

theorem retains_restyle (rules : RuleSet) {ls : List Lexeme} (h : IsLexed d true ls) :
    Retains rules false (marked (place 0 .origin ls)) (restyle rules (place 0 .origin ls)).text := by
  have hregular := Page.isRegular_ofLexemes false ls
  have hsound := soundCells_ofLexemes rules h
  have hlexed : IsLexed d ({} : Place).start ((Page.ofLexemes false ls).cells.flatMap Cell.lexemes ++
      (Page.ofLexemes false ls).tail) := by
    rw [← Page.lexemes_ofLexemes false ls] at h
    exact h
  rw [text_restyle rules h, marked_place]
  exact (retains_newCells _ hsound hregular.cells (fun _ _ => isPad_edge) hregular.tail hlexed
    (by simp)).end_of_file _

/-- Formatting touches layout only: the output is the content of the source in order, with layout in
between. And wherever consecutive tokens are left as they are, the output holds their texts as they
are, one right behind the other, between what it holds of the tokens before and behind them. -/
theorem restyle_layout_only (rules : RuleSet) (d : Dialect) (source : Text) (tokens : List Token)
    (htokens : tokenize d source = .ok tokens) :
    Interleaved rules (marked tokens) (restyle rules tokens).text ∧
      ∀ before run behind, marked tokens = before ++ (run ++ behind) → (∀ m ∈ run, m.2 = true) →
        ∃ pre post, (restyle rules tokens).text = pre ++ ((run.flatMap fun m => m.1.text) ++ post) ∧
          Interleaved rules before pre ∧ Interleaved rules behind post := by
  obtain ⟨ls, hlexed, -, rfl⟩ := tokenize_eq_ok_iff.1 htokens
  have hretains := retains_restyle rules hlexed
  refine ⟨hretains.interleaved, ?_⟩
  intro before run behind hsplit hrun
  rw [hsplit] at hretains
  exact hretains.exists_run hrun

/-- A bracket inside a region keeps its blank. -/
theorem restyle_layout_only_region :
    ∃ tokens, tokenize .glsl (['/', '*'] ++ "NOFORMATBEGIN".toList ++ ['*', '/', '[', ' ', ']']) =
        .ok tokens ∧
      ∃ pre post, (restyle {} tokens).text = pre ++ (['[', ' ', ']'] ++ post) := by
  have hcomment : (['/', '*'] ++ "NOFORMATBEGIN".toList ++ ['*', '/'] : Text) =
      ['/', '*', 'N', 'O', 'F', 'O', 'R', 'M', 'A', 'T', 'B', 'E', 'G', 'I', 'N', '*', '/'] := by
    decide +kernel
  have htokens : tokenize .glsl
      (['/', '*'] ++ "NOFORMATBEGIN".toList ++ ['*', '/', '[', ' ', ']']) = .ok _ :=
    tokenize_eq_ok_iff.2 ⟨[⟨.blockComment false, ['/', '*'] ++ "NOFORMATBEGIN".toList ++ ['*', '/']⟩,
      ⟨.punctuation, ['[']⟩, ⟨.whitespace, [' ']⟩, ⟨.punctuation, [']']⟩],
      by rw [hcomment]; decide +kernel, by simp, rfl⟩
  refine ⟨_, htokens, ?_⟩
  obtain ⟨pre, post, htext, -⟩ := (restyle_layout_only {} .glsl _ _ htokens).2
    [(⟨.blockComment false, ['/', '*'] ++ "NOFORMATBEGIN".toList ++ ['*', '/']⟩, true)]
    [(⟨.punctuation, ['[']⟩, true), (⟨.whitespace, [' ']⟩, true), (⟨.punctuation, [']']⟩, true)]
    [(⟨.eof, []⟩, true)] (by rw [hcomment]; decide +kernel) (by decide)
  exact ⟨pre, post, htext⟩

end Layout

end ShaderStyle
