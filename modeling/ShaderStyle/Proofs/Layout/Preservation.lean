import Mathlib.Data.List.Forall2
import ShaderStyle.Proofs.Layout.Absorption
import ShaderStyle.Proofs.Layout.Verbatim

/-!
# The tokens of the formatted text

Formatting keeps the content tokens of a source, one by one (`Agrees`), exactly if no directive
dangles (`restyle_agrees_iff`). A directive dangles if a backslash at its end would carry it on behind
a line break, and only blanks keep the break away. These blanks are stripped, so the directive then
takes the next line along; or lexing fails there.

* `forall_agrees_newCells`: the items of a formatted page agree with those of the page;
* `not_agrees_of_dangles`: past the first dangling directive, what is read differs.
-/

namespace ShaderStyle.Layout

open Lexer

/-- The tokens that are neither layout nor the end of the file. -/
def contents (tokens : List Token) : List Lexeme :=
  (tokens.map Token.toLexeme).filter fun l => !l.kind.isLayout && l.kind ≠ .eof

/-- The lexemes are of one kind and have the same text; line breaks in a block comment or a directive
count as the one that the rules ask for. -/
def Agrees (rules : RuleSet) (l l' : Lexeme) : Prop :=
  l'.kind = l.kind ∧
    match l.kind with
    | .blockComment _ | .directive _ =>
      Text.withEnding rules.lineEnding.text l'.text = Text.withEnding rules.lineEnding.text l.text
    | _ => l'.text = l.text

/-- Some directive that is not left as it is carries on, and blanks and a line break follow it. -/
def Dangling : List (Lexeme × Bool) → Prop
  | [] => False
  | (l, kept) :: more =>
    (kept = false ∧ carriesOn l = true ∧
      (more.takeWhile fun m => m.1.kind.isLayout).any (fun m => m.1.isNewline) = true) ∨
    Dangling more

instance decidableDangling : (ms : List (Lexeme × Bool)) → Decidable (Dangling ms)
  | [] => inferInstanceAs (Decidable False)
  | (_, _) :: more =>
    have := decidableDangling more
    inferInstanceAs (Decidable (_ ∨ _))

variable {d : Dialect} {rules : RuleSet}

/-! ## Dangling cells -/

theorem not_carriesOn_of_layout {l : Lexeme} (h : l.kind.isLayout = true) : carriesOn l = false := by
  obtain ⟨kind, text⟩ := l
  cases kind <;> simp [TokenKind.isLayout] at h <;> rfl

theorem dangling_layout_append {g : List Lexeme} (hg : ∀ l ∈ g, l.kind.isLayout = true) (s : Bool)
    (ms : List (Lexeme × Bool)) : Dangling (g.map (·, s) ++ ms) ↔ Dangling ms := by
  induction g with
  | nil => rfl
  | cons l g ih =>
    rw [List.map_cons, List.cons_append, Dangling, ih fun l hl => hg l (by simp [hl])]
    simp [not_carriesOn_of_layout (hg l (by simp))]

theorem any_isNewline_map (g : List Lexeme) (s : Bool) :
    ((g.map (·, s)).any fun m => m.1.isNewline) = true ↔ breaks g ≠ 0 := by
  rw [breaks, List.any_map, Ne, List.countP_eq_zero]
  simp

/-- What is looked at behind an item is the next gap. -/
theorem takeWhile_nextGap {cells : List Cell} {tail : List Lexeme} {after inside : Bool}
    (hregular : Page.Regular after inside cells) (htail : ∀ l ∈ tail, l.kind.isLayout = true)
    (s : Bool) :
    ((cells.flatMap Cell.marked ++ (tail.map (·, after) ++ [(Lexeme.mk .eof [], s)])).takeWhile
      fun m => m.1.kind.isLayout) = (nextGap cells tail).map (·, inside) := by
  have hgap {g : List Lexeme} (hg : ∀ l ∈ g, l.kind.isLayout = true) :
      ∀ m ∈ g.map (·, inside), m.1.kind.isLayout = true := by
    intro m hm
    rcases List.mem_map.1 hm with ⟨l, hl, rfl⟩
    exact hg l hl
  cases cells with
  | nil =>
    have hafter : after = inside := hregular
    subst hafter
    rw [List.flatMap_nil, List.nil_append, List.takeWhile_append_of_pos (hgap htail)]
    simp [nextGap, TokenKind.isLayout]
  | cons c cells =>
    rcases hregular with ⟨rfl, -, hlayout, hitem, -⟩
    rw [List.flatMap_cons, Cell.marked, List.append_assoc, List.append_assoc,
      List.takeWhile_append_of_pos (hgap hlayout)]
    simp [nextGap, hitem]

/-- A token dangles exactly if a cell does. -/
theorem dangling_iff {cells : List Cell} {tail : List Lexeme} {after inside : Bool}
    (hregular : Page.Regular after inside cells) (htail : ∀ l ∈ tail, l.kind.isLayout = true)
    (s : Bool) :
    Dangling (cells.flatMap Cell.marked ++ (tail.map (·, after) ++ [(Lexeme.mk .eof [], s)])) ↔
      ¬ NoneDangles tail cells := by
  induction cells generalizing inside with
  | nil =>
    rw [List.flatMap_nil, List.nil_append, dangling_layout_append htail]
    simp [Dangling, NoneDangles, carriesOn]
  | cons c cells ih =>
    rcases hregular with ⟨-, -, hlayout, -, hmore⟩
    rw [List.flatMap_cons, Cell.marked, List.append_assoc, List.append_assoc,
      dangling_layout_append hlayout, List.singleton_append, Dangling,
      takeWhile_nextGap hmore htail, any_isNewline_map, ih hmore, NoneDangles, Cell.Dangles]
    constructor
    · rintro (hdangles | hmore) ⟨hnot, hnone⟩
      · exact hnot hdangles
      · exact hmore hnone
    · intro hsome
      by_cases hdangles : c.Dangles (nextGap cells tail)
      · exact .inl hdangles
      · exact .inr fun hnone => hsome ⟨hdangles, hnone⟩

/-! ## What agrees -/

theorem agrees_newItem (kept : Bool) (l : Lexeme) : Agrees rules l (newItem rules kept l) := by
  refine ⟨kind_newItem rules kept l, ?_⟩
  have hending := Text.isBreakText_lineEnding rules.lineEnding
  obtain ⟨kind, text⟩ := l
  cases kept with
  | true => cases kind <;> rfl
  | false => cases kind <;> simp [newItem, Text.withEnding_withEnding hending]

/-- The items of the formatted cells agree with those of the cells. -/
theorem forall_agrees_newCells (edges : Nat → Option Text) (here : Place) (cells : List Cell) :
    List.Forall₂ (Agrees rules) (cells.map Cell.item)
      ((newCells rules edges here cells).map Cell.item) := by
  induction cells generalizing here with
  | nil => exact .nil
  | cons c cells ih => exact .cons (agrees_newItem c.kept c.item) (ih (here.after rules c))

theorem filter_gap {g : List Lexeme} (hg : ∀ l ∈ g, l.kind.isLayout = true) :
    g.filter (fun l => !l.kind.isLayout) = [] := by
  rw [List.filter_eq_nil_iff]
  intro l hl
  simp [hg l hl]

/-- The content of a page is its items. -/
theorem filter_lexemes {cells : List Cell} {tail : List Lexeme} {after inside : Bool}
    (hregular : Page.Regular after inside cells) (htail : ∀ l ∈ tail, l.kind.isLayout = true) :
    (cells.flatMap Cell.lexemes ++ tail).filter (fun l => !l.kind.isLayout) =
      cells.map Cell.item := by
  induction cells generalizing inside with
  | nil => simpa using filter_gap htail
  | cons c cells ih =>
    rcases hregular with ⟨-, -, hlayout, hitem, hmore⟩
    rw [List.flatMap_cons, Cell.lexemes, List.append_assoc, List.append_assoc, List.filter_append,
      filter_gap hlayout, List.nil_append, List.singleton_append, List.filter_cons,
      if_pos (by simp [hitem]), ih hmore, List.map_cons]

/-- The contents of a lexed source are its lexemes other than layout. -/
theorem contents_place {b : Bool} {ls : List Lexeme} (h : IsLexed d b ls) (offset : Nat)
    (position : Position) :
    contents (place offset position ls) = ls.filter fun l => !l.kind.isLayout := by
  rw [contents, map_toLexeme_place, List.filter_append]
  have hend : [Lexeme.mk .eof []].filter (fun l => !l.kind.isLayout && l.kind ≠ .eof) = [] := by
    simp
  rw [hend, List.append_nil]
  apply List.filter_congr
  intro l hl
  simp [kind_ne_eof h l hl]

/-! ## What differs -/

/-- Lexing goes through a gap that is read. -/
theorem lexemes_of_readsAll {b : Bool} {g ls : List Lexeme} {t : Text}
    (hg : ∀ l ∈ g, l.kind.isLayout = true) (hread : ReadsAll d b g t)
    (h : lexemes d b (textOf g ++ t) = .ok ls) :
    ∃ more, ls = g ++ more ∧ lexemes d (b || breaks g ≠ 0) t = .ok more := by
  induction g generalizing b ls with
  | nil => exact ⟨ls, rfl, by simpa [breaks] using h⟩
  | cons l g ih =>
    rw [textOf_cons, List.append_assoc, lexemes_of_reads hread.1] at h
    split at h
    · simp at h
    · rename_i more hmore
      rcases ih (fun l hl => hg l (by simp [hl])) hread.2 hmore with ⟨rest, rfl, hrest⟩
      refine ⟨rest, ?_, ?_⟩
      · simpa using h.symm
      · have hl := hg l (by simp)
        rw [breaks_cons]
        cases hk : l.kind <;> simp [hk, TokenKind.isLayout] at hl
        · simpa [hk, lineStartAfter, Lexeme.isNewline] using hrest
        · simpa [hk, lineStartAfter, Lexeme.isNewline] using hrest

/-- Behind an item on whose line nothing follows, the formatted text goes on with a line break. -/
theorem exists_newline_rest {edges : Nat → Option Text} {cells : List Cell} {tail : List Lexeme}
    {here : Place} {after : Bool} (hregular : Page.Regular after false cells)
    (hstart : here.start = false) (hheader : here.header = false)
    (hbreaks : breaks (nextGap cells tail) ≠ 0) :
    ∃ t, textOf ((newCells rules edges here cells).flatMap Cell.lexemes ++
      newTail rules false after tail) = rules.lineEnding.text ++ t := by
  cases cells with
  | nil =>
    have hafter : after = false := hregular
    subst hafter
    obtain ⟨g, hg⟩ : ∃ g, newTail rules false false tail = newline rules :: g :=
      exists_newline_newTail hbreaks
    exact ⟨textOf g, by rw [newCells, List.flatMap_nil, List.nil_append, hg]; rfl⟩
  | cons c cells =>
    have hplaced : c.isPlaced here = false := by simp [Cell.isPlaced, hheader]
    obtain ⟨g, hg⟩ : ∃ g, newGap rules edges here c = newline rules :: g :=
      exists_newline_newGap hstart hregular.1 hplaced hbreaks
    rw [textOf_newCells_cons, hg, textOf_cons, List.append_assoc]
    exact ⟨_, rfl⟩

/-- A dangling directive does not agree with what is read in its place. -/
theorem not_agrees_of_longer {l l' : Lexeme} {name z : Text} (hl : l.kind = .directive name)
    (htext : l'.text = Text.withEnding rules.lineEnding.text l.text ++ z)
    (hlast : l.text.getLast? = some '\\') (hz : z ≠ []) : ¬ Agrees rules l l' := by
  have hending := Text.isBreakText_lineEnding rules.lineEnding
  rintro ⟨-, hagrees⟩
  rw [hl] at hagrees
  simp only at hagrees
  -- the text ends in a backslash, so no line break lies across the border to what was taken along
  have hborder : (Text.withEnding rules.lineEnding.text l.text).getLast? = some '\r' →
      z.head? ≠ some '\n' := by
    rcases List.getLast?_eq_some_iff.1 hlast with ⟨x, hx⟩
    rw [hx, Text.withEnding_append (by simp), Text.withEnding_cons (by decide), List.getLast?_append]
    simp
  rw [htext, Text.withEnding_append hborder, Text.withEnding_withEnding hending] at hagrees
  have hnil := List.append_right_eq_self.1 hagrees
  exact hz ((withEnding_eq_nil_iff hending).1 hnil)

/-- A dangling directive is not read as it was: lexing fails there or goes on behind the line break that
now follows the directive. -/
theorem not_agrees_of_cell {edges : Nat → Option Text} {c : Cell} {cells : List Cell}
    {tail : List Lexeme} {here : Place} {after : Bool} {ls : List Lexeme}
    (hkeeps : c.kept = keeps .format c.inside c.item)
    (hregular : Page.Regular after (insideAfter .format c.inside c.item) cells)
    (hitem : Reads d (here.start || breaks c.gap ≠ 0) c.item
      (textOf (cells.flatMap Cell.lexemes ++ tail)))
    (hdangles : c.Dangles (nextGap cells tail))
    (hls : lexemes d (here.start || breaks (newGap rules edges here c) ≠ 0)
      ((newItem rules c.kept c.item).text ++
        textOf ((newCells rules edges (here.after rules c) cells).flatMap Cell.lexemes ++
          newTail rules false after tail)) = .ok ls) :
    ∃ l more, ls = l :: more ∧ l.kind.isLayout = false ∧ ¬ Agrees rules c.item l := by
  rcases hdangles with ⟨hkept, hcarries, hbreaks⟩
  obtain ⟨name, hname⟩ : ∃ name, c.item.kind = .directive name := by
    unfold carriesOn at hcarries
    split at hcarries
    · exact ⟨_, by assumption⟩
    · simp at hcarries
  have hlast := getLast?_of_carriesOn hitem hcarries
  -- a directive carries no marker, so its line break is outside regions as it is
  have hmarker := marker_of_directive hname
  have hinside : insideAfter .format c.inside c.item = false := by
    rw [hkeeps, keeps, hmarker] at hkept
    simpa [insideAfter, hmarker] using hkept
  have hheader : (here.after rules c).header = false := by
    simp [Place.after, endsHeader, Cell.piece, hname]
  have hplaced : c.isPlaced here = false := by simp [Cell.isPlaced, Lexeme.isMark, hname]
  have hnewItem : (newItem rules c.kept c.item).text =
      Text.withEnding rules.lineEnding.text c.item.text := by
    simp [newItem, hkept, hname]
  rw [hinside] at hregular
  obtain ⟨t, ht⟩ : ∃ t, textOf ((newCells rules edges (here.after rules c) cells).flatMap
      Cell.lexemes ++ newTail rules false after tail) = rules.lineEnding.text ++ t :=
    exists_newline_rest hregular rfl hheader hbreaks
  -- in the source, blanks stand between the directive and what ends it
  rcases exists_pads (textOf (cells.flatMap Cell.lexemes ++ tail)) with ⟨w, r, hwr, hw, hr⟩
  have hdirective : c.item = ⟨.directive name, c.item.text⟩ := by rw [← hname]
  rw [hwr, hdirective] at hitem
  rw [hdirective] at hcarries
  have hends : EndsDirective r := by
    rcases hitem.exists_hash with ⟨-, x, hx⟩
    rw [hx] at hitem
    exact ((reads_directive_iff hw hr).1 hitem).2.2.2.1
  rw [breaks_newGap hplaced, ht, hnewItem, hitem.exists_hash.1] at hls
  rcases hitem.directive_reads_on hw hends hcarries (Text.isBreakText_lineEnding rules.lineEnding)
    hls with ⟨l, more, z, rfl, hl, htext, hz⟩
  exact ⟨l, more, rfl, hl, not_agrees_of_longer hname htext hlast hz⟩

/-- Where a directive dangles, what is read of the formatted cells does not agree with their items. -/
theorem not_agrees_of_dangles {edges : Nat → Option Text} {cells : List Cell} {tail : List Lexeme}
    {here : Place} {after inside : Bool} {ls : List Lexeme}
    (hsound : SoundCells rules edges here cells) (hregular : Page.Regular after inside cells)
    (hpads : ∀ i t, edges i = some t → ∀ z ∈ t, Text.isPad z = true)
    (htail : ∀ l ∈ tail, l.kind.isLayout = true)
    (hlexed : IsLexed d here.start (cells.flatMap Cell.lexemes ++ tail))
    (hdangles : ¬ NoneDangles tail cells)
    (hls : lexemes d here.start (textOf ((newCells rules edges here cells).flatMap Cell.lexemes ++
      newTail rules (here.start && cells.isEmpty) after tail)) = .ok ls) :
    ¬ List.Forall₂ (Agrees rules) (cells.map Cell.item) (ls.filter fun l => !l.kind.isLayout) := by
  -- by induction over the cells: up to the first one that dangles, lexing reads what formatting wrote
  induction cells generalizing here inside ls with
  | nil => exact absurd trivial hdangles
  | cons c cells ih =>
    rcases hsound with ⟨hc, hmore⟩
    rcases hregular with ⟨rfl, hkeeps, -, -, hregular⟩
    rcases isLexed_cell hc hlexed with ⟨hgap, hitem, hrest⟩
    rw [List.isEmpty_cons, Bool.and_false, textOf_newCells_cons] at hls
    have hnewGap := readsAll_newGap_newItem hc hpads hgap hitem rules here.start
      (textOf ((newCells rules edges (here.after rules c) cells).flatMap Cell.lexemes ++
        newTail rules false after tail))
    rcases lexemes_of_readsAll (layout_newGap hc) hnewGap hls with ⟨more, rfl, hlexemes⟩
    rw [List.filter_append, filter_gap (layout_newGap hc), List.nil_append, List.map_cons]
    by_cases hdangle : c.Dangles (nextGap cells tail)
    · rcases not_agrees_of_cell hkeeps hregular hitem hdangle hlexemes with ⟨l, ls', rfl, hl, hnot⟩
      rw [List.filter_cons, if_pos (by simp [hl])]
      rintro (_ | ⟨hagrees, -⟩)
      exact hnot hagrees
    · have hread := reads_newItem hc hkeeps hmore hregular hpads htail hrest hitem hdangle
      rw [lexemes_of_reads hread, kind_newItem, lineStartAfter_item _ hc.item] at hlexemes
      split at hlexemes
      · simp at hlexemes
      · rename_i ls' hls'
        simp only [Except.ok.injEq] at hlexemes
        subst hlexemes
        have hnone : ¬ NoneDangles tail cells := fun hnone => hdangles ⟨hdangle, hnone⟩
        rw [List.filter_cons, if_pos (by simp [kind_newItem, hc.item])]
        rintro (_ | ⟨-, hagrees⟩)
        exact ih hmore hregular hrest hnone hls' hagrees

/-! ## The tokens of a formatted source -/

/-- Where what is read of the formatted text agrees with the source, no directive dangles. -/
theorem noneDangles_of_agrees {ls ls' : List Lexeme} (h : IsLexed d true ls)
    (houtput : lexemes d true ((Page.ofLexemes false ls).formatted rules).text = .ok ls')
    (hagrees : List.Forall₂ (Agrees rules) ((Page.ofLexemes false ls).cells.map Cell.item)
      (ls'.filter fun l => !l.kind.isLayout)) :
    NoneDangles (Page.ofLexemes false ls).tail (Page.ofLexemes false ls).cells := by
  have hregular := Page.isRegular_ofLexemes false ls
  have hsource : IsLexed d true ((Page.ofLexemes false ls).cells.flatMap Cell.lexemes ++
      (Page.ofLexemes false ls).tail) := by
    rw [← Page.lexemes_ofLexemes false ls] at h
    exact h
  by_contra hdangles
  exact not_agrees_of_dangles (soundCells_ofLexemes rules h) hregular.cells
    (fun _ _ => isPad_edge) hregular.tail hsource hdangles houtput hagrees

/-- The formatted text has the content tokens of the source, one by one, exactly if no directive of the
source dangles. -/
theorem restyle_agrees_iff (rules : RuleSet) (d : Dialect) (source : Text) (tokens : List Token)
    (htokens : tokenize d source = .ok tokens) :
    (∃ tokens', tokenize d (restyle rules tokens).text = .ok tokens' ∧
      List.Forall₂ (Agrees rules) (contents tokens) (contents tokens')) ↔
    ¬ Dangling (marked tokens) := by
  obtain ⟨ls, hlexed, -, rfl⟩ := tokenize_eq_ok_iff.1 htokens
  have hregular := Page.isRegular_ofLexemes false ls
  have hlexemes := Page.lexemes_ofLexemes false ls
  have hcontents : contents (place 0 .origin ls) = (Page.ofLexemes false ls).cells.map Cell.item := by
    rw [contents_place hlexed, ← filter_lexemes hregular.cells hregular.tail]
    exact congrArg _ hlexemes.symm
  have hdangling : Dangling (marked (place 0 .origin ls)) ↔
      ¬ NoneDangles (Page.ofLexemes false ls).tail (Page.ofLexemes false ls).cells := by
    rw [marked_place, Page.marked, List.append_assoc, dangling_iff hregular.cells hregular.tail]
  rw [hdangling, Classical.not_not, hcontents, text_restyle rules hlexed]
  constructor
  · rintro ⟨tokens', htokens', hagrees⟩
    rcases tokenize_eq_ok_iff.1 htokens' with ⟨ls', hlexed', htext, rfl⟩
    rw [contents_place hlexed'] at hagrees
    exact noneDangles_of_agrees hlexed (htext ▸ hlexed') hagrees
  · intro hnone
    have hrelexed := isLexed_formatted rules hlexed hnone
    have hregular' := Page.isRegular_ofLexemes false ((Page.ofLexemes false ls).formatted rules).lexemes
    rw [ofLexemes_formatted rules hlexed] at hregular'
    refine ⟨_, tokenize_eq_ok_iff.2 ⟨_, hrelexed, rfl, rfl⟩, ?_⟩
    rw [contents_place hrelexed, Page.lexemes, filter_lexemes hregular'.cells hregular'.tail]
    exact forall_agrees_newCells _ _ _

/-- A backslash and a blank at the end of a directive's line: the bracket of the next line is lost. -/
theorem restyle_agrees_iff_backslash :
    ∃ tokens, tokenize .hlsl ['#', '\\', ' ', '\n', '('] = .ok tokens ∧
      ¬ ∃ tokens', tokenize .hlsl (restyle {} tokens).text = .ok tokens' ∧
        List.Forall₂ (Agrees {}) (contents tokens) (contents tokens') := by
  have htokens : tokenize .hlsl ['#', '\\', ' ', '\n', '('] = .ok _ :=
    tokenize_eq_ok_iff.2 ⟨[⟨.directive [], ['#', '\\']⟩, ⟨.whitespace, [' ']⟩, ⟨.lineBreak, ['\n']⟩,
      ⟨.punctuation, ['(']⟩], by decide +kernel, rfl, rfl⟩
  refine ⟨_, htokens, ?_⟩
  rw [restyle_agrees_iff {} .hlsl _ _ htokens, Classical.not_not]
  exact .inl ⟨by decide +kernel, by decide +kernel, by decide +kernel⟩

end ShaderStyle.Layout
