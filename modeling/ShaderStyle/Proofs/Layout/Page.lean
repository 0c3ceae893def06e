import ShaderStyle.Layout
import ShaderStyle.Proofs.Layout.Brackets
import ShaderStyle.Proofs.Token.Reading
import ShaderStyle.Suppression

/-!
# The page

A source text seen as content and layout: a `Cell` is a content lexeme with the layout before it, and
a `Page` is the cells of a source with the layout after the last. A cell knows whether its gap and its
item lie in a region that is left as it is; a gap lies in such a region as a whole, since only
comments open and close one.

`Page.formatted` says what formatting makes of a page, gap by gap: a gap that is left as it is, the
gap before a placed brace, a gap with line breaks, a gap next to a bracket, or any other. That the
three passes of formatting come to this is shown in `Proofs.Layout.Passes`.
-/

namespace ShaderStyle

namespace Lexeme

/-- Whether the lexeme is a line break. -/
def isNewline (l : Lexeme) : Bool :=
  l.kind = .lineBreak

end Lexeme

namespace Layout

/-! ## Regions -/

/-- Whether a lexeme lies in a region of an aspect; `inside` says whether one is open before it. -/
def keeps (aspect : Aspect) (inside : Bool) (l : Lexeme) : Bool :=
  inside || Marker.of? l = some (.opens aspect)

/-- Whether a region of an aspect is open behind a lexeme. -/
def insideAfter (aspect : Aspect) (inside : Bool) (l : Lexeme) : Bool :=
  if Marker.of? l = some (.opens aspect) then true
  else if Marker.of? l = some (.closes aspect) then false
  else inside

theorem regionFlags_cons (aspect : Aspect) (inside : Bool) (t : Token) (ts : List Token) :
    Suppression.regionFlags aspect inside (t :: ts) =
      keeps aspect inside t.toLexeme ::
        Suppression.regionFlags aspect (insideAfter aspect inside t.toLexeme) ts := by
  simp only [Suppression.regionFlags, keeps, insideAfter]
  split
  · simp [*]
  · split
    · simp [*]
    · simp [*]

theorem marker_of_layout {l : Lexeme} (h : l.kind.isLayout = true) : Marker.of? l = none := by
  obtain ⟨kind, text⟩ := l
  cases kind <;> simp [TokenKind.isLayout] at h <;> rfl

theorem keeps_layout {l : Lexeme} (h : l.kind.isLayout = true) (aspect : Aspect) (inside : Bool) :
    keeps aspect inside l = inside := by
  simp [keeps, marker_of_layout h]

theorem insideAfter_layout {l : Lexeme} (h : l.kind.isLayout = true) (aspect : Aspect)
    (inside : Bool) : insideAfter aspect inside l = inside := by
  simp [insideAfter, marker_of_layout h]

@[simp] theorem keeps_true (l : Lexeme) : keeps .format true l = true := rfl

/-- A region that is open behind a lexeme has the lexeme in it. -/
theorem keeps_of_insideAfter {inside : Bool} {l : Lexeme} (h : insideAfter .format inside l = true) :
    keeps .format inside l = true := by
  unfold insideAfter at h
  unfold keeps
  split at h
  · simp [*]
  · split at h
    · simp at h
    · simp [h]

/-! ## Cells -/

/-- A content lexeme and the layout before it. `inside` says that the gap is left as it is, `kept` the
same of the item. -/
structure Cell where
  gap : List Lexeme
  item : Lexeme
  inside : Bool
  kept : Bool
  deriving DecidableEq, Repr

namespace Cell

/-- The lexemes of a cell, in order. -/
def lexemes (c : Cell) : List Lexeme :=
  c.gap ++ [c.item]

/-- The item as a piece of the output. -/
def piece (c : Cell) : Piece :=
  ⟨c.item.kind, c.item.text, none, c.kept⟩

end Cell

/-- The cells of a source and the layout after the last. -/
structure Page where
  cells : List Cell
  tail : List Lexeme
  tailInside : Bool
  deriving DecidableEq, Repr

namespace Page

/-- The lexemes of a page, in order. -/
def lexemes (p : Page) : List Lexeme :=
  p.cells.flatMap Cell.lexemes ++ p.tail

/-- The text of a page. -/
def text (p : Page) : Text :=
  Lexer.textOf p.lexemes

/-- Puts a layout lexeme in front. -/
def consLayout (l : Lexeme) (p : Page) : Page :=
  match p.cells with
  | [] => { p with tail := l :: p.tail }
  | c :: more => { p with cells := { c with gap := l :: c.gap } :: more }

/-- Puts a content lexeme in front. -/
def consItem (inside : Bool) (l : Lexeme) (p : Page) : Page :=
  { p with cells := ⟨[], l, inside, keeps .format inside l⟩ :: p.cells }

/-- A list of lexemes as a page; `inside` says whether a region is open before them. -/
def ofLexemes (inside : Bool) : List Lexeme → Page
  | [] => ⟨[], [], inside⟩
  | l :: more =>
    if l.kind.isLayout then consLayout l (ofLexemes inside more)
    else consItem inside l (ofLexemes (insideAfter .format inside l) more)

/-- The gaps of the cells are layout, the items are none, and the regions are those of the markers
among the items; `inside` says whether a region is open before them, and `after` behind them. -/
def Regular (after : Bool) (inside : Bool) : List Cell → Prop
  | [] => after = inside
  | c :: more =>
    c.inside = inside ∧ c.kept = keeps .format inside c.item ∧ (∀ l ∈ c.gap, l.kind.isLayout = true) ∧
      c.item.kind.isLayout = false ∧ Regular after (insideAfter .format inside c.item) more

/-- A page as lexing and the markers make it. -/
structure IsRegular (inside : Bool) (p : Page) : Prop where
  cells : Regular p.tailInside inside p.cells
  tail : ∀ l ∈ p.tail, l.kind.isLayout = true

theorem lexemes_consLayout (l : Lexeme) (p : Page) : (p.consLayout l).lexemes = l :: p.lexemes := by
  obtain ⟨_ | ⟨c, more⟩, tail, after⟩ := p <;> simp [consLayout, lexemes, Cell.lexemes]

theorem lexemes_consItem (inside : Bool) (l : Lexeme) (p : Page) :
    (p.consItem inside l).lexemes = l :: p.lexemes := by
  simp [consItem, lexemes, Cell.lexemes]

/-- A page holds the lexemes it was made of. -/
@[simp] theorem lexemes_ofLexemes (inside : Bool) (ls : List Lexeme) :
    (ofLexemes inside ls).lexemes = ls := by
  induction ls generalizing inside with
  | nil => rfl
  | cons l more ih =>
    rw [ofLexemes]
    split
    · rw [lexemes_consLayout, ih]
    · rw [lexemes_consItem, ih]

theorem item_mem_of_mem_ofLexemes {inside : Bool} {ls : List Lexeme} {c : Cell}
    (h : c ∈ (ofLexemes inside ls).cells) : c.item ∈ ls := by
  rw [← lexemes_ofLexemes inside ls]
  exact List.mem_append_left _ (List.mem_flatMap.2 ⟨c, h, by simp [Cell.lexemes]⟩)

theorem isRegular_ofLexemes (inside : Bool) (ls : List Lexeme) :
    IsRegular inside (ofLexemes inside ls) := by
  induction ls generalizing inside with
  | nil => exact ⟨rfl, by simp [ofLexemes]⟩
  | cons l more ih =>
    rw [ofLexemes]
    split
    · rename_i hl
      obtain ⟨hcells, htail⟩ := ih inside
      generalize ofLexemes inside more = p at hcells htail ⊢
      obtain ⟨_ | ⟨c, cells⟩, tail, after⟩ := p
      · exact ⟨hcells, by simpa [consLayout, hl] using htail⟩
      · obtain ⟨h1, h2, h3, h4, h5⟩ := hcells
        exact ⟨⟨h1, h2, by simpa [hl] using h3, h4, h5⟩, htail⟩
    · rename_i hl
      obtain ⟨hcells, htail⟩ := ih (insideAfter .format inside l)
      exact ⟨⟨rfl, rfl, by simp, by simpa using hl, hcells⟩, htail⟩

theorem ofLexemes_layout_append (inside : Bool) {g : List Lexeme}
    (hg : ∀ l ∈ g, l.kind.isLayout = true) (ls : List Lexeme) :
    ofLexemes inside (g ++ ls) =
      match ofLexemes inside ls with
      | ⟨[], tail, after⟩ => ⟨[], g ++ tail, after⟩
      | ⟨c :: more, tail, after⟩ => ⟨{ c with gap := g ++ c.gap } :: more, tail, after⟩ := by
  induction g with
  | nil =>
    rw [List.nil_append]
    obtain ⟨_ | ⟨c, more⟩, tail, after⟩ := ofLexemes inside ls <;> rfl
  | cons l g ih =>
    rw [List.cons_append, ofLexemes, if_pos (hg l (by simp)), ih fun l hl => hg l (by simp [hl])]
    obtain ⟨_ | ⟨c, more⟩, tail, after⟩ := ofLexemes inside ls <;> rfl

/-- The lexemes of a regular page give the page back. -/
theorem ofLexemes_lexemes {inside : Bool} {p : Page} (h : IsRegular inside p) :
    ofLexemes inside p.lexemes = p := by
  obtain ⟨cells, tail, after⟩ := p
  obtain ⟨hcells, htail⟩ := h
  simp only at hcells htail
  induction cells generalizing inside with
  | nil =>
    have := ofLexemes_layout_append inside htail []
    rw [List.append_nil] at this
    rw [show lexemes ⟨[], tail, after⟩ = tail from rfl, this, show after = inside from hcells]
    simp [ofLexemes]
  | cons c cells ih =>
    obtain ⟨h1, h2, h3, h4, h5⟩ := hcells
    have hsplit : lexemes ⟨c :: cells, tail, after⟩ =
        c.gap ++ c.item :: lexemes ⟨cells, tail, after⟩ := by
      simp [lexemes, Cell.lexemes]
    rw [hsplit, ofLexemes_layout_append inside h3, ofLexemes, if_neg (by simp [h4]), ih h5]
    have hc : (⟨c.gap, c.item, inside, keeps .format inside c.item⟩ : Cell) = c := by rw [← h2, ← h1]
    simp only [consItem, List.append_nil, hc]

end Page

/-! ## Gaps -/

/-- The line breaks in a gap. -/
def breaks (g : List Lexeme) : Nat :=
  g.countP Lexeme.isNewline

/-- The blanks behind the last line break of a gap. -/
def lastBlanks (g : List Lexeme) : List Lexeme :=
  (g.reverse.takeWhile fun l => !l.isNewline).reverse

/-- A gap of these blanks. -/
def blanks (t : Text) : List Lexeme :=
  if t = [] then [] else [⟨.whitespace, t⟩]

/-- The line break that the rules want. -/
def newline (rules : RuleSet) : Lexeme :=
  ⟨.lineBreak, rules.lineEnding.text⟩

/-- How many of `n` line breaks are left: the one that ends the line with content, if there is such
a line, and those of as many empty lines as are allowed. -/
def breaksLeft (rules : RuleSet) (start : Bool) (n : Nat) : Nat :=
  if start then min n rules.maxEmptyLines
  else if n = 0 then 0
  else 1 + min (n - 1) rules.maxEmptyLines

/-- The line breaks that are left of a gap. -/
def newBreaks (rules : RuleSet) (start : Bool) (g : List Lexeme) : List Lexeme :=
  List.replicate (breaksLeft rules start (breaks g)) (newline rules)

theorem lastBlanks_append {xs g : List Lexeme} (hxs : ∀ l ∈ xs.getLast?, l.isNewline = true)
    (hg : ∀ l ∈ g, l.isNewline = false) : lastBlanks (xs ++ g) = g := by
  have hpos : ∀ l ∈ g.reverse, (!l.isNewline) = true := by
    intro l hl
    simp [hg l (List.mem_reverse.1 hl)]
  unfold lastBlanks
  rw [List.reverse_append, List.takeWhile_append_of_pos hpos]
  cases hlast : xs.reverse with
  | nil => simp
  | cons l ys =>
    have hl : l.isNewline = true := by
      apply hxs
      rw [List.getLast?_eq_head?_reverse, hlast]
      rfl
    simp [hl]

theorem textOf_blanks (t : Text) : Lexer.textOf (blanks t) = t := by
  unfold blanks
  split
  · simp [*]
  · simp

theorem not_isNewline_blanks {t : Text} : ∀ l ∈ blanks t, l.isNewline = false := by
  intro l hl
  unfold blanks at hl
  split at hl
  · simp at hl
  · rw [List.mem_singleton.1 hl]
    rfl

/-- Line breaks and the blanks behind them are determined by the gap that they make up. -/
theorem replicate_append_inj {rules : RuleSet} {n : Nat} {xs g h : List Lexeme}
    (hxs : ∀ l ∈ xs.getLast?, l.isNewline = true) (hg : ∀ l ∈ g, l.isNewline = false)
    (hh : ∀ l ∈ h, l.isNewline = false)
    (heq : List.replicate n (newline rules) ++ g = xs ++ h) :
    List.replicate n (newline rules) = xs ∧ g = h := by
  have hbreaks : ∀ l ∈ (List.replicate n (newline rules)).getLast?, l.isNewline = true := by
    intro l hl
    rw [List.eq_of_mem_replicate (List.mem_of_getLast? hl)]
    rfl
  have hlast := congrArg lastBlanks heq
  rw [lastBlanks_append hbreaks hg, lastBlanks_append hxs hh] at hlast
  subst hlast
  exact ⟨List.append_cancel_right heq, rfl⟩

/-! ## What formatting makes of a page -/

/-- What stands before a cell: nothing at all, the header of a block or an opening bracket, the braces
and conditional groups that are open, and the number of content lexemes. -/
structure Place where
  start : Bool := true
  header : Bool := false
  opener : Bool := false
  braces : Nat := 0
  groups : Nat := 0
  index : Nat := 0

/-- How a line that starts with the cell's item is indented. -/
def Place.indent (rules : RuleSet) (here : Place) (c : Cell) : Indent :=
  indentFor rules { braces := here.braces, groups := here.groups } c.piece

/-- The place behind a cell. -/
def Place.after (rules : RuleSet) (here : Place) (c : Cell) : Place where
  start := false
  header := endsHeader c.piece && !c.kept
  opener := isOpener c.piece
  braces := bracesAfter here.braces [c.piece]
  groups := (here.indent rules c).groups
  index := here.index + 1

/-- Whether the cell is an opening brace that the rules place. -/
def Cell.isPlaced (here : Place) (c : Cell) : Bool :=
  c.item.isMark '{' && !c.kept && here.header

/-- What formatting makes of the gap of a cell. `edges` gives the blanks that a bracket wants. -/
def newGap (rules : RuleSet) (edges : Nat → Option Text) (here : Place) (c : Cell) : List Lexeme :=
  if c.inside then c.gap
  else if c.isPlaced here then
    match rules.openBrace with
    | .sameLine => blanks [' ']
    | .ownLine => newline rules :: blanks (here.indent rules c).text
  else if here.start || breaks c.gap ≠ 0 then
    newBreaks rules here.start c.gap ++
      if c.kept then lastBlanks c.gap else blanks (here.indent rules c).text
  else match edges here.index with
    | some t => blanks t
    | none => c.gap

/-- What formatting makes of an item: its line breaks are written as the rules say. -/
def newItem (rules : RuleSet) (kept : Bool) (l : Lexeme) : Lexeme :=
  if kept then l
  else match l.kind with
    | .blockComment _ | .directive _ =>
      { l with text := Text.withEnding rules.lineEnding.text l.text }
    | _ => l

/-- What formatting makes of a cell. -/
def newCell (rules : RuleSet) (edges : Nat → Option Text) (here : Place) (c : Cell) : Cell :=
  { c with gap := newGap rules edges here c, item := newItem rules c.kept c.item }

/-- What formatting makes of some cells. -/
def newCells (rules : RuleSet) (edges : Nat → Option Text) (here : Place) : List Cell → List Cell
  | [] => []
  | c :: more => newCell rules edges here c :: newCells rules edges (here.after rules c) more

/-- The blanks that brackets want before each content lexeme. -/
def edgesOf (rules : RuleSet) (cells : List Cell) : Nat → Option Text :=
  edgeBlanks rules (livePairs (cells.map fun c => ⟨[], c.piece⟩))

/-- What formatting makes of the layout behind the last cell. -/
def newTail (rules : RuleSet) (start inside : Bool) (g : List Lexeme) : List Lexeme :=
  if inside then g else newBreaks rules start g

/-- What formatting makes of a page. -/
def Page.formatted (rules : RuleSet) (p : Page) : Page where
  cells := newCells rules (edgesOf rules p.cells) {} p.cells
  tail := newTail rules p.cells.isEmpty p.tailInside p.tail
  tailInside := p.tailInside

end Layout

end ShaderStyle
