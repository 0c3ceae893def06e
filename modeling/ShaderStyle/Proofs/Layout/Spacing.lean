import ShaderStyle.Proofs.Layout.Indent
import ShaderStyle.Proofs.Layout.Verbatim

/-!
# Between two items

The items of a source are the tokens that are neither layout nor its end. What stands between two
neighbouring items is replaced in two cases only: before an opening brace behind a header
(`InnerGap.PlacesBrace`), and just inside a pair of brackets (`InnerGap.IsEdgeOf`). Within a line,
everything else stays as it is (`InnerGap.IsSpaced`).

Formatting keeps the items in order, with a gap behind each of them (`IsWoven`); since a gap is layout
and an item starts with none, the gaps are determined by the text (`IsWoven.unique`). Each gap between
two items is spaced as the rules say (`restyle_isSpaced`).
-/

namespace ShaderStyle.Layout

open Lexer

/-! ## What the gaps hold -/

/-- Whether a marked token is an item: neither layout nor the end of the file. -/
def isItem (m : Lexeme × Bool) : Bool :=
  !m.1.kind.isLayout && m.1.kind ≠ .eof

/-- The items among some marked tokens. -/
def items (ms : List (Lexeme × Bool)) : List (Lexeme × Bool) :=
  ms.filter isItem

/-- A marked token as a piece. -/
def pieceOf (m : Lexeme × Bool) : Piece :=
  ⟨m.1.kind, m.1.text, none, m.2⟩

/-- Two neighbouring items among some marked tokens, and the layout between them. -/
structure InnerGap (ms : List (Lexeme × Bool)) where
  before : List (Lexeme × Bool)
  left : Lexeme × Bool
  gap : List (Lexeme × Bool)
  right : Lexeme × Bool
  behind : List (Lexeme × Bool)
  split : ms = before ++ left :: (gap ++ right :: behind)
  left_isItem : isItem left = true
  right_isItem : isItem right = true
  layout : ∀ m ∈ gap, m.1.kind.isLayout = true

/-- Whether a block may follow the item: a closing bracket, or a word other than `return`. -/
def IsHeader (l : Lexeme) : Prop :=
  l.isMark ')' = true ∨ l.isMark ']' = true ∨ l.kind = .word .identifier ∨
    (l.kind = .word .keyword ∧ l.text ≠ ['r', 'e', 't', 'u', 'r', 'n']) ∨
    ∃ category, l.kind = .word (.typeName category)

namespace InnerGap

variable {ms : List (Lexeme × Bool)} (x : InnerGap ms)

/-- The number of the left item among all items. -/
def index : Nat :=
  (items x.before).length

/-- The gap stands between a header and an opening brace, and nothing there is left as it is. -/
structure PlacesBrace : Prop where
  brace : x.right.1.isMark '{' = true
  header : IsHeader x.left.1
  brace_free : x.right.2 = false
  header_free : x.left.2 = false
  free : ∀ m ∈ x.gap, m.2 = false

/-- The gap is just inside a pair of brackets, on one line, and nothing there is left as it is. -/
structure IsEdgeOf (p : BracketPair) : Prop where
  edge : p.openAt = x.index ∨ p.closeAt = x.index + 1
  opener_free : p.opener.suppressed = false
  closer_free : p.closer.suppressed = false
  free : ∀ m ∈ x.gap, m.2 = false
  oneLine : ∀ m ∈ x.gap, m.1.isNewline = false

/-- What comes out between the two items. -/
structure IsSpaced (rules : RuleSet) (g : Text) : Prop where
  brace : x.PlacesBrace → g =
    match rules.openBrace with
    | .sameLine => [' ']
    | .ownLine => rules.lineEnding.text ++
        lineIndent rules ((items x.before).map Prod.fst ++ [x.left.1]) x.right.1
  edge : ∀ p ∈ bracketPairs [] 0 ((items ms).map pieceOf), x.IsEdgeOf p → g =
    if p.closeAt = p.openAt + 1 then [] else if rules.spacesInBrackets then [' '] else []
  other : (∀ m ∈ x.gap, m.1.isNewline = false) → ¬ x.PlacesBrace →
    (∀ p ∈ bracketPairs [] 0 ((items ms).map pieceOf), ¬ x.IsEdgeOf p) →
      g = x.gap.flatMap fun m => m.1.text

end InnerGap

/-- The text is made of the items, in order, with layout before the first and behind each of them. The
text of an item is as it was, or has its line breaks written as the rules say. -/
structure IsWoven (rules : RuleSet) (its : List (Lexeme × Bool)) (first : Text) (gaps : List Text)
    (t : Text) : Prop where
  length_eq : gaps.length = its.length
  first_isLayout : first.IsLayout
  isLayout : ∀ g ∈ gaps, g.IsLayout
  text : t = first ++ (its.zipWith (fun m g => (newItem rules m.2 m.1).text ++ g) gaps).flatten

variable {d : Dialect} {rules : RuleSet}

/-! ## Gaps of a text -/

section Woven

theorem not_startsItem_of_isLayout {c : Char} {s : Text} (h : Text.IsLayout (c :: s)) (u : Text) :
    ¬ StartsItem (c :: u) := by
  intro hitem
  have hc := hitem c rfl
  simpa [hc] using h c List.mem_cons_self

/-- Layout ends where an item starts. -/
theorem eq_of_isLayout_append {s s' u u' : Text} (hs : s.IsLayout) (hs' : s'.IsLayout)
    (hu : StartsItem u) (hu' : StartsItem u') (h : s ++ u = s' ++ u') : s = s' ∧ u = u' := by
  induction s generalizing s' with
  | nil =>
    cases s' with
    | nil => exact ⟨rfl, h⟩
    | cons c s' =>
      rw [List.nil_append, List.cons_append] at h
      rw [h] at hu
      exact absurd hu (not_startsItem_of_isLayout hs' _)
  | cons c s ih =>
    cases s' with
    | nil =>
      rw [List.nil_append, List.cons_append] at h
      rw [← h] at hu'
      exact absurd hu' (not_startsItem_of_isLayout hs _)
    | cons c' s' =>
      rw [List.cons_append, List.cons_append, List.cons.injEq] at h
      have hmore : Text.IsLayout s := fun z hz => hs z (List.mem_cons_of_mem c hz)
      have hmore' : Text.IsLayout s' := fun z hz => hs' z (List.mem_cons_of_mem c' hz)
      rcases ih hmore hmore' h.2 with ⟨hlayout, hrest⟩
      exact ⟨by rw [h.1, hlayout], hrest⟩

variable {its : List (Lexeme × Bool)} {first first' t : Text} {gaps gaps' : List Text}

/-- What stands behind the first item is made of the other items, with the first gap before them. -/
theorem IsWoven.exists_tail {m : Lexeme × Bool} (h : IsWoven rules (m :: its) first gaps t) :
    ∃ g rest u, gaps = g :: rest ∧ IsWoven rules its g rest u ∧
      t = first ++ ((newItem rules m.2 m.1).text ++ u) := by
  rcases h with ⟨hlength, hfirst, hgaps, htext⟩
  cases gaps with
  | nil => simp at hlength
  | cons g rest =>
    have hmore : ∀ g ∈ rest, g.IsLayout := fun g' hg' => hgaps g' (List.mem_cons_of_mem g hg')
    refine ⟨g, rest, _, rfl, ⟨by simpa using hlength, hgaps g List.mem_cons_self, hmore, rfl⟩, ?_⟩
    rw [htext, List.zipWith_cons_cons, List.flatten_cons, List.append_assoc]

/-- A text is made of some items in one way only. -/
theorem IsWoven.unique (hits : ∀ m ∈ its, ∀ u, StartsItem ((newItem rules m.2 m.1).text ++ u))
    (h : IsWoven rules its first gaps t) (h' : IsWoven rules its first' gaps' t) :
    first = first' ∧ gaps = gaps' := by
  induction its generalizing first first' gaps gaps' t with
  | nil =>
    rw [List.length_eq_zero_iff.1 h.length_eq, List.length_eq_zero_iff.1 h'.length_eq]
    have htext : first ++ [] = first' ++ [] := h.text.symm.trans h'.text
    exact ⟨List.append_cancel_right htext, rfl⟩
  | cons m its ih =>
    rcases h.exists_tail with ⟨g, rest, u, rfl, htail, htext⟩
    rcases h'.exists_tail with ⟨g', rest', u', rfl, htail', htext'⟩
    have hitem := hits m List.mem_cons_self
    rcases eq_of_isLayout_append h.first_isLayout h'.first_isLayout (hitem u) (hitem u')
      (htext.symm.trans htext') with ⟨hfirst, hrest⟩
    rw [List.append_cancel_left hrest] at htail
    rcases ih (fun m hm => hits m (List.mem_cons_of_mem _ hm)) htail htail' with ⟨rfl, rfl⟩
    exact ⟨hfirst, rfl⟩

end Woven

/-! ## Headers -/

theorem classify_return (d : Dialect) : d.classify ['r', 'e', 't', 'u', 'r', 'n'] = .keyword := by
  cases d <;> decide +kernel

theorem scanSymbol_ne_word (c : Char) (rest : Text) (cls : WordClass) :
    (scanSymbol c rest).1 ≠ .word cls := by
  unfold scanSymbol
  split
  · simp
  · split <;> simp

/-- A word that is read is in the class that its dialect puts it in. -/
theorem classify_of_reads {b : Bool} {l : Lexeme} {t : Text} {cls : WordClass} (h : Reads d b l t)
    (hword : l.kind = .word cls) : cls = d.classify l.text := by
  obtain ⟨c, u, rest, n, k, htext, hrest, hlength, hkind, hcut⟩ := h.cut
  obtain rfl : k = .word cls := hkind.symm.trans hword
  cases hcut with
  | plain _ hplain =>
    unfold scanPlain at hplain
    split at hplain
    · simp at hplain
    · split at hplain
      · rw [Prod.mk.injEq, TokenKind.word.injEq] at hplain
        rw [hplain.2, ← hlength, ← hrest, List.take_left] at hplain
        rw [htext, hplain.1]
      · exact absurd (congrArg Prod.fst hplain) (scanSymbol_ne_word c rest cls)

/-- The brace pass takes just the headers for headers, in lexed sources. -/
theorem endsHeader_iff {b : Bool} {l : Lexeme} {t : Text} (h : Reads d b l t) (s : Bool) :
    endsHeader (pieceOf (l, s)) = true ↔ IsHeader l := by
  have hpiece : (pieceOf (l, s)).kind = l.kind := rfl
  have htext : (pieceOf (l, s)).text = l.text := rfl
  rw [endsHeader, hpiece, htext, IsHeader, Lexeme.isMark, Lexeme.isMark]
  cases hkind : l.kind with
  | punctuation => simp
  | word cls =>
    have hclass := classify_of_reads h hkind
    have hreturn (hcls : cls ≠ .keyword) : l.text ≠ ['r', 'e', 't', 'u', 'r', 'n'] := by
      intro htext
      rw [htext, classify_return] at hclass
      exact hcls hclass
    cases cls with
    | identifier => simp [hreturn]
    | keyword => simp
    | typeName category => simp [hreturn]
  | _ => simp

/-! ## Cells behind cells -/

/-- The item of a cell, with whether it is left as it is. -/
def Cell.markedItem (c : Cell) : Lexeme × Bool :=
  (c.item, c.kept)

/-- The place behind some cells. -/
def Place.afterAll (rules : RuleSet) (here : Place) (cells : List Cell) : Place :=
  cells.foldl (Place.after rules) here

theorem newCells_append (edges : Nat → Option Text) (here : Place) (cs ds : List Cell) :
    newCells rules edges here (cs ++ ds) =
      newCells rules edges here cs ++ newCells rules edges (here.afterAll rules cs) ds := by
  induction cs generalizing here with
  | nil => rfl
  | cons c cs ih =>
    rw [List.cons_append, newCells, newCells, ih]
    rfl

theorem length_newCells (edges : Nat → Option Text) (here : Place) (cs : List Cell) :
    (newCells rules edges here cs).length = cs.length := by
  induction cs generalizing here with
  | nil => rfl
  | cons c cs ih => rw [newCells, List.length_cons, List.length_cons, ih]

theorem SoundCells.append {edges : Nat → Option Text} {here : Place} {cs ds : List Cell}
    (h : SoundCells rules edges here (cs ++ ds)) :
    SoundCells rules edges (here.afterAll rules cs) ds := by
  induction cs generalizing here with
  | nil => exact h
  | cons c cs ih => exact ih h.2

theorem SoundCells.exists_isSound {edges : Nat → Option Text} {here : Place} {cells : List Cell}
    (h : SoundCells rules edges here cells) {c : Cell} (hc : c ∈ cells) :
    ∃ there, c.IsSound edges there := by
  induction cells generalizing here with
  | nil => simp at hc
  | cons c' cells ih =>
    rcases List.mem_cons.1 hc with rfl | hc
    · exact ⟨here, h.1⟩
    · exact ih h.2 hc

theorem index_afterAll (here : Place) (cs : List Cell) :
    (here.afterAll rules cs).index = here.index + cs.length := by
  induction cs generalizing here with
  | nil => rfl
  | cons c cs ih =>
    have hafter : (here.afterAll rules (c :: cs)).index = (here.index + 1) + cs.length :=
      ih (here.after rules c)
    rw [hafter, List.length_cons, Nat.add_assoc, Nat.add_comm 1]

/-- The braces and groups that are open at a place, as the pass over the lines carries them. -/
def Place.lineState (here : Place) : LineState :=
  { braces := here.braces, groups := here.groups }

theorem counts_after {here : Place} {earlier : List Lexeme}
    (h : here.lineState.Counts rules earlier) (c : Cell) :
    (here.after rules c).lineState.Counts rules (earlier ++ [c.item]) := by
  constructor
  · have hbraces := openBraces_append earlier [c.piece]
    rw [List.map_singleton, show c.piece.lexeme = c.item from rfl, ← h.braces] at hbraces
    exact hbraces.symm
  · intro hnests
    exact groups_indentFor_eq h hnests c.piece

/-- The counters of a place count what is open behind the items before it. -/
theorem counts_afterAll {here : Place} {earlier : List Lexeme}
    (h : here.lineState.Counts rules earlier) (cs : List Cell) :
    (here.afterAll rules cs).lineState.Counts rules (earlier ++ cs.map Cell.item) := by
  induction cs generalizing here earlier with
  | nil => simpa [Place.afterAll] using h
  | cons c cs ih =>
    have hcells := ih (counts_after h c)
    rw [List.append_assoc, List.singleton_append] at hcells
    exact hcells

/-! ## One gap -/

/-- The cells to the left and to the right of a gap between two items. -/
structure InnerGap.Meets {ms : List (Lexeme × Bool)} (x : InnerGap ms) (before : List Cell)
    (left right : Cell) : Prop where
  before : items x.before = before.map Cell.markedItem
  left : x.left = left.markedItem
  gap : x.gap = right.gap.map (·, right.inside)
  right : x.right = right.markedItem

section Gap

variable {ms : List (Lexeme × Bool)} {x : InnerGap ms} {before behind : List Cell} {left right : Cell}

theorem InnerGap.Meets.index (h : x.Meets before left right) : x.index = before.length := by
  rw [InnerGap.index, h.before, List.length_map]

theorem InnerGap.Meets.oneLine_iff (h : x.Meets before left right) :
    (∀ m ∈ x.gap, m.1.isNewline = false) ↔ breaks right.gap = 0 := by
  rw [h.gap, breaks, List.countP_eq_zero]
  simp

theorem InnerGap.Meets.free (h : x.Meets before left right) (hinside : right.inside = false) :
    ∀ m ∈ x.gap, m.2 = false := by
  rw [h.gap]
  intro m hm
  rcases List.mem_map.1 hm with ⟨l, -, rfl⟩
  exact hinside

theorem InnerGap.Meets.placesBrace_iff (h : x.Meets before left right) {b : Bool} {t : Text}
    (hread : Reads d b left.item t) {edges : Nat → Option Text}
    (hsound : right.IsSound edges (({} : Place).afterAll rules (before ++ [left]))) :
    x.PlacesBrace ↔ right.isPlaced (({} : Place).afterAll rules (before ++ [left])) = true := by
  have hheader : (({} : Place).afterAll rules (before ++ [left])).header =
      (endsHeader (pieceOf left.markedItem) && !left.kept) := by
    simp only [Place.afterAll, List.foldl_append]
    rfl
  have hends := endsHeader_iff hread left.kept
  rw [Cell.isPlaced, hheader]
  constructor
  · rintro ⟨hbrace, hisHeader, hright, hleft, -⟩
    rw [h.right] at hbrace hright
    rw [h.left] at hisHeader hleft
    have hmark : right.item.isMark '{' = true := hbrace
    have hkept : right.kept = false := hright
    have hfree : left.kept = false := hleft
    have hisHeader : endsHeader (pieceOf left.markedItem) = true := hends.2 hisHeader
    simp [hmark, hkept, hfree, hisHeader]
  · intro hplaced
    simp only [Bool.and_eq_true, Bool.not_eq_true'] at hplaced
    obtain ⟨⟨hmark, hkept⟩, hisHeader, hfree⟩ := hplaced
    have hinside : right.inside = false := by
      rw [← Bool.not_eq_true]
      intro hinside
      rw [hsound.kept hinside] at hkept
      simp at hkept
    refine ⟨?_, ?_, ?_, ?_, h.free hinside⟩
    · rw [h.right]
      exact hmark
    · rw [h.left]
      exact hends.1 hisHeader
    · rw [h.right]
      exact hkept
    · rw [h.left]
      exact hfree

/-- The pairs of brackets among the items are those among the cells. -/
theorem mem_livePairs_cells {cells : List Cell} (hitems : items ms = cells.map Cell.markedItem)
    {p : BracketPair} : p ∈ livePairs (cells.map fun c => ⟨[], c.piece⟩) ↔
      p ∈ bracketPairs [] 0 ((items ms).map pieceOf) ∧ p.isLive = true := by
  rw [mem_livePairs_iff, hitems, List.map_map, List.map_map]
  rfl

/-- Just inside a pair, the pair says what is wanted. -/
theorem InnerGap.IsEdgeOf.edgesOf_eq {cells : List Cell} {p : BracketPair} (h : x.IsEdgeOf p)
    (hitems : items ms = cells.map Cell.markedItem)
    (hp : p ∈ bracketPairs [] 0 ((items ms).map pieceOf)) :
    edgesOf rules cells (x.index + 1) =
      some (if p.closeAt = p.openAt + 1 then [] else innerBlanks rules) := by
  have hlive : p.isLive = true := by
    simp [BracketPair.isLive, h.opener_free, h.closer_free]
  apply edgeBlanks_of_mem ((mem_livePairs_cells hitems).2 ⟨hp, hlive⟩)
  exact h.edge.imp (congrArg (· + 1)) id

/-- Where something is wanted, the gap is just inside a pair. -/
theorem InnerGap.exists_isEdgeOf {cells : List Cell} {t : Text} (x : InnerGap ms)
    (hitems : items ms = cells.map Cell.markedItem) (hfree : ∀ m ∈ x.gap, m.2 = false)
    (honeLine : ∀ m ∈ x.gap, m.1.isNewline = false)
    (h : edgesOf rules cells (x.index + 1) = some t) :
    ∃ p ∈ bracketPairs [] 0 ((items ms).map pieceOf), x.IsEdgeOf p := by
  rcases exists_mem_of_edgeBlanks h with ⟨p, hp, hpi⟩
  rcases (mem_livePairs_cells hitems).1 hp with ⟨hpair, hlive⟩
  simp only [BracketPair.isLive, Bool.and_eq_true, Bool.not_eq_true'] at hlive
  have hedge : p.openAt = x.index ∨ p.closeAt = x.index + 1 := by omega
  exact ⟨p, hpair, hedge, hlive.1, hlive.2, hfree, honeLine⟩

/-- What formatting makes of the gap of a cell is what the rules ask for between two items. -/
theorem InnerGap.Meets.isSpaced (h : x.Meets before left right)
    (hitems : items ms = (before ++ left :: right :: behind).map Cell.markedItem) {b : Bool} {t : Text}
    (hread : Reads d b left.item t)
    (hsound : right.IsSound (edgesOf rules (before ++ left :: right :: behind))
      (({} : Place).afterAll rules (before ++ [left]))) :
    x.IsSpaced rules (textOf (newGap rules (edgesOf rules (before ++ left :: right :: behind))
      (({} : Place).afterAll rules (before ++ [left])) right)) := by
  have hplaces := h.placesBrace_iff hread hsound
  have hstart : (({} : Place).afterAll rules (before ++ [left])).start = false := by
    simp only [Place.afterAll, List.foldl_append]
    rfl
  have hindex : (({} : Place).afterAll rules (before ++ [left])).index = x.index + 1 := by
    rw [index_afterAll, h.index]
    simp
  have hcounts : (({} : Place).afterAll rules (before ++ [left])).lineState.Counts rules
      ([] ++ (before ++ [left]).map Cell.item) :=
    counts_afterAll (LineState.counts_nil rules) (before ++ [left])
  generalize ({} : Place).afterAll rules (before ++ [left]) = here at *
  refine ⟨?_, ?_, ?_⟩
  · -- a brace behind a header
    intro hplaced
    have hright : right.kept = false := by
      have := hplaced.brace_free
      rwa [h.right] at this
    have hinside : ¬ right.inside = true := by
      intro hinside
      rw [hsound.kept hinside] at hright
      simp at hright
    have hindent : (here.indent rules right).text =
        lineIndent rules ((items x.before).map Prod.fst ++ [x.left.1]) x.right.1 := by
      have hitems : (items x.before).map Prod.fst ++ [x.left.1] =
          [] ++ (before ++ [left]).map Cell.item := by
        rw [h.before, h.left, List.map_map, List.map_append]
        rfl
      rw [hitems, h.right]
      exact text_indentFor hcounts right.piece
    rw [newGap, if_neg hinside, if_pos (hplaces.1 hplaced)]
    cases rules.openBrace with
    | sameLine => exact textOf_blanks [' ']
    | ownLine =>
      rw [textOf_cons, textOf_blanks, hindent]
      rfl
  · -- just inside a pair
    intro p hp hedge
    have hwanted : edgesOf rules (before ++ left :: right :: behind) here.index =
        some (if p.closeAt = p.openAt + 1 then [] else innerBlanks rules) := by
      rw [hindex]
      exact hedge.edgesOf_eq hitems hp
    obtain ⟨-, hinside, hplaced, -⟩ := hsound.edge _ hwanted
    have hbreaks := h.oneLine_iff.1 hedge.oneLine
    rw [newGap, hinside, hplaced, hstart, hbreaks, hwanted]
    exact textOf_blanks _
  · -- anywhere else on a line
    intro honeLine hplaced hedge
    have hbreaks := h.oneLine_iff.1 honeLine
    have hgap : (x.gap.flatMap fun m => m.1.text) = textOf right.gap := by
      rw [h.gap, List.flatMap_map]
      rfl
    rw [hgap]
    rw [hplaces, Bool.not_eq_true] at hplaced
    by_cases hinside : right.inside = true
    · rw [newGap, if_pos hinside]
    · rw [newGap, if_neg hinside, hplaced, hstart, hbreaks]
      cases hwanted : edgesOf rules (before ++ left :: right :: behind) here.index with
      | none => rfl
      | some t =>
        rw [Bool.not_eq_true] at hinside
        rw [hindex] at hwanted
        rcases x.exists_isEdgeOf hitems (h.free hinside) honeLine hwanted with ⟨p, hp, hpx⟩
        exact absurd hpx (hedge p hp)

end Gap

/-! ## All gaps -/

/-- The gap of the cell is layout, and its item is an item. -/
structure Cell.IsParted (c : Cell) : Prop where
  gap : ∀ l ∈ c.gap, l.kind.isLayout = true
  item : isItem c.markedItem = true

theorem not_isItem_of_layout {m : Lexeme × Bool} (h : m.1.kind.isLayout = true) :
    isItem m = false := by
  simp [isItem, h]

theorem items_gap {c : Cell} (h : c.IsParted) : items (c.gap.map (·, c.inside)) = [] := by
  rw [items, List.filter_eq_nil_iff]
  intro m hm
  rcases List.mem_map.1 hm with ⟨l, hl, rfl⟩
  simp [not_isItem_of_layout (m := (l, c.inside)) (h.gap l hl)]

theorem items_flatMap_marked {cells : List Cell} (h : ∀ c ∈ cells, c.IsParted) :
    items (cells.flatMap Cell.marked) = cells.map Cell.markedItem := by
  induction cells with
  | nil => rfl
  | cons c cells ih =>
    have hc := h c (by simp)
    have hitem : items [(c.item, c.kept)] = [c.markedItem] := List.filter_cons_of_pos hc.item
    have hgap := items_gap hc
    have hmore := ih fun c hc => h c (by simp [hc])
    simp only [items] at hitem hgap hmore ⊢
    rw [List.flatMap_cons, Cell.marked, List.filter_append, List.filter_append, hgap, hitem, hmore]
    rfl

/-- An item among the tokens of some cells is that of a cell, and what stands before and behind it are
the cells before and behind. -/
theorem exists_cell {cells : List Cell} {rest before behind : List (Lexeme × Bool)} {m : Lexeme × Bool}
    (hcells : ∀ c ∈ cells, c.IsParted) (hrest : ∀ m ∈ rest, isItem m = false) (hm : isItem m = true)
    (h : cells.flatMap Cell.marked ++ rest = before ++ m :: behind) :
    ∃ cs c ds, cells = cs ++ c :: ds ∧ m = c.markedItem ∧
      before = cs.flatMap Cell.marked ++ c.gap.map (·, c.inside) ∧
      behind = ds.flatMap Cell.marked ++ rest := by
  induction cells generalizing before with
  | nil =>
    have hmem : m ∈ rest := by
      rw [List.flatMap_nil, List.nil_append] at h
      simp [h]
    simp [hrest m hmem] at hm
  | cons c cells ih =>
    have hc := hcells c (by simp)
    have hsplit : (c :: cells).flatMap Cell.marked ++ rest =
        c.gap.map (·, c.inside) ++ c.markedItem :: (cells.flatMap Cell.marked ++ rest) := by
      simp [Cell.marked, Cell.markedItem]
    have hhere (hbefore : before = c.gap.map (·, c.inside))
        (heq : c.markedItem :: (cells.flatMap Cell.marked ++ rest) = m :: behind) :
        ∃ cs c' ds, c :: cells = cs ++ c' :: ds ∧ m = c'.markedItem ∧
          before = cs.flatMap Cell.marked ++ c'.gap.map (·, c'.inside) ∧
          behind = ds.flatMap Cell.marked ++ rest := by
      rw [List.cons.injEq] at heq
      exact ⟨[], c, cells, rfl, heq.1.symm, hbefore, heq.2.symm⟩
    rw [hsplit, List.append_eq_append_iff] at h
    rcases h with ⟨more, hbefore, heq⟩ | ⟨more, hgap, heq⟩
    · cases more with
      | nil => exact hhere (by simpa using hbefore) heq
      | cons m' more =>
        rw [List.cons_append, List.cons.injEq] at heq
        rcases ih (fun c hc => hcells c (by simp [hc])) heq.2 with
          ⟨cs, c', ds, rfl, hm', hmore, hbehind⟩
        refine ⟨c :: cs, c', ds, rfl, hm', ?_, hbehind⟩
        rw [hbefore, ← heq.1, hmore, List.flatMap_cons, Cell.marked]
        simp [Cell.markedItem]
    · cases more with
      | nil => exact hhere (by simpa using hgap.symm) heq.symm
      | cons m' more =>
        -- the item would be in the gap
        rw [List.cons_append, List.cons.injEq] at heq
        have hmem : m ∈ c.gap.map (·, c.inside) := by
          rw [hgap, heq.1]
          simp
        rcases List.mem_map.1 hmem with ⟨l, hl, rfl⟩
        rw [not_isItem_of_layout (hc.gap l hl)] at hm
        simp at hm

/-- A gap between two items is the gap of a cell behind another. -/
theorem exists_meets {cells : List Cell} {rest : List (Lexeme × Bool)}
    (hcells : ∀ c ∈ cells, c.IsParted) (hrest : ∀ m ∈ rest, isItem m = false)
    (x : InnerGap (cells.flatMap Cell.marked ++ rest)) :
    ∃ before left right behind, cells = before ++ left :: right :: behind ∧
      x.Meets before left right := by
  rcases exists_cell hcells hrest x.left_isItem x.split with
    ⟨before, left, more, rfl, hleft, hbefore, hmore⟩
  have hparted : ∀ c ∈ more, c.IsParted := fun c hc => hcells c (by simp [hc])
  rcases exists_cell hparted hrest x.right_isItem hmore.symm with
    ⟨between, right, behind, rfl, hright, hgap, -⟩
  -- no cell is in between, since its item would be in the gap
  have hnone : between = [] := by
    rw [List.eq_nil_iff_forall_not_mem]
    intro c hc
    have hmem : c.markedItem ∈ x.gap := by
      rw [hgap]
      apply List.mem_append_left
      exact List.mem_flatMap.2 ⟨c, hc, by simp [Cell.marked, Cell.markedItem]⟩
    have hitem := (hparted c (by simp [hc])).item
    rw [not_isItem_of_layout (x.layout _ hmem)] at hitem
    simp at hitem
  subst hnone
  refine ⟨before, left, right, behind, rfl, ?_, hleft, hgap, hright⟩
  have hitems := items_flatMap_marked fun c (hc : c ∈ before) => hcells c (by simp [hc])
  have hleftGap := items_gap (hcells left (by simp))
  unfold items at hitems hleftGap ⊢
  rw [hbefore, List.filter_append, hitems, hleftGap, List.append_nil]

/-- The text of formatted cells, gap by gap. -/
theorem exists_woven (rules : RuleSet) (edges : Nat → Option Text) (here : Place) (cells : List Cell)
    (tail : List Lexeme) :
    ∃ first gaps, (newCells rules edges here cells).map (fun c => textOf c.gap) ++ [textOf tail] =
        first :: gaps ∧
      textOf ((newCells rules edges here cells).flatMap Cell.lexemes ++ tail) =
        first ++ ((cells.map Cell.markedItem).zipWith
          (fun m g => (newItem rules m.2 m.1).text ++ g) gaps).flatten := by
  induction cells generalizing here with
  | nil => exact ⟨textOf tail, [], rfl, by simp [newCells]⟩
  | cons c cells ih =>
    rcases ih (here.after rules c) with ⟨first, gaps, hgaps, htext⟩
    refine ⟨textOf (newGap rules edges here c), first :: gaps, ?_, ?_⟩
    · rw [newCells, List.map_cons, List.cons_append, hgaps]
      rfl
    · rw [textOf_newCells_cons, htext]
      simp [Cell.markedItem]

/-- The gaps of formatted cells are layout. -/
theorem isLayout_newCells {edges : Nat → Option Text} {cells : List Cell} {tail : List Lexeme}
    {here : Place} (hsound : SoundCells rules edges here cells)
    (hpads : ∀ i t, edges i = some t → ∀ z ∈ t, Text.isPad z = true)
    (hlexed : IsLexed d here.start (cells.flatMap Cell.lexemes ++ tail)) :
    (∀ c ∈ newCells rules edges here cells, (textOf c.gap).IsLayout) ∧ ∃ b, IsLexed d b tail := by
  induction cells generalizing here with
  | nil => exact ⟨by simp [newCells], _, hlexed⟩
  | cons c cells ih =>
    rcases hsound with ⟨hc, hmore⟩
    rcases isLexed_cell hc hlexed with ⟨hgap, hitem, hrest⟩
    rcases ih hmore hrest with ⟨hcells, htail⟩
    refine ⟨?_, htail⟩
    intro c' hc'
    rw [newCells] at hc'
    rcases List.mem_cons.1 hc' with rfl | hc'
    · have hnewGap : ReadsAll d false (newGap rules edges here c)
          (c.item.text ++ textOf (cells.flatMap Cell.lexemes ++ tail)) :=
        readsAll_newGap hc (hpads here.index) hgap (startsItem_of_reads hitem hc.item _) rfl
      exact (isLayout_of_readsAll (layout_newGap hc) hnewGap).2
    · exact hcells c' hc'

theorem isLayout_newTail {tail : List Lexeme} {b : Bool} (htail : ∀ l ∈ tail, l.kind.isLayout = true)
    (hlexed : IsLexed d b tail) (start inside : Bool) :
    (textOf (newTail rules start inside tail)).IsLayout := by
  unfold newTail
  split
  · exact (isLayout_of_readsAll htail (readsAll_tail htail hlexed)).2
  · exact isLayout_newBreaks start tail

/-- The gap before an item that follows another one, among the gaps of formatted cells. -/
theorem getElem?_newCells (edges : Nat → Option Text) (before behind : List Cell) (left right : Cell)
    (rest : List Text) :
    ((newCells rules edges {} (before ++ left :: right :: behind)).map (fun c => textOf c.gap) ++
        rest)[before.length + 1]? =
      some (textOf (newGap rules edges (({} : Place).afterAll rules (before ++ [left])) right)) := by
  have hsplit : before ++ left :: right :: behind = (before ++ [left]) ++ right :: behind := by simp
  have hlength : ((newCells rules edges {} (before ++ [left])).map fun c => textOf c.gap).length =
      before.length + 1 := by
    simp [length_newCells]
  rw [hsplit, newCells_append, newCells, List.map_append, List.append_assoc,
    List.getElem?_append_right (Nat.le_of_eq hlength), hlength, Nat.sub_self]
  rfl

/-! ## Lexed sources -/

section Source

variable {ls : List Lexeme}

/-- The tokens behind the last item. -/
def Page.rest (p : Page) : List (Lexeme × Bool) :=
  p.tail.map (·, p.tailInside) ++ [(⟨.eof, []⟩, p.tailInside)]

theorem marked_place_eq (ls : List Lexeme) :
    marked (place 0 .origin ls) =
      (Page.ofLexemes false ls).cells.flatMap Cell.marked ++ (Page.ofLexemes false ls).rest := by
  rw [marked_place, Page.marked, List.append_assoc]
  rfl

theorem not_isItem_rest (ls : List Lexeme) :
    ∀ m ∈ (Page.ofLexemes false ls).rest, isItem m = false := by
  intro m hm
  rcases List.mem_append.1 hm with hm | hm
  · rcases List.mem_map.1 hm with ⟨l, hl, rfl⟩
    exact not_isItem_of_layout ((Page.isRegular_ofLexemes false ls).tail l hl)
  · rw [List.mem_singleton.1 hm]
    rfl

theorem isParted_ofLexemes (h : IsLexed d true ls) :
    ∀ c ∈ (Page.ofLexemes false ls).cells, c.IsParted := by
  intro c hc
  rcases (soundCells_ofLexemes {} h).exists_isSound hc with ⟨there, hsound⟩
  rcases exists_reads_of_mem h (Page.item_mem_of_mem_ofLexemes hc) with ⟨b, t, hread⟩
  exact ⟨hsound.gap, by simp [isItem, Cell.markedItem, hsound.item, hread.kind_ne_eof]⟩

theorem items_marked_place (h : IsLexed d true ls) :
    items (marked (place 0 .origin ls)) = (Page.ofLexemes false ls).cells.map Cell.markedItem := by
  have hcells := items_flatMap_marked (isParted_ofLexemes h)
  have hrest : items (Page.ofLexemes false ls).rest = [] := by
    rw [items, List.filter_eq_nil_iff]
    intro m hm
    simp [not_isItem_rest ls m hm]
  unfold items at hcells hrest ⊢
  rw [marked_place_eq, List.filter_append, hcells, hrest, List.append_nil]

/-- Formatted items start with no layout. -/
theorem startsItem_newItem (rules : RuleSet) (h : IsLexed d true ls) :
    ∀ m ∈ items (marked (place 0 .origin ls)), ∀ u,
      StartsItem ((newItem rules m.2 m.1).text ++ u) := by
  intro m hm u
  rw [items_marked_place h] at hm
  rcases List.mem_map.1 hm with ⟨c, hc, rfl⟩
  rcases exists_reads_of_mem h (Page.item_mem_of_mem_ofLexemes hc) with ⟨b, t, hread⟩
  rcases (soundCells_ofLexemes {} h).exists_isSound hc with ⟨there, hsound⟩
  have hstarts := startsItem_of_reads hread hsound.item u
  have hhead : ((newItem rules c.kept c.item).text ++ u).head? = (c.item.text ++ u).head? := by
    rw [List.head?_append, List.head?_append, head?_newItem hread]
  unfold StartsItem at hstarts ⊢
  rwa [Cell.markedItem, hhead]

/-- All gaps of a formatted page are layout. -/
theorem isLayout_formatted (rules : RuleSet) (h : IsLexed d true ls) :
    (∀ c ∈ ((Page.ofLexemes false ls).formatted rules).cells, (textOf c.gap).IsLayout) ∧
      (textOf ((Page.ofLexemes false ls).formatted rules).tail).IsLayout := by
  have hlexed : IsLexed d ({} : Place).start ((Page.ofLexemes false ls).cells.flatMap Cell.lexemes ++
      (Page.ofLexemes false ls).tail) := by
    rw [← Page.lexemes_ofLexemes false ls] at h
    exact h
  rcases isLayout_newCells (soundCells_ofLexemes rules h) (fun _ _ => isPad_edge) hlexed with
    ⟨hcells, b, htail⟩
  exact ⟨hcells, isLayout_newTail (Page.isRegular_ofLexemes false ls).tail htail _ _⟩

/-- Between any two neighbouring items there is what the formatted page holds there. -/
theorem exists_isSpaced (rules : RuleSet) (h : IsLexed d true ls)
    (x : InnerGap (marked (place 0 .origin ls))) (rest : List Text) :
    ∃ g, ((((Page.ofLexemes false ls).formatted rules).cells.map fun c => textOf c.gap) ++
        rest)[x.index + 1]? = some g ∧ x.IsSpaced rules g := by
  have hitems := items_marked_place h
  have hsound := soundCells_ofLexemes rules h
  have hreads : ∀ c ∈ (Page.ofLexemes false ls).cells, ∃ b t, Reads d b c.item t := fun c hc =>
    exists_reads_of_mem h (Page.item_mem_of_mem_ofLexemes hc)
  have hmeets := exists_meets (isParted_ofLexemes h) (not_isItem_rest ls)
  rw [← marked_place_eq] at hmeets
  rcases hmeets x with ⟨before, left, right, behind, hcells, hx⟩
  rw [Page.formatted, hcells, hx.index]
  rw [hcells] at hitems hsound hreads
  refine ⟨_, getElem?_newCells _ before behind left right rest, ?_⟩
  rcases hreads left (by simp) with ⟨b, t, hread⟩
  have hright : SoundCells rules (edgesOf rules (before ++ left :: right :: behind))
      (({} : Place).afterAll rules (before ++ [left])) (right :: behind) := by
    apply SoundCells.append
    rwa [List.append_assoc, List.singleton_append]
  exact hx.isSpaced hitems hread hright.1

/-- The items of a source, with gaps that are spaced as the rules say, make up the formatted text. -/
theorem exists_isWoven (rules : RuleSet) (hlexed : IsLexed d true ls) :
    ∃ first gaps, IsWoven rules (items (marked (place 0 .origin ls))) first gaps
        (restyle rules (place 0 .origin ls)).text ∧
      ∀ x : InnerGap (marked (place 0 .origin ls)),
        ∃ g, gaps[x.index]? = some g ∧ x.IsSpaced rules g := by
  have hitems := items_marked_place hlexed
  obtain ⟨first, gaps, hgaps, htext⟩ := exists_woven rules
    (edgesOf rules (Page.ofLexemes false ls).cells) {} (Page.ofLexemes false ls).cells
    ((Page.ofLexemes false ls).formatted rules).tail
  obtain ⟨hcells, htail⟩ := isLayout_formatted rules hlexed
  have hlayout : ∀ g ∈ first :: gaps, g.IsLayout := by
    rw [← hgaps]
    intro g hg
    rcases List.mem_append.1 hg with hg | hg
    · rcases List.mem_map.1 hg with ⟨c, hc, rfl⟩
      exact hcells c hc
    · rwa [List.mem_singleton.1 hg]
  refine ⟨first, gaps, ⟨?_, hlayout first (by simp), fun g hg => hlayout g (by simp [hg]), ?_⟩, ?_⟩
  · have hlength := congrArg List.length hgaps
    rw [hitems, List.length_map]
    simpa [length_newCells] using hlength.symm
  · rw [hitems, text_restyle rules hlexed]
    exact htext
  · intro x
    have hspaced := exists_isSpaced rules hlexed x
      [textOf ((Page.ofLexemes false ls).formatted rules).tail]
    have hcons : ((((Page.ofLexemes false ls).formatted rules).cells.map fun c => textOf c.gap) ++
        [textOf ((Page.ofLexemes false ls).formatted rules).tail])[x.index + 1]? = gaps[x.index]? :=
      congrArg (·[x.index + 1]?) hgaps
    rwa [hcons] at hspaced

end Source

/-- A formatted text is made of the items of its source with gaps between them. Between any two
neighbouring items it holds what the rules ask for: before an opening brace behind a header, just inside
brackets, and anywhere else on a line. -/
theorem restyle_isSpaced (rules : RuleSet) (d : Dialect) (source : Text) (tokens : List Token)
    (htokens : tokenize d source = .ok tokens) :
    (∃ first gaps, IsWoven rules (items (marked tokens)) first gaps (restyle rules tokens).text) ∧
      ∀ first gaps, IsWoven rules (items (marked tokens)) first gaps (restyle rules tokens).text →
        ∀ x : InnerGap (marked tokens), ∃ g, gaps[x.index]? = some g ∧ x.IsSpaced rules g := by
  obtain ⟨ls, hlexed, -, rfl⟩ := tokenize_eq_ok_iff.1 htokens
  obtain ⟨first, gaps, hwoven, hspaced⟩ := exists_isWoven rules hlexed
  refine ⟨⟨first, gaps, hwoven⟩, ?_⟩
  intro first' gaps' hwoven'
  rw [← (hwoven.unique (startsItem_newItem rules hlexed) hwoven').2]
  exact hspaced

/-- The tokens of the source `f( x){}`. -/
def blockTokens : List Token :=
  place 0 .origin [⟨.word .identifier, ['f']⟩, ⟨.punctuation, ['(']⟩, ⟨.whitespace, [' ']⟩,
    ⟨.word .identifier, ['x']⟩, ⟨.punctuation, [')']⟩, ⟨.punctuation, ['{']⟩, ⟨.punctuation, ['}']⟩]

theorem tokenize_block : tokenize .glsl ['f', '(', ' ', 'x', ')', '{', '}'] = .ok blockTokens :=
  tokenize_eq_ok_iff.2 ⟨_, by decide +kernel, rfl, rfl⟩

theorem marked_blockTokens : marked blockTokens =
    [(⟨.word .identifier, ['f']⟩, false), (⟨.punctuation, ['(']⟩, false), (⟨.whitespace, [' ']⟩, false),
      (⟨.word .identifier, ['x']⟩, false), (⟨.punctuation, [')']⟩, false), (⟨.punctuation, ['{']⟩, false),
      (⟨.punctuation, ['}']⟩, false), (⟨.eof, []⟩, false)] := by
  decide +kernel

/-- The gap just inside the bracket. -/
def insideBracket : InnerGap (marked blockTokens) where
  before := (marked blockTokens).take 1
  left := (⟨.punctuation, ['(']⟩, false)
  gap := [(⟨.whitespace, [' ']⟩, false)]
  right := (⟨.word .identifier, ['x']⟩, false)
  behind := (marked blockTokens).drop 4
  split := by rw [marked_blockTokens]; rfl
  left_isItem := rfl
  right_isItem := rfl
  layout := by decide

/-- The gap before the brace. -/
def beforeBrace : InnerGap (marked blockTokens) where
  before := (marked blockTokens).take 4
  left := (⟨.punctuation, [')']⟩, false)
  gap := []
  right := (⟨.punctuation, ['{']⟩, false)
  behind := (marked blockTokens).drop 6
  split := by rw [marked_blockTokens]; rfl
  left_isItem := rfl
  right_isItem := rfl
  layout := by decide

/-- A block behind a header, with a blank inside its brackets: the blank is left out, and the brace stands
on a line of its own. -/
theorem restyle_isSpaced_block :
    ∃ tokens, tokenize .glsl ['f', '(', ' ', 'x', ')', '{', '}'] = .ok tokens ∧
      ∃ first gaps, IsWoven { openBrace := .ownLine } (items (marked tokens)) first gaps
        (restyle { openBrace := .ownLine } tokens).text ∧
          gaps[1]? = some [] ∧ gaps[3]? = some ['\n'] := by
  obtain ⟨⟨first, gaps, hwoven⟩, hspaced⟩ :=
    restyle_isSpaced { openBrace := .ownLine } .glsl _ _ tokenize_block
  refine ⟨blockTokens, tokenize_block, first, gaps, hwoven, ?_, ?_⟩
  · obtain ⟨g, hg, hgap⟩ := hspaced first gaps hwoven insideBracket
    have hindex : insideBracket.index = 1 := by decide +kernel
    have hpair : ⟨1, 3, ⟨.punctuation, ['('], none, false⟩, ⟨.punctuation, [')'], none, false⟩⟩ ∈
        bracketPairs [] 0 ((items (marked blockTokens)).map pieceOf) := by decide +kernel
    have hedge := hgap.edge _ hpair ⟨.inl hindex.symm, rfl, rfl, by decide, by decide⟩
    rw [← hindex, hg, hedge]
    rfl
  · obtain ⟨g, hg, hgap⟩ := hspaced first gaps hwoven beforeBrace
    have hindex : beforeBrace.index = 3 := by decide +kernel
    have hbrace := hgap.brace ⟨rfl, .inl rfl, rfl, rfl, by decide⟩
    have hindent : lineIndent { openBrace := .ownLine }
        ((items beforeBrace.before).map Prod.fst ++ [beforeBrace.left.1]) beforeBrace.right.1 = [] := by
      decide +kernel
    rw [← hindex, hg, hbrace, hindent]
    rfl

end ShaderStyle.Layout
