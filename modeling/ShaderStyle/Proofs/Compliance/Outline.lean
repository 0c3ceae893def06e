import ShaderStyle.Compliance
import ShaderStyle.Proofs.Declaration.Renaming
import ShaderStyle.Proofs.Layout.Sound

/-!
# Outlines

What the checks see of a source: its content lexemes, and between any two of them the number of line
breaks. Blanks do not matter, nor how a line break is written. Over such an outline, `Complies` says
when there is nothing to find:

* a name is *covered* where checks are switched off, by a region or by a line marker on its line;
* the comments of a declaration are those just above it, each alone on its line;
* a declaration complies if its name is covered, or is written and documented as the rules ask.

The checks find nothing in a lexed source exactly if its outline complies (`check_eq_nil_iff`).
-/

namespace ShaderStyle

open Lexer Layout

/-- A content lexeme and the number of line breaks between it and the content before it. -/
structure Row where
  breaks : Nat
  item : Lexeme
  deriving DecidableEq, Repr

/-- The row that a cell makes up. -/
def Layout.Cell.row (c : Layout.Cell) : Row :=
  ⟨Layout.breaks c.gap, c.item⟩

/-- The rows of a page. -/
def Layout.Page.outline (p : Page) : List Row :=
  p.cells.map Cell.row

namespace Outline

/-! ## Names that are covered -/

/-- An item, the line on which it starts, and whether it lies in a region without checks. -/
structure Spot where
  item : Lexeme
  line : Int
  inside : Bool
  deriving DecidableEq, Repr

/-- Whether the item switches checks off on its line. -/
def Spot.isMarked (s : Spot) : Bool :=
  Marker.of? s.item = some .line

/-- The items of some rows; `inside` says whether a region is open before them, and `line` is the line
on which the content before them ends. -/
def spots (inside : Bool) (line : Int) : List Row → List Spot
  | [] => []
  | r :: rows =>
    ⟨r.item, line + r.breaks, keeps .check inside r.item⟩ ::
      spots (insideAfter .check inside r.item)
        (line + r.breaks + Text.breakCount r.item.text) rows

/-- Whether checks are switched off at the item with number `k`. -/
def covered (rows : List Row) (k : Nat) : Bool :=
  (spots false 1 rows)[k]?.any fun s =>
    s.inside || (spots false 1 rows).any fun m => m.isMarked && m.line = s.line

/-! ## Comments that document -/

/-- Whether this is a comment without a marker. -/
def isUnmarked (l : Lexeme) : Bool :=
  l.kind.isComment && Marker.of? l = none

/-- The comments that document what follows behind `n` line breaks, nearest first; the rows come in
reverse order. `first` says that no comment has been found yet. -/
def docsAbove (first : Bool) (n : Nat) : List Row → List Lexeme
  | [] => []
  | r :: above =>
    if n = 1 && isUnmarked r.item && (r.breaks ≠ 0 || above.isEmpty) then
      match r.item.kind with
      | .blockComment true => if first then [r.item] else []
      | .lineComment _ => r.item :: docsAbove false r.breaks above
      | _ => []
    else []

/-- The comments that document what follows some rows behind `n` line breaks, top to bottom. -/
def docsBefore (n : Nat) (above : List Row) : List Lexeme :=
  if n = 0 then
    match above with
    | [] => []
    | r :: _ =>
      if r.item.kind = .blockComment true && Marker.of? r.item = none then [r.item] else []
  else (docsAbove true n above).reverse

/-- The comments that document what starts with the item with number `k`. -/
def docsAt (rows : List Row) (k : Nat) : List Lexeme :=
  rows[k]?.elim [] fun r => docsBefore r.breaks (rows.take k).reverse

/-- The text of some comments, their bodies on lines of their own. -/
def docsText (comments : List Lexeme) : Text :=
  ['\n'].intercalate (comments.map Lexeme.commentBody)

/-- Whether the comments document a declaration as the rules ask. -/
def Documented (rules : RuleSet) (x : Declaration) (comments : List Lexeme) : Prop :=
  match Compliance.docRule? rules x.kind with
  | some (_, some true) =>
    comments ≠ [] ∧
      (x.kind = .function →
        Compliance.parameterProblems (x.parameters.map Binding.name)
            (Documentation.parameterNames (docsText comments)) ++
          Compliance.returnProblems x.returnsValue
            (Documentation.returnCount (docsText comments)) = [])
  | _ => True

/-! ## What complies -/

/-- Whether a lexeme matters to declarations. -/
def isSite (l : Lexeme) : Bool :=
  !l.kind.isTrivia && l.kind ≠ .eof

/-- The sites among some lexemes, which are numbered from `n` on. -/
def sites (n : Nat) : List Lexeme → List Site
  | [] => []
  | l :: ls => if isSite l then ⟨l, n⟩ :: sites (n + 1) ls else sites (n + 1) ls

/-- The declarations among some rows; they refer to items by their numbers. -/
def declared (d : Dialect) (rows : List Row) : List Declaration :=
  Scan.declarations d {} (sites 0 (rows.map Row.item))

/-- Whether a declared name is written as the rules ask, wherever it stands. -/
def WellNamed (rules : RuleSet) (b : Binding) : Prop :=
  ∀ span, Compliance.checkName rules b span = []

/-- Whether there is nothing to find about a declaration: its name is covered, or it is written and
documented as the rules ask. -/
def CompliesAt (rules : RuleSet) (rows : List Row) (x : Declaration) : Prop :=
  covered rows x.nameIndex = false →
    WellNamed rules x.toBinding ∧ Documented rules x (docsAt rows x.startIndex)

/-- Whether there is nothing to find in a source with this outline. -/
def Complies (rules : RuleSet) (d : Dialect) (rows : List Row) : Prop :=
  ∀ x ∈ declared d rows, CompliesAt rules rows x

/-! ## Lines and regions of tokens -/

theorem line_advance (p : Position) (t : Text) : (p.advance t).line = p.line + Text.breakCount t := by
  fun_induction Text.breakCount t generalizing p with
  | case1 => simp [Position.advance]
  | case2 rest ih =>
    rw [Position.advance, ih]
    simp only [Position.nextLine]
    omega
  | case3 c rest hcr ih =>
    rw [Position.advance.eq_3 _ _ _ hcr]
    split
    · rw [ih]
      simp only [Position.nextLine]
      omega
    · rw [ih]
      simp [Position.nextColumn]

/-- The gap is layout, and only its line breaks start new lines. -/
def Counted (g : List Lexeme) : Prop :=
  ∀ l ∈ g, l.kind.isLayout = true ∧ Text.breakCount l.text = if l.isNewline then 1 else 0

/-- The tokens as spots. -/
def tokenSpots (inside : Bool) (tokens : List Token) : List Spot :=
  (tokens.zip (Suppression.regionFlags .check inside tokens)).map fun (t, b) =>
    ⟨t.toLexeme, t.line, b⟩

theorem tokenSpots_cons (inside : Bool) (t : Token) (ts : List Token) :
    tokenSpots inside (t :: ts) =
      ⟨t.toLexeme, t.line, keeps .check inside t.toLexeme⟩ ::
        tokenSpots (insideAfter .check inside t.toLexeme) ts := by
  rw [tokenSpots, regionFlags_cons, List.zip_cons_cons, List.map_cons]
  rfl

theorem tokenSpots_place_cons (inside : Bool) (offset : Nat) (position : Position) (l : Lexeme)
    (ls : List Lexeme) :
    tokenSpots inside (place offset position (l :: ls)) =
      ⟨l, position.line, keeps .check inside l⟩ ::
        tokenSpots (insideAfter .check inside l)
          (place (offset + l.text.length) (position.advance l.text) ls) :=
  tokenSpots_cons _ _ _

/-- A gap moves on to another line and switches nothing. -/
theorem tokenSpots_gap {g : List Lexeme} (hg : Counted g) (inside : Bool) (offset : Nat)
    (position : Position) (ls : List Lexeme) :
    ∃ gs offset' position',
      tokenSpots inside (place offset position (g ++ ls)) =
        gs ++ tokenSpots inside (place offset' position' ls) ∧
      gs.length = g.length ∧ (∀ s ∈ gs, s.item.kind.isLayout = true) ∧
      position'.line = position.line + Layout.breaks g := by
  induction g generalizing offset position with
  | nil => exact ⟨[], offset, position, rfl, rfl, by simp, by simp [Layout.breaks]⟩
  | cons l g ih =>
    rcases hg l (by simp) with ⟨hl, hcount⟩
    rcases ih (fun l hl => hg l (by simp [hl])) (offset + l.text.length)
      (position.advance l.text) with ⟨gs, offset', position', hspots, hlength, hlayout, hline⟩
    refine ⟨⟨l, position.line, inside⟩ :: gs, offset', position', ?_, by simp [hlength], ?_, ?_⟩
    · rw [List.cons_append, tokenSpots_place_cons, insideAfter_layout hl, keeps_layout hl, hspots]
      rfl
    · intro s hs
      rcases List.mem_cons.1 hs with rfl | hs
      · exact hl
      · exact hlayout s hs
    · rw [hline, line_advance, hcount, breaks_cons]
      split <;> omega

/-- The place of an item among the tokens of its page. -/
def indexOf : List Layout.Cell → Nat → Nat
  | [], k => k
  | c :: _, 0 => c.gap.length
  | c :: cells, k + 1 => c.gap.length + 1 + indexOf cells k

/-- The token of an item is on the item's line, and in a region if the item is. -/
theorem getElem?_tokenSpots {cells : List Layout.Cell} {tail : List Lexeme}
    (hgaps : ∀ c ∈ cells, Counted c.gap) {k : Nat} (hk : k < cells.length) (inside : Bool)
    (offset : Nat) (position : Position) :
    (tokenSpots inside (place offset position (cells.flatMap Cell.lexemes ++ tail)))[indexOf cells k]? =
      (spots inside position.line (cells.map Cell.row))[k]? := by
  induction cells generalizing k inside offset position with
  | nil => simp at hk
  | cons c cells ih =>
    rcases tokenSpots_gap (hgaps c (by simp)) inside offset position
      (c.item :: (cells.flatMap Cell.lexemes ++ tail)) with
      ⟨gs, offset', position', hspots, hlength, -, hline⟩
    have hsplit : (c :: cells).flatMap Cell.lexemes ++ tail =
        c.gap ++ c.item :: (cells.flatMap Cell.lexemes ++ tail) := by
      simp [Cell.lexemes]
    rw [hsplit, hspots, tokenSpots_place_cons, List.map_cons, spots]
    cases k with
    | zero =>
      rw [indexOf, ← hlength, List.getElem?_append_right (Nat.le_refl _), Nat.sub_self]
      simp [hline, Cell.row]
    | succ k =>
      have hindex : indexOf (c :: cells) (k + 1) = gs.length + (indexOf cells k + 1) := by
        rw [indexOf, hlength]
        omega
      rw [hindex, List.getElem?_append_right (by omega), Nat.add_sub_cancel_left,
        List.getElem?_cons_succ, List.getElem?_cons_succ,
        ih (fun c hc => hgaps c (by simp [hc])) (by simpa using hk), line_advance, hline]
      rfl

theorem not_isMarked_of_layout {s : Spot} (h : s.item.kind.isLayout = true) : s.isMarked = false := by
  simp [Spot.isMarked, marker_of_layout h]

theorem any_layout {gs : List Spot} (h : ∀ s ∈ gs, s.item.kind.isLayout = true) (n : Int) :
    (gs.any fun m => m.isMarked && m.line = n) = false := by
  rw [List.any_eq_false]
  intro s hs
  simp [not_isMarked_of_layout (h s hs)]

/-- A line has a marked token if it has a marked item. -/
theorem any_tokenSpots {cells : List Layout.Cell} {tail : List Lexeme}
    (hgaps : ∀ c ∈ cells, Counted c.gap)
    (htail : Counted tail) (inside : Bool) (offset : Nat) (position : Position) (n : Int) :
    ((tokenSpots inside (place offset position (cells.flatMap Cell.lexemes ++ tail))).any
        fun m => m.isMarked && m.line = n) =
      (spots inside position.line (cells.map Cell.row)).any fun m => m.isMarked && m.line = n := by
  induction cells generalizing inside offset position with
  | nil =>
    rcases tokenSpots_gap htail inside offset position [] with
      ⟨gs, offset', position', hspots, -, hlayout, -⟩
    rw [List.append_nil] at hspots
    rw [List.flatMap_nil, List.nil_append, hspots, List.any_append, any_layout hlayout]
    simp [place, tokenSpots, Suppression.regionFlags, spots, Spot.isMarked, Marker.of?,
      TokenKind.isComment]
  | cons c cells ih =>
    rcases tokenSpots_gap (hgaps c (by simp)) inside offset position
      (c.item :: (cells.flatMap Cell.lexemes ++ tail)) with
      ⟨gs, offset', position', hspots, -, hlayout, hline⟩
    have hsplit : (c :: cells).flatMap Cell.lexemes ++ tail =
        c.gap ++ c.item :: (cells.flatMap Cell.lexemes ++ tail) := by
      simp [Cell.lexemes]
    rw [hsplit, hspots, List.any_append, any_layout hlayout, tokenSpots_place_cons, List.map_cons,
      spots, List.any_cons, List.any_cons, ih fun c hc => hgaps c (by simp [hc]), line_advance, hline,
      Bool.false_or]
    rfl

theorem contains_markedLines (inside : Bool) (tokens : List Token) (n : Int) :
    (Suppression.markedLines tokens).contains n =
      (tokenSpots inside tokens).any fun m => m.isMarked && m.line = n := by
  induction tokens generalizing inside with
  | nil => rfl
  | cons t ts ih =>
    have hmarked : Suppression.markedLines (t :: ts) =
        if Marker.of? t.toLexeme = some .line then t.line :: Suppression.markedLines ts
        else Suppression.markedLines ts := by
      simp only [Suppression.markedLines, List.filter_cons, decide_eq_true_eq]
      split <;> rfl
    rw [hmarked, tokenSpots_cons, List.any_cons, ← ih]
    split
    · rename_i hline
      simp [Spot.isMarked, hline, eq_comm (a := n)]
    · rename_i hline
      simp [Spot.isMarked, hline]

/-- Checks are switched off at the token of an item if the item is covered. -/
theorem getD_check {cells : List Layout.Cell} {tail : List Lexeme}
    (hgaps : ∀ c ∈ cells, Counted c.gap)
    (htail : Counted tail) {k : Nat} (hk : k < cells.length) :
    (Suppression.scan (place 0 .origin (cells.flatMap Cell.lexemes ++ tail))).check.getD
        (indexOf cells k) false =
      covered (cells.map Cell.row) k := by
  let tokens := place 0 .origin (cells.flatMap Cell.lexemes ++ tail)
  have hcheck : (Suppression.scan tokens).check = (tokenSpots false tokens).map fun s =>
      s.inside || (Suppression.markedLines tokens).contains s.line := by
    rw [tokenSpots, List.map_map]
    rfl
  have hspot : (tokenSpots false tokens)[indexOf cells k]? = _ :=
    getElem?_tokenSpots hgaps hk false 0 .origin
  show (Suppression.scan tokens).check.getD (indexOf cells k) false = _
  rw [hcheck, List.getD_eq_getElem?_getD, List.getElem?_map, hspot, covered]
  simp only [contains_markedLines false, tokens, any_tokenSpots hgaps htail]
  show Option.getD (Option.map _ (spots false 1 _)[k]?) false = _
  cases (spots false 1 (cells.map Cell.row))[k]? <;> rfl

/-! ## Declarations of tokens -/

theorem sites_eq (tokens : List Token) :
    Scan.sites tokens = sites 0 (tokens.map Token.toLexeme) := by
  have hfrom (n : Nat) : ((tokens.zipIdx n).filter fun x =>
      !x.1.kind.isTrivia && x.1.kind ≠ .eof).map (fun x => (⟨x.1.toLexeme, x.2⟩ : Site)) =
        sites n (tokens.map Token.toLexeme) := by
    induction tokens generalizing n with
    | nil => rfl
    | cons t ts ih =>
      rw [List.zipIdx_cons, List.map_cons, sites, ← ih (n + 1)]
      cases hsite : isSite t.toLexeme with
      | true =>
        rw [List.filter_cons_of_pos (by exact hsite)]
        rfl
      | false =>
        rw [List.filter_cons_of_neg (Bool.not_eq_true _ ▸ hsite)]
        rfl
  exact hfrom 0

theorem sites_layout_append {g : List Lexeme} (hg : ∀ l ∈ g, l.kind.isLayout = true) (n : Nat)
    (ls : List Lexeme) : sites n (g ++ ls) = sites (n + g.length) ls := by
  induction g generalizing n with
  | nil => rfl
  | cons l g ih =>
    have hl : isSite l = false := by simp [isSite, TokenKind.isTrivia, hg l (by simp)]
    rw [List.cons_append, sites, hl, if_neg (by simp), ih fun l hl => hg l (by simp [hl]),
      List.length_cons, Nat.add_assoc, Nat.add_comm 1]

theorem sites_succ (n : Nat) (ls : List Lexeme) :
    sites (n + 1) ls = (sites n ls).map (Scan.moved (· + 1)) := by
  induction ls generalizing n with
  | nil => rfl
  | cons l ls ih =>
    rw [sites, sites, ih (n + 1)]
    split <;> rfl

/-- The sites of a page are those among its items, with the places of tokens in place of numbers. -/
theorem sites_lexemes {cells : List Layout.Cell} {tail : List Lexeme}
    (hgaps : ∀ c ∈ cells, Counted c.gap)
    (htail : Counted tail) (n : Nat) :
    sites n (cells.flatMap Cell.lexemes ++ tail ++ [⟨.eof, []⟩]) =
      (sites 0 ((cells.map Cell.row).map Row.item)).map (Scan.moved fun k => n + indexOf cells k) := by
  induction cells generalizing n with
  | nil =>
    rw [List.flatMap_nil, List.nil_append, sites_layout_append fun l hl => (htail l hl).1]
    rfl
  | cons c cells ih =>
    have hsplit : (c :: cells).flatMap Cell.lexemes ++ tail ++ [⟨.eof, []⟩] =
        c.gap ++ c.item :: (cells.flatMap Cell.lexemes ++ tail ++ [⟨.eof, []⟩]) := by
      simp [Cell.lexemes]
    have hmoved : Scan.moved (fun k => n + c.gap.length + 1 + indexOf cells k) =
        Scan.moved (fun k => n + indexOf (c :: cells) k) ∘ Scan.moved (· + 1) := by
      funext s
      simp only [Scan.moved, Function.comp_apply, indexOf]
      congr 1
      omega
    rw [hsplit, sites_layout_append fun l hl => (hgaps c (by simp) l hl).1, sites,
      ih fun c hc => hgaps c (by simp [hc]), hmoved, ← List.map_map, List.map_cons, List.map_cons, sites,
      ← sites_succ]
    show (if isSite c.item then _ else _) = List.map _ (if isSite c.item then _ else _)
    split <;> rfl

theorem le_index_of_mem_sites {n : Nat} {ls : List Lexeme} {s : Site} (h : s ∈ sites n ls) :
    s.index < n + ls.length := by
  induction ls generalizing n with
  | nil => simp [sites] at h
  | cons l ls ih =>
    rw [sites] at h
    rw [List.length_cons]
    split at h
    · rcases List.mem_cons.1 h with rfl | h
      · simp only
        omega
      · have := ih h
        omega
    · have := ih h
      omega

/-- The declarations of a source are those of its outline, with the places of tokens in place of
numbers. -/
theorem scanDeclarations_eq {cells : List Layout.Cell} {tail : List Lexeme}
    (hgaps : ∀ c ∈ cells, Counted c.gap) (htail : Counted tail) (d : Dialect) :
    scanDeclarations d (place 0 .origin (cells.flatMap Cell.lexemes ++ tail)) =
      (declared d (cells.map Cell.row)).map (Declaration.renamed (indexOf cells)) := by
  have hindex : (fun k => 0 + indexOf cells k) = indexOf cells := by
    funext k
    rw [Nat.zero_add]
  rw [scanDeclarations, sites_eq, map_toLexeme_place, sites_lexemes hgaps htail, hindex,
    Scan.declarations_map (Scan.renames_moved d (indexOf cells))]
  rfl

/-- A declaration refers to items of the outline. -/
theorem index_of_mem_declared {d : Dialect} {rows : List Row} {x : Declaration}
    (h : x ∈ declared d rows) : x.nameIndex < rows.length ∧ x.startIndex < rows.length := by
  have hsite (k : Nat) (hk : k ∈ (sites 0 (rows.map Row.item)).map Site.index) : k < rows.length := by
    rcases List.mem_map.1 hk with ⟨s, hs, rfl⟩
    simpa using le_index_of_mem_sites hs
  rcases Scan.index_of_mem_declarations h with ⟨hname, hstart⟩
  exact ⟨hsite _ hname, hsite _ hstart⟩

end Outline

end ShaderStyle
