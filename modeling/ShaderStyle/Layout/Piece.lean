import ShaderStyle.Token

/-!
# Pieces of the output

Formatting works on pieces: the tokens of the source and the layout that formatting puts between them.
A piece that comes from the source knows its span there; an inserted one has none. A piece of a
region that is left as it is stays as it is.

`Sheet` is a list of pieces seen as content and gaps: each content piece with the layout before it,
and the layout after the last.
-/

namespace ShaderStyle

/-- One piece of the output. -/
structure Piece where
  kind : TokenKind
  text : Text
  span : Option Span
  suppressed : Bool
  deriving DecidableEq, Repr

namespace Piece

/-- The piece for a token of the source. -/
def ofToken (t : Token) (suppressed : Bool) : Piece :=
  ⟨t.kind, t.text, some t.span, suppressed⟩

/-- Blanks that formatting puts in. -/
def blanks (t : Text) : Piece :=
  ⟨.whitespace, t, none, false⟩

/-- A line break that formatting puts in. -/
def newline (t : Text) : Piece :=
  ⟨.lineBreak, t, none, false⟩

/-- Whether the piece is layout. -/
def isLayout (p : Piece) : Bool :=
  p.kind.isLayout

/-- Whether the piece is a line break. -/
def isNewline (p : Piece) : Bool :=
  p.kind = .lineBreak

/-- Whether the piece is the punctuation mark `c`. -/
def isMark (p : Piece) (c : Char) : Bool :=
  p.kind = .punctuation && p.text = [c]

/-- The texts of some pieces, one after the other. -/
def render (ps : List Piece) : Text :=
  ps.flatMap text

/-- The span of the first piece that comes from the source. -/
def firstSpan (ps : List Piece) : Span :=
  (ps.findSome? span).getD (.empty .origin)

end Piece

/-- A content piece and the layout before it. -/
structure Slot where
  gap : List Piece
  item : Piece
  deriving DecidableEq, Repr

namespace Slot

/-- The pieces of a slot, in order. -/
def pieces (s : Slot) : List Piece :=
  s.gap ++ [s.item]

end Slot

/-- Content pieces with the layout before each of them, and the layout after the last. -/
structure Sheet where
  slots : List Slot
  tail : List Piece
  deriving DecidableEq, Repr

namespace Sheet

/-- Puts a piece in front. -/
def cons (p : Piece) (s : Sheet) : Sheet :=
  if p.isLayout then
    match s.slots with
    | [] => ⟨[], p :: s.tail⟩
    | first :: more => ⟨⟨p :: first.gap, first.item⟩ :: more, s.tail⟩
  else
    ⟨⟨[], p⟩ :: s.slots, s.tail⟩

/-- A list of pieces as a sheet. -/
def ofPieces : List Piece → Sheet
  | [] => ⟨[], []⟩
  | p :: more => cons p (ofPieces more)

/-- The pieces of a sheet, in order. -/
def pieces (s : Sheet) : List Piece :=
  s.slots.flatMap Slot.pieces ++ s.tail

theorem pieces_cons (p : Piece) (s : Sheet) : (cons p s).pieces = p :: s.pieces := by
  rcases s with ⟨_ | ⟨first, more⟩, tail⟩ <;> by_cases h : p.isLayout <;>
    simp [cons, pieces, Slot.pieces, h]

/-- A sheet holds the pieces it was made of. -/
@[simp] theorem pieces_ofPieces (ps : List Piece) : (ofPieces ps).pieces = ps := by
  induction ps with
  | nil => rfl
  | cons p more ih => rw [ofPieces, pieces_cons, ih]

end Sheet

end ShaderStyle
