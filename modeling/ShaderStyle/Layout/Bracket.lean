import ShaderStyle.Diagnostic
import ShaderStyle.Layout.Piece
import ShaderStyle.Rules

/-!
# Space inside brackets

Round and square brackets are paired by a stack: a closing bracket pairs with the last one still open
if that is of its own form, and is ignored otherwise. Just inside a pair there is one space or none,
as the rules say, and none at all in an empty pair. A gap with a line break is no matter of this rule,
nor is a gap or a pair of which a part is to be left as it is.
-/

namespace ShaderStyle.Layout

/-- The bracket that closes an opening one. -/
def closerOf (open_ : Text) : Option Text :=
  if open_ = ['('] then some [')']
  else if open_ = ['['] then some [']']
  else none

/-- Two paired brackets and their places among the content pieces. -/
structure BracketPair where
  openAt : Nat
  closeAt : Nat
  opener : Piece
  closer : Piece
  deriving DecidableEq, Repr

namespace BracketPair

/-- Whether both brackets may be formatted. -/
def isLive (p : BracketPair) : Bool :=
  !p.opener.suppressed && !p.closer.suppressed

end BracketPair

/-- The pairs among some content pieces, in the order of their closing brackets. The first piece is
at place `i`, and `stack` holds the brackets still open, innermost first. -/
def bracketPairs (stack : List (Nat × Piece)) (i : Nat) : List Piece → List BracketPair
  | [] => []
  | p :: more =>
    if p.kind = .punctuation then
      if (closerOf p.text).isSome then bracketPairs ((i, p) :: stack) (i + 1) more
      else match stack with
        | [] => bracketPairs stack (i + 1) more
        | (j, opener) :: outer =>
          if closerOf opener.text = some p.text then
            ⟨j, i, opener, p⟩ :: bracketPairs outer (i + 1) more
          else bracketPairs stack (i + 1) more
    else bracketPairs stack (i + 1) more

/-- The pairs that may be formatted, in the order of their opening brackets. -/
def livePairs (slots : List Slot) : List BracketPair :=
  ((bracketPairs [] 0 (slots.map Slot.item)).filter BracketPair.isLive).mergeSort
    fun p q => p.openAt ≤ q.openAt

/-- The blanks that belong just inside a pair with content. -/
def innerBlanks (rules : RuleSet) : Text :=
  if rules.spacesInBrackets then [' '] else []

/-- The blanks that belong in the gap before the content piece at place `i`, none where no bracket
says. -/
def edgeBlanks (rules : RuleSet) (pairs : List BracketPair) (i : Nat) : Option Text :=
  if pairs.any (fun p => p.openAt + 1 = i && p.closeAt = i) then some []
  else if pairs.any (fun p => p.openAt + 1 = i || p.closeAt = i) then some (innerBlanks rules)
  else none

/-- Whether a gap that should hold `wanted` has to be replaced. -/
def gapDiffers (wanted : Option Text) (gap : List Piece) : Bool :=
  match wanted with
  | none => false
  | some t =>
    !gap.any (fun p => p.suppressed || p.isNewline) && Piece.render gap ≠ t

/-- A gap of exactly these blanks. -/
def gapOf : Text → List Piece
  | [] => []
  | t => [.blanks t]

/-- The slots with the gaps inside brackets as the rules want them; the first slot is at place `i`. -/
def spaceBrackets (rules : RuleSet) (pairs : List BracketPair) (i : Nat) : List Slot → List Slot
  | [] => []
  | s :: more =>
    let wanted := edgeBlanks rules pairs i
    (if gapDiffers wanted s.gap then { s with gap := gapOf (wanted.getD []) } else s) ::
      spaceBrackets rules pairs (i + 1) more

/-- Whether the gap before the content piece at place `i` has to be replaced. -/
def edgeDiffers (rules : RuleSet) (pairs : List BracketPair) (slots : List Slot) (i : Nat) : Bool :=
  match slots[i]? with
  | none => false
  | some s => gapDiffers (edgeBlanks rules pairs i) s.gap

/-- The finding about a pair with a gap that is replaced. -/
def bracketDiagnostic (rules : RuleSet) (p : BracketPair) : Diagnostic :=
  ⟨.warning, "spaces-in-brackets", Piece.firstSpan [p.opener],
    if rules.spacesInBrackets then "expected one space inside brackets"
    else "expected no space inside brackets"⟩

/-- The findings about the pairs with a gap that is replaced, in order. -/
def bracketDiagnostics (rules : RuleSet) (pairs : List BracketPair) (slots : List Slot) :
    List Diagnostic :=
  (pairs.filter fun p =>
    edgeDiffers rules pairs slots (p.openAt + 1) || edgeDiffers rules pairs slots p.closeAt).map
    (bracketDiagnostic rules)

end ShaderStyle.Layout
