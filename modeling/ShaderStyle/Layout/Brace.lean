import ShaderStyle.Diagnostic
import ShaderStyle.Layout.Piece
import ShaderStyle.Rules

/-!
# Opening braces

An opening brace follows the header of its block: a closing bracket or a word other than `return`.
The gap between the two is one space, or it holds exactly one line break, as the rules say. A gap
that differs is replaced as a whole, unless a part of it or the header is to be left as it is.
-/

namespace ShaderStyle.Layout

/-- Whether a block may follow the piece. -/
def endsHeader (p : Piece) : Bool :=
  match p.kind with
  | .punctuation => p.text = [')'] || p.text = [']']
  | .word _ => p.text ≠ ['r', 'e', 't', 'u', 'r', 'n']
  | _ => false

/-- Whether the gap before a brace is as the rules want it. -/
def braceGapFits (placement : BracePlacement) (gap : List Piece) : Bool :=
  match placement with
  | .sameLine =>
    match gap with
    | [p] => p.text = [' ']
    | _ => false
  | .ownLine => gap.countP Piece.isNewline = 1

/-- Whether the gap of a slot belongs to a brace that the rules place; `header` is the content piece
before it. -/
def placesBrace (header : Option Piece) (s : Slot) : Bool :=
  s.item.isMark '{' && !s.item.suppressed &&
    header.any (fun h => endsHeader h && !h.suppressed) && !s.gap.any Piece.suppressed

/-- Whether the gap of a slot has to be replaced. -/
def movesBrace (rules : RuleSet) (header : Option Piece) (s : Slot) : Bool :=
  placesBrace header s && !braceGapFits rules.openBrace s.gap

/-- The gap that the rules want before a brace. -/
def braceGap (rules : RuleSet) : List Piece :=
  match rules.openBrace with
  | .sameLine => [.blanks [' ']]
  | .ownLine => [.newline rules.lineEnding.text]

/-- The finding about a brace that is moved. -/
def braceDiagnostic (rules : RuleSet) (brace : Piece) : Diagnostic :=
  ⟨.warning, "brace-placement", Piece.firstSpan [brace],
    match rules.openBrace with
    | .sameLine => "opening brace should be on the same line as its header"
    | .ownLine => "opening brace should start its own line"⟩

/-- The slots with every opening brace in its place; `header` is the content piece before them. -/
def placeBraces (rules : RuleSet) (header : Option Piece) : List Slot → List Slot
  | [] => []
  | s :: more =>
    (if movesBrace rules header s then { s with gap := braceGap rules } else s) ::
      placeBraces rules (some s.item) more

/-- The findings about the braces that are moved, in order. -/
def braceDiagnostics (rules : RuleSet) (header : Option Piece) : List Slot → List Diagnostic
  | [] => []
  | s :: more =>
    (if movesBrace rules header s then [braceDiagnostic rules s.item] else []) ++
      braceDiagnostics rules (some s.item) more

end ShaderStyle.Layout
