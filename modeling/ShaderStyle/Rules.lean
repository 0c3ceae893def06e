import ShaderStyle.Text.Basic

/-!
# Rule sets

A rule set holds what every formatting rule and every check is set to. Formatting rules always have a
value. A naming or documentation rule may be left unset, and is then not checked at all; that differs
from a rule set to a value that asks for nothing.
-/

namespace ShaderStyle

/-- What one level of indentation is made of. -/
inductive Indentation where
  | tab
  | twoSpaces
  | fourSpaces
  deriving DecidableEq, Repr

namespace Indentation

/-- The text of one level. -/
def unit : Indentation → Text
  | .tab => ['\t']
  | .twoSpaces => [' ', ' ']
  | .fourSpaces => [' ', ' ', ' ', ' ']

/-- The text of `n` levels. -/
def levels (i : Indentation) (n : Nat) : Text :=
  (List.replicate n i.unit).flatten

theorem levels_add (i : Indentation) (m n : Nat) : i.levels (m + n) = i.levels m ++ i.levels n := by
  rw [levels, ← List.replicate_append_replicate, List.flatten_append]
  rfl

end Indentation

/-- Where an opening brace stands: after its header on the same line, or on a line of its own. -/
inductive BracePlacement where
  | sameLine
  | ownLine
  deriving DecidableEq, Repr

/-- The ways of writing a name of several words. -/
inductive CaseStyle where
  | camel
  | pascal
  | snake
  | upperSnake
  deriving DecidableEq, Repr

namespace CaseStyle

/-- All case styles. -/
def all : List CaseStyle := [.camel, .pascal, .snake, .upperSnake]

/-- The style's name. -/
def name : CaseStyle → String
  | .camel => "Camel"
  | .pascal => "Pascal"
  | .snake => "Snake"
  | .upperSnake => "UpperSnake"

end CaseStyle

/-- The kinds of names whose type prefix may be left out of the case check. -/
inductive NameCategory where
  | variable
  | localVariable
  | field
  | parameter
  deriving DecidableEq, Repr

namespace NameCategory

/-- All categories. -/
def all : List NameCategory := [.variable, .localVariable, .field, .parameter]

/-- The category's name. -/
def name : NameCategory → String
  | .variable => "Variable"
  | .localVariable => "LocalVariable"
  | .field => "Field"
  | .parameter => "Parameter"

end NameCategory

/-- The line breaks that a file may be written with. -/
inductive LineEnding where
  | lf
  | crlf
  | cr
  deriving DecidableEq, Repr

namespace LineEnding

/-- The characters of the break. -/
def text : LineEnding → Text
  | .lf => ['\n']
  | .crlf => ['\r', '\n']
  | .cr => ['\r']

end LineEnding

/-- What every rule is set to. -/
structure RuleSet where
  indentation : Indentation := .fourSpaces
  openBrace : BracePlacement := .sameLine
  maxEmptyLines : Nat := 1
  spacesInBrackets : Bool := false
  indentDirectives : Bool := false
  nestConditionals : Bool := false
  functionDocs : Option Bool := none
  structDocs : Option Bool := none
  fieldDocs : Option Bool := none
  variableCase : Option CaseStyle := none
  functionCase : Option CaseStyle := none
  structCase : Option CaseStyle := none
  localVariableCase : Option CaseStyle := none
  boolPrefix : Option Text := none
  intPrefix : Option Text := none
  floatPrefix : Option Text := none
  globalPrefix : Option Text := none
  forcedEnding : Option LineEnding := none
  stripped : List NameCategory := []
  deriving DecidableEq, Repr

namespace RuleSet

/-- The line break that files are written with; a line feed unless another one is asked for. -/
def lineEnding (r : RuleSet) : LineEnding :=
  r.forcedEnding.getD .lf

/-- Whether the lines between conditional directives are indented. -/
def nestsConditionals (r : RuleSet) : Bool :=
  r.indentDirectives && r.nestConditionals

/-- Whether a prefix is asked for by some type. -/
def hasTypePrefix (r : RuleSet) : Bool :=
  r.boolPrefix.isSome || r.intPrefix.isSome || r.floatPrefix.isSome

end RuleSet

end ShaderStyle
