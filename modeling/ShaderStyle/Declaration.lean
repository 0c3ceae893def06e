import ShaderStyle.Token

/-!
# Declarations

What a source declares: groups of fields (structures and buffers), functions, variables, fields and
parameters. A declaration refers to tokens by their place in the token list.
-/

namespace ShaderStyle

/-- What a declared name stands for. -/
inductive DeclarationKind where
  | variable
  | function
  | struct
  | field
  | parameter
  deriving DecidableEq, Repr

namespace DeclarationKind

/-- The kind in words. -/
def name : DeclarationKind → String
  | .variable => "variable"
  | .function => "function"
  | .struct => "struct"
  | .field => "field"
  | .parameter => "parameter"

end DeclarationKind

/-- A declared name: the token that holds it, the token with which the whole declaration starts, the
number of braces open around it, and its type. -/
structure Binding where
  kind : DeclarationKind
  name : Text
  nameIndex : Nat
  depth : Nat
  startIndex : Nat
  typeName : Text := []
  typeCategory : TypeCategory := .other
  isArray : Bool := false
  deriving DecidableEq, Repr

/-- A declared name with, for a function, its parameters. -/
structure Declaration extends Binding where
  parameters : List Binding := []
  deriving DecidableEq, Repr

namespace Binding

/-- A variable outside all braces. -/
def isGlobal (b : Binding) : Bool :=
  b.kind = .variable && b.depth = 0

/-- A parameter, or a variable inside braces. -/
def isLocal (b : Binding) : Bool :=
  b.kind = .parameter || (b.kind = .variable && 0 < b.depth)

/-- A function whose type is not `void`. -/
def returnsValue (b : Binding) : Bool :=
  b.kind = .function && b.typeName ≠ ['v', 'o', 'i', 'd']

end Binding

end ShaderStyle
