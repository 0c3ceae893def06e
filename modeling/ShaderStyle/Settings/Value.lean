/-!
# Decoded values

What a settings file assigns to its keys, before anything is known about the keys. Of values that no
rule accepts only the kind matters, so floats and dates keep their spelling.
-/

namespace ShaderStyle

/-- A decoded value. -/
inductive Value where
  | text (s : String)
  | integer (i : Int)
  | float (spelling : String)
  | boolean (b : Bool)
  | list (items : List Value)
  | table (entries : List (String × Value))
  | null
  | dateTime (spelling : String)
  | date (spelling : String)
  | time (spelling : String)
  deriving Repr, Inhabited

namespace Value

/-- The name of a value's kind, as messages give it. -/
def kindName : Value → String
  | .text _ => "str"
  | .integer _ => "int"
  | .float _ => "float"
  | .boolean _ => "bool"
  | .list _ => "list"
  | .table _ => "dict"
  | .null => "NoneType"
  | .dateTime _ => "datetime"
  | .date _ => "date"
  | .time _ => "time"

end Value

end ShaderStyle
