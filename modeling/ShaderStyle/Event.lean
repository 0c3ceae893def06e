/-!
# What is shown

A command shows lines and tables on one of two streams. How they look on a terminal is left to what
shows them: a line of markup names styles in square brackets, and a styled text or cell names one
style for the whole of it.
-/

namespace ShaderStyle

/-- Where something is shown: results on one stream, progress and problems on the other. -/
inductive Stream where
  | out
  | err
  deriving DecidableEq, Repr

/-- A cell of a table. -/
inductive Cell where
  | plain (text : String)
  | styled (text style : String)
  deriving DecidableEq, Repr

/-- A column of a table; `style` is empty for the usual one. -/
structure Column where
  header : String
  alignRight : Bool := false
  style : String := ""
  deriving DecidableEq, Repr

/-- A table. -/
structure Table where
  title : String
  caption : Option String := none
  columns : List Column
  rows : List (List Cell)
  deriving DecidableEq, Repr

/-- One thing that is shown. -/
inductive Event where
  | markup (stream : Stream) (text : String)
  | styled (stream : Stream) (text style : String)
  | table (stream : Stream) (content : Table)
  deriving DecidableEq, Repr

end ShaderStyle
