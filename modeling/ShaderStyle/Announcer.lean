import ShaderStyle.Event
import ShaderStyle.Text.Basic
import ShaderStyle.Text.Lowercase

/-!
# Announcements

Progress and problems are announced under the name and in the colour of a tool.
-/

namespace ShaderStyle

/-- The name, the colour and the welcome of a tool. -/
structure Announcer where
  name : String
  color : String
  welcome : String
  deriving DecidableEq, Repr

namespace Announcer

/-- The announcer of this tool. -/
def standard : Announcer :=
  ⟨"shader-formatter", "cyan", "HLSL/GLSL style formatter"⟩

/-- The name under which the tool keeps its log: in lower case, with underscores for spaces. -/
def logName (a : Announcer) : Text :=
  (Text.lowercase a.name.toList).map fun c => if c = ' ' then '_' else c

/-- A text in a style. -/
def inStyle (style text : String) : String :=
  "[" ++ style ++ "]" ++ text ++ "[/" ++ style ++ "]"

/-- The line with which the tool starts. -/
def banner (a : Announcer) : Event :=
  .markup .err (inStyle ("bold " ++ a.color) a.name ++
    if a.welcome = "" then "" else " - " ++ a.welcome)

/-- A step that has been done. -/
def step (a : Announcer) (message : String) : Event :=
  .markup .err (inStyle a.color ">" ++ " " ++ message)

/-- A problem that ends something. -/
def error (_ : Announcer) (message : String) : Event :=
  .markup .err (inStyle "bold red" "error:" ++ " " ++ message)

/-- A problem that ends nothing. -/
def warning (_ : Announcer) (message : String) : Event :=
  .markup .err (inStyle "yellow" "warning:" ++ " " ++ message)

end Announcer

end ShaderStyle
