import ShaderStyle.Path
import ShaderStyle.Settings.Entries
import ShaderStyle.Settings.Toml

/-!
# The nearest settings file

The rules for a directory come from the settings file in it or in the nearest directory above it. Only
that file is read; if it cannot be used, the lookup fails, and files further up are no replacement.
Without any settings file all rules have their defaults.
-/

namespace ShaderStyle

/-- The rule set that the text of a settings file gives. -/
def RuleSet.ofText (t : Text) : Except SettingsCause RuleSet :=
  match Toml.decode? t with
  | none => .error .malformed
  | some entries => RuleSet.ofEntries entries

namespace Settings

/-- The name of a settings file. -/
def fileName : Text :=
  "shader-formatter.toml".toList

/-- What a lookup reads: the names in a directory, and the text of a file or why it cannot be read. -/
structure Source where
  list : Path → List Text
  read : Path → Except String Text

/-- The rules that were found and the file they come from. -/
structure Found where
  rules : RuleSet
  file : Option Path
  deriving DecidableEq, Repr

/-- The directories whose names were asked for, in order, and what came of it. -/
structure Lookup where
  listed : List Path
  result : Except SettingsError Found

/-- The paths up to and including `last`; all of them if it is not among them. -/
def upTo (last : Option Path) : List Path → List Path
  | [] => []
  | p :: more => if some p = last then [p] else p :: upTo last more

/-- The directories in which a settings file is looked for: a directory and those above it, up to
the last one to be searched. -/
def candidates (start : Path) (last : Option Path) : List Path :=
  upTo last (start :: start.parents)

/-- Reads a settings file. -/
def load (source : Source) (file : Path) : Except SettingsError Found :=
  let fail cause := Except.error ⟨cause, some (String.ofList file.toText)⟩
  match source.read file with
  | .error reason => fail (.unreadable reason)
  | .ok text =>
    match RuleSet.ofText text with
    | .error cause => fail cause
    | .ok rules => .ok ⟨rules, some file⟩

/-- Looks for a settings file in some directories, one after the other. -/
def search (source : Source) : List Path → Lookup
  | [] => ⟨[], .ok ⟨{}, none⟩⟩
  | directory :: more =>
    if (source.list directory).contains fileName then
      ⟨[directory], load source (directory.child fileName)⟩
    else
      let above := search source more
      ⟨directory :: above.listed, above.result⟩

/-- Looks for the settings that apply to a directory. -/
def lookup (source : Source) (start : Path) (last : Option Path) : Lookup :=
  search source (candidates start last)

end Settings

end ShaderStyle
