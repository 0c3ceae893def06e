import ShaderStyle.Settings.Value
import ShaderStyle.Text.Quoted

/-!
# What can be wrong with settings

A settings file that cannot be used is refused as a whole, for the first of these causes that is met.

How a cause is worded is part of it, with two limits. Of a file that is no settings file only this much is
said; what a decoder has to add about the place and the kind of the fault is its own wording and is left
out. And a number is written out with all of its digits; that a system may refuse to write, or to read,
numbers of more than some thousands of digits is left out as well.
-/

namespace ShaderStyle

/-- What a key's value should have been. -/
inductive Expectation where
  | string
  | boolean
  | integer
  | listOfStrings
  deriving DecidableEq, Repr

namespace Expectation

/-- The expectation in words. -/
def words : Expectation → String
  | .string => "a string"
  | .boolean => "a boolean"
  | .integer => "an integer"
  | .listOfStrings => "a list of strings"

end Expectation

/-- Why settings are refused. -/
inductive SettingsCause where
  /-- The file is no settings file at all. What a decoder says about the fault is left out. -/
  | malformed
  /-- The file cannot be read. -/
  | unreadable (reason : String)
  | unknownRule (key : String)
  | givenTwice (rule first second : String)
  | wrongKind (key : String) (expected : Expectation) (kind : String)
  | unknownChoice (key choice : String) (allowed : List String)
  /-- The number is below zero. Its digits may be any number. -/
  | negative (key : String) (value : Int)
  | emptyPrefix (key : String)
  | unfitPrefix (key : String)
  | unknownEnding (key value : String)
  | nestingWithoutIndentation
  | strippingWithoutPrefix
  deriving DecidableEq, Repr

namespace SettingsCause

/-- The cause in words. -/
def message : SettingsCause → String
  | malformed => "invalid TOML"
  | unreadable reason => "cannot read configuration: " ++ reason
  | unknownRule key => "found unknown rule \"" ++ key ++ "\""
  | givenTwice rule first second =>
    "rule \"" ++ rule ++ "\" is given twice (as \"" ++ first ++ "\" and \"" ++ second ++ "\")"
  | wrongKind key expected kind =>
    "expected value for key \"" ++ key ++ "\" to be " ++ expected.words ++ ", got " ++ kind
  | unknownChoice key choice allowed =>
    "found unknown value \"" ++ choice ++ "\" for rule \"" ++ key ++ "\" (expected one of: " ++
      ", ".intercalate allowed ++ ")"
  | negative key value =>
    "expected value for key \"" ++ key ++ "\" to be non-negative, got " ++ toString value
  | emptyPrefix key => "expected value for key \"" ++ key ++ "\" to be a non-empty string"
  | unfitPrefix key =>
    "expected value for key \"" ++ key ++ "\" to be an ASCII string without whitespace"
  | unknownEnding key value =>
    "found unknown value " ++ String.ofList (Text.quoted value.toList) ++ " for rule \"" ++ key ++
      "\" (expected \"\\n\", \"\\r\\n\" or \"\\r\")"
  | nestingWithoutIndentation =>
    "\"PreprocessorIfCreatesNesting\" requires \"IndentPreprocessor\" to be enabled"
  | strippingWithoutPrefix =>
    "\"StripPrefixBeforeCase\" is set but none of \"BoolPrefix\", \"IntPrefix\", \"FloatPrefix\" " ++
      "is configured"

end SettingsCause

/-- Why settings are refused, and the file they come from. -/
structure SettingsError where
  cause : SettingsCause
  path : Option String
  deriving DecidableEq, Repr

namespace SettingsError

/-- The error as one line of text, with the file in front where there is one. -/
def describe (e : SettingsError) : String :=
  match e.path with
  | none | some "" => e.cause.message
  | some path => path ++ ": " ++ e.cause.message

end SettingsError

end ShaderStyle
