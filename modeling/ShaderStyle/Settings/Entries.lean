import ShaderStyle.Rules
import ShaderStyle.Settings.Error
import ShaderStyle.Text.Blank

/-!
# Rule sets from settings

Every rule has a key, and one rule has a second, older one. `RuleSet.ofEntries` reads the entries of a
settings file in order: each key must be known and its rule not given before, and its value must be
one that the rule accepts. What is not given keeps its default. Last, two combinations of rules that
would make no sense are refused.
-/

namespace ShaderStyle

/-- The rules that settings can give. -/
inductive RuleKey where
  | indentation
  | openBrace
  | maxEmptyLines
  | spacesInBrackets
  | indentDirectives
  | nestConditionals
  | functionDocs
  | structDocs
  | fieldDocs
  | variableCase
  | functionCase
  | structCase
  | localVariableCase
  | boolPrefix
  | intPrefix
  | floatPrefix
  | globalPrefix
  | forcedEnding
  | stripped
  deriving DecidableEq, Repr

namespace RuleKey

/-- All rules. -/
def all : List RuleKey :=
  [ .indentation, .openBrace, .maxEmptyLines, .spacesInBrackets, .indentDirectives,
    .nestConditionals, .functionDocs, .structDocs, .fieldDocs, .variableCase, .functionCase,
    .structCase, .localVariableCase, .boolPrefix, .intPrefix, .floatPrefix, .globalPrefix,
    .forcedEnding, .stripped ]

/-- The rule's key. -/
def name : RuleKey → String
  | .indentation => "Indentation"
  | .openBrace => "NewLineOnOpenBrace"
  | .maxEmptyLines => "MaxEmptyLines"
  | .spacesInBrackets => "SpacesInBrackets"
  | .indentDirectives => "IndentPreprocessor"
  | .nestConditionals => "PreprocessorIfCreatesNesting"
  | .functionDocs => "RequireDocsOnFunctions"
  | .structDocs => "RequireDocsOnStructs"
  | .fieldDocs => "RequireDocsOnFields"
  | .variableCase => "VariableCase"
  | .functionCase => "FunctionCase"
  | .structCase => "StructCase"
  | .localVariableCase => "LocalVariableCase"
  | .boolPrefix => "BoolPrefix"
  | .intPrefix => "IntPrefix"
  | .floatPrefix => "FloatPrefix"
  | .globalPrefix => "GlobalVariablePrefix"
  | .forcedEnding => "ForceLineEnding"
  | .stripped => "StripPrefixBeforeCase"

/-- The older key of the rule about opening braces. -/
def olderOpenBrace : String := "NewLineAroundOpenBraceRule"

/-- The rule that a key stands for. -/
def ofName? (key : String) : Option RuleKey :=
  if key = olderOpenBrace then some .openBrace else all.find? fun k => k.name = key

/-- The keys of all rules, in alphabetical order. -/
def names : List String :=
  (all.map name).mergeSort fun a b => a ≤ b

end RuleKey

/-! ## Values -/

namespace Value

/-- One of the named members of `members`. -/
def choice {α : Type} (members : List α) (name : α → String) (key : String) :
    Value → Except SettingsCause α
  | .text s =>
    match members.find? fun m => name m = s with
    | some m => .ok m
    | none => .error (.unknownChoice key s (members.map name))
  | v => .error (.wrongKind key .string v.kindName)

/-- A truth value. -/
def flag (key : String) : Value → Except SettingsCause Bool
  | .boolean b => .ok b
  | v => .error (.wrongKind key .boolean v.kindName)

/-- A number that is not negative. -/
def count (key : String) : Value → Except SettingsCause Nat
  | .integer i => if i < 0 then .error (.negative key i) else .ok i.toNat
  | v => .error (.wrongKind key .integer v.kindName)

/-- The start of a name: ASCII characters, at least one, none of them blank. -/
def nameStart (key : String) : Value → Except SettingsCause Text
  | .text s =>
    let t := s.toList
    if t = [] then .error (.emptyPrefix key)
    else if t.all (fun c => c.toNat < 128 && !Text.isBlank c) then .ok t
    else .error (.unfitPrefix key)
  | v => .error (.wrongKind key .string v.kindName)

/-- One of the line breaks. -/
def lineEnding (key : String) : Value → Except SettingsCause LineEnding
  | .text s =>
    match [LineEnding.lf, .crlf, .cr].find? fun e => e.text = s.toList with
    | some e => .ok e
    | none => .error (.unknownEnding key s)
  | v => .error (.wrongKind key .string v.kindName)

/-- A set of name categories, listed in a fixed order whatever the order in which they are given. -/
def categories (key : String) : Value → Except SettingsCause (List NameCategory)
  | .list items => do
    let given ← items.mapM (choice NameCategory.all NameCategory.name key)
    return NameCategory.all.filter given.contains
  | v => .error (.wrongKind key .listOfStrings v.kindName)

/-- The style of indentation. -/
def indentation (key : String) : Value → Except SettingsCause Indentation :=
  choice [.tab, .twoSpaces, .fourSpaces]
    (fun
      | .tab => "Tab"
      | .twoSpaces => "TwoSpaces"
      | .fourSpaces => "FourSpaces")
    key

/-- The place of opening braces. -/
def openBrace (key : String) : Value → Except SettingsCause BracePlacement :=
  choice [.sameLine, .ownLine]
    (fun
      | .sameLine => "After"
      | .ownLine => "Before")
    key

/-- A case style. -/
def caseStyle (key : String) : Value → Except SettingsCause CaseStyle :=
  choice CaseStyle.all CaseStyle.name key

end Value

/-! ## Entries -/

namespace RuleSet

/-- Sets a rule to a value that was given under `key`. -/
def set (r : RuleSet) (rule : RuleKey) (key : String) (v : Value) :
    Except SettingsCause RuleSet :=
  match rule with
  | .indentation => return { r with indentation := ← v.indentation key }
  | .openBrace => return { r with openBrace := ← v.openBrace key }
  | .maxEmptyLines => return { r with maxEmptyLines := ← v.count key }
  | .spacesInBrackets => return { r with spacesInBrackets := ← v.flag key }
  | .indentDirectives => return { r with indentDirectives := ← v.flag key }
  | .nestConditionals => return { r with nestConditionals := ← v.flag key }
  | .functionDocs => return { r with functionDocs := some (← v.flag key) }
  | .structDocs => return { r with structDocs := some (← v.flag key) }
  | .fieldDocs => return { r with fieldDocs := some (← v.flag key) }
  | .variableCase => return { r with variableCase := some (← v.caseStyle key) }
  | .functionCase => return { r with functionCase := some (← v.caseStyle key) }
  | .structCase => return { r with structCase := some (← v.caseStyle key) }
  | .localVariableCase => return { r with localVariableCase := some (← v.caseStyle key) }
  | .boolPrefix => return { r with boolPrefix := some (← v.nameStart key) }
  | .intPrefix => return { r with intPrefix := some (← v.nameStart key) }
  | .floatPrefix => return { r with floatPrefix := some (← v.nameStart key) }
  | .globalPrefix => return { r with globalPrefix := some (← v.nameStart key) }
  | .forcedEnding => return { r with forcedEnding := some (← v.lineEnding key) }
  | .stripped => return { r with stripped := ← v.categories key }

/-- Refuses combinations of rules that would make no sense. -/
def validate (r : RuleSet) : Except SettingsCause RuleSet :=
  if r.nestConditionals && !r.indentDirectives then .error .nestingWithoutIndentation
  else if r.stripped ≠ [] && !r.hasTypePrefix then .error .strippingWithoutPrefix
  else .ok r

/-- Sets the rules that some entries give; `given` holds the rules given before, with their keys. -/
def setAll (given : List (RuleKey × String)) (r : RuleSet) :
    List (String × Value) → Except SettingsCause RuleSet
  | [] => .ok r
  | (key, v) :: more =>
    match RuleKey.ofName? key with
    | none => .error (.unknownRule key)
    | some rule =>
      match given.lookup rule with
      | some first => .error (.givenTwice rule.name first key)
      | none => do
        let next ← r.set rule key v
        setAll ((rule, key) :: given) next more

/-- The rule set that the entries of a settings file give. -/
def ofEntries (entries : List (String × Value)) : Except SettingsCause RuleSet := do
  validate (← setAll [] {} entries)

end RuleSet

end ShaderStyle
