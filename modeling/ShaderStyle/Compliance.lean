import ShaderStyle.Declaration.Scan
import ShaderStyle.Documentation
import ShaderStyle.Naming

/-!
# Naming and documentation checks

Every declared name whose token is not suppressed is checked against the naming rules, and functions,
groups and fields against the documentation rules. A finding of these checks is an error: it has to
be mended by hand.
-/

namespace ShaderStyle.Compliance

/-- What a declared name is called in messages. -/
def describe (b : Binding) : String :=
  if b.kind = .variable then
    if b.isGlobal then "global variable" else "local variable"
  else b.kind.name

/-- A text between single quotes. -/
def named (t : Text) : String :=
  "'" ++ String.ofList t ++ "'"

/-! ## Names -/

/-- A name, split for the case check: what stands before the checked part, and the checked part. -/
structure Subject where
  before : Text
  part : Text
  deriving DecidableEq, Repr

/-- Splits a text from the start of the subject's part, if the part starts with it. -/
def Subject.split? (s : Subject) (start : Text) : Option Subject :=
  if start.isPrefixOf s.part then some ⟨s.before ++ start, s.part.drop start.length⟩ else none

/-- The finding about the case of a name, if its checked part is not written in the style. -/
def checkCase (b : Binding) (span : Span) (rule : String) (style : Option CaseStyle)
    (s : Subject) : List Diagnostic :=
  match style with
  | none => []
  | some style =>
    if s.part = [] || Naming.isWritten s.part style then []
    else
      [⟨.error, rule, span,
        describe b ++ " " ++ named b.name ++ " should be " ++ style.name ++ " case: " ++
          named (s.before ++ Naming.convert s.part style)⟩]

/-- The category under which a variable, field or parameter may have its type prefix left out of the
case check. -/
def categoryOf (b : Binding) : NameCategory :=
  match b.kind with
  | .field => .field
  | .parameter => .parameter
  | _ => if 0 < b.depth then .localVariable else .variable

/-- The case style for a variable, field or parameter and the rule that asks for it. -/
def variableCase (rules : RuleSet) (b : Binding) : String × Option CaseStyle :=
  if b.isLocal && rules.localVariableCase.isSome then
    ("local-variable-case", rules.localVariableCase)
  else ("variable-case", rules.variableCase)

/-- The prefix that the type of a variable, field or parameter asks for, and the rule that does. -/
def typePrefix? (rules : RuleSet) (b : Binding) : Option (String × Text) :=
  if b.isArray then none
  else match b.typeCategory with
    | .bool => rules.boolPrefix.map ("bool-prefix", ·)
    | .integer => rules.intPrefix.map ("int-prefix", ·)
    | .float => rules.floatPrefix.map ("float-prefix", ·)
    | _ => none

/-- The part of a name behind the prefix of global variables, and the finding if it lacks it. -/
def checkGlobalPrefix (rules : RuleSet) (b : Binding) (span : Span) :
    Subject × List Diagnostic :=
  let whole : Subject := ⟨[], b.name⟩
  match rules.globalPrefix with
  | none => (whole, [])
  | some wanted =>
    if b.isGlobal then
      match whole.split? wanted with
      | some s => (s, [])
      | none =>
        (whole,
          [⟨.error, "global-variable-prefix", span,
            "global variable " ++ named b.name ++ " should start with " ++ named wanted⟩])
    else (whole, [])

/-- The part of a name that the case check looks at, and the finding if the name lacks the prefix of
its type. -/
def checkTypePrefix (rules : RuleSet) (b : Binding) (span : Span) (s : Subject) :
    Subject × List Diagnostic :=
  match typePrefix? rules b with
  | none => (s, [])
  | some (rule, wanted) =>
    match s.split? wanted with
    | some behind => (if rules.stripped.contains (categoryOf b) then behind else s, [])
    | none =>
      (s,
        [⟨.error, rule, span,
          describe b ++ " " ++ named b.name ++ " of type " ++ named b.typeName ++
            " should start with " ++ named (s.before ++ wanted)⟩])

/-- The findings about the name of a variable, field or parameter. -/
def checkVariable (rules : RuleSet) (b : Binding) (span : Span) : List Diagnostic :=
  let (s, globalFindings) := checkGlobalPrefix rules b span
  let (subject, typeFindings) := checkTypePrefix rules b span s
  let (rule, style) := variableCase rules b
  globalFindings ++ typeFindings ++ checkCase b span rule style subject

/-- The findings about a declared name. -/
def checkName (rules : RuleSet) (b : Binding) (span : Span) : List Diagnostic :=
  match b.kind with
  | .struct => checkCase b span "struct-case" rules.structCase ⟨[], b.name⟩
  | .function => checkCase b span "function-case" rules.functionCase ⟨[], b.name⟩
  | _ => checkVariable rules b span

/-! ## Documentation -/

/-- The rule that asks for documentation of a kind of declaration, and what it is set to. -/
def docRule? (rules : RuleSet) : DeclarationKind → Option (String × Option Bool)
  | .function => some ("require-docs-on-functions", rules.functionDocs)
  | .struct => some ("require-docs-on-structs", rules.structDocs)
  | .field => some ("require-docs-on-fields", rules.fieldDocs)
  | _ => none

/-- What is wrong with the parameter tags of a function's documentation. -/
def parameterProblems (parameters documented : List Text) : List String :=
  (parameters.filter fun p => !documented.contains p).map
      (fun p => "missing @param for " ++ named p) ++
    documented.eraseDups.filterMap fun p =>
      if !parameters.contains p then some ("@param " ++ named p ++ " does not name a parameter")
      else if 1 < documented.count p then
        some ("@param " ++ named p ++ " is documented more than once")
      else none

/-- What is wrong with the tags for the returned value. -/
def returnProblems (returnsValue : Bool) (count : Nat) : List String :=
  if returnsValue then
    if count = 0 then ["missing @return"]
    else if 1 < count then ["more than one @return"]
    else []
  else if 0 < count then ["@return on a function returning void"]
  else []

/-- The findings about a declaration's documentation. -/
def checkDocs (rules : RuleSet) (tokens : List Token) (d : Declaration) (span : Span) :
    List Diagnostic :=
  match docRule? rules d.kind with
  | some (rule, some true) =>
    match Documentation.find tokens d.startIndex with
    | [] =>
      [⟨.error, rule, span,
        describe d.toBinding ++ " " ++ named d.name ++ " is missing a documentation comment"⟩]
    | comments =>
      if d.kind = .function then
        let text := Documentation.text comments
        let problems :=
          parameterProblems (d.parameters.map Binding.name) (Documentation.parameterNames text) ++
            returnProblems d.returnsValue (Documentation.returnCount text)
        problems.map fun problem =>
          ⟨.error, rule, span, "function " ++ named d.name ++ ": " ++ problem⟩
      else []
  | _ => []

/-! ## All declarations -/

/-- The findings about one declaration. -/
def checkDeclaration (rules : RuleSet) (tokens : List Token) (suppressed : List Bool)
    (d : Declaration) : List Diagnostic :=
  if suppressed.getD d.nameIndex false then []
  else match tokens[d.nameIndex]? with
    | none => []
    | some t => checkName rules d.toBinding t.span ++ checkDocs rules tokens d t.span

/-- The findings about all declarations of a source; `suppressed` says of each token whether checks
are switched off there. -/
def check (rules : RuleSet) (d : Dialect) (tokens : List Token) (suppressed : List Bool) :
    List Diagnostic :=
  (scanDeclarations d tokens).flatMap (checkDeclaration rules tokens suppressed)

end ShaderStyle.Compliance
