import ShaderStyle.Compliance
import ShaderStyle.Proofs.Declaration.Names
import ShaderStyle.Proofs.Layout.Gaps

/-!
# What the rules ask of a declaration

A declaration conforms to a rule set (`Conforms`) when

* the name of a group or a function is written in the style for such names;
* the name of a variable, field or parameter is the prefix of global variables, the prefix of its type
  and a rest, and what the case style looks at of it is written in that style (`VariableConforms`);
* it is documented if it has to be, and the tags of a function's documentation fit it (`TagsFit`).

The checks find nothing exactly when every declaration conforms whose name they look at
(`check_eq_nil_iff_conforms`).
-/

namespace ShaderStyle.Compliance

open Documentation

/-! ## What the rules ask -/

/-- What the name starts with as that of a global variable. -/
def globalPart (rules : RuleSet) (b : Binding) : Text :=
  if b.isGlobal then rules.globalPrefix.getD [] else []

/-- What the name goes on with because of its type. -/
def typePart (rules : RuleSet) (b : Binding) : Text :=
  if b.isArray then []
  else match b.typeCategory with
    | .bool => rules.boolPrefix.getD []
    | .integer => rules.intPrefix.getD []
    | .float => rules.floatPrefix.getD []
    | _ => []

/-- The case style for a variable, field or parameter. -/
def styleOf (rules : RuleSet) (b : Binding) : Option CaseStyle :=
  if b.isLocal then rules.localVariableCase.or rules.variableCase else rules.variableCase

/-- The text is written in the style, if there is one. -/
def InStyle (style : Option CaseStyle) (t : Text) : Prop :=
  ∀ s ∈ style, Naming.isWritten t s = true

/-- What the case style looks at, of the type's prefix and the rest of the name behind it. -/
def casePart (rules : RuleSet) (b : Binding) (rest : Text) : Text :=
  if categoryOf b ∈ rules.stripped then rest else typePart rules b ++ rest

/-- The name has the prefixes that the rules ask for, and the case style is kept behind them. -/
def VariableConforms (rules : RuleSet) (b : Binding) : Prop :=
  ∃ rest, b.name = globalPart rules b ++ (typePart rules b ++ rest) ∧
    (casePart rules b rest = [] ∨ InStyle (styleOf rules b) (casePart rules b rest))

/-- The name is written as the rules ask. -/
def NameConforms (rules : RuleSet) (b : Binding) : Prop :=
  match b.kind with
  | .struct => InStyle rules.structCase b.name
  | .function => InStyle rules.functionCase b.name
  | _ => VariableConforms rules b

/-- The tags of a text fit a function: each parameter has one, they name nothing else, and there is one
for the returned value exactly if there is such a value. -/
structure TagsFit (text : Text) (x : Declaration) : Prop where
  parameters : ∀ p ∈ x.parameters, (parameterNames text).count p.name = 1
  known : ∀ name ∈ parameterNames text, ∃ p ∈ x.parameters, p.name = name
  returned : returnCount text = if x.typeName = ['v', 'o', 'i', 'd'] then 0 else 1

/-- Whether a kind of declaration has to be documented. -/
def asksDocs (rules : RuleSet) : DeclarationKind → Prop
  | .function => rules.functionDocs = some true
  | .struct => rules.structDocs = some true
  | .field => rules.fieldDocs = some true
  | _ => False

/-- The declaration is named and documented as the rules ask. -/
structure Conforms (rules : RuleSet) (tokens : List Token) (x : Declaration) : Prop where
  named : NameConforms rules x.toBinding
  documented : asksDocs rules x.kind → find tokens x.startIndex ≠ []
  tagged : asksDocs rules x.kind → x.kind = .function →
    TagsFit (text (find tokens x.startIndex)) x

/-! ## Names -/

variable {rules : RuleSet} {b : Binding} {span : Span}

theorem checkCase_eq_nil_iff (b : Binding) (span : Span) (rule : String) {style : Option CaseStyle}
    {s : Subject} :
    checkCase b span rule style s = [] ↔ s.part = [] ∨ InStyle style s.part := by
  cases style with
  | none => simp [checkCase, InStyle]
  | some style => simp [checkCase, InStyle, Decidable.or_iff_not_imp_left]

theorem Subject.split?_append (before start rest : Text) :
    Subject.split? ⟨before, start ++ rest⟩ start = some ⟨before ++ start, rest⟩ := by
  simp [Subject.split?]

theorem Subject.split?_eq_none {s : Subject} {start : Text} (h : ¬ start <+: s.part) :
    s.split? start = none := by
  simp [Subject.split?, h]

/-- The check of the first prefix finds nothing and leaves what stands behind it, or it finds that the
prefix is missing. -/
theorem checkGlobalPrefix_cases (rules : RuleSet) (b : Binding) (span : Span) :
    (∃ behind, b.name = globalPart rules b ++ behind ∧
        checkGlobalPrefix rules b span = (⟨globalPart rules b, behind⟩, [])) ∨
      ¬ globalPart rules b <+: b.name ∧ (checkGlobalPrefix rules b span).2 ≠ [] := by
  unfold checkGlobalPrefix globalPart
  cases rules.globalPrefix with
  | none => exact .inl ⟨b.name, by simp⟩
  | some wanted =>
    by_cases hglobal : b.isGlobal = true
    · simp only [hglobal, if_true, Option.getD_some]
      by_cases hstart : wanted <+: b.name
      · rcases hstart with ⟨behind, hname⟩
        refine .inl ⟨behind, hname.symm, ?_⟩
        rw [← hname, Subject.split?_append]
        rfl
      · refine .inr ⟨hstart, ?_⟩
        rw [Subject.split?_eq_none hstart]
        exact List.cons_ne_nil _ _
    · exact .inl ⟨b.name, by simp [hglobal]⟩

/-- The prefix that the rules name for a type is the one that the check looks for. -/
theorem typePart_eq (rules : RuleSet) (b : Binding) :
    typePart rules b = (typePrefix? rules b).elim [] Prod.snd := by
  unfold typePart typePrefix?
  split
  · rfl
  · cases b.typeCategory with
    | bool => cases rules.boolPrefix <;> rfl
    | integer => cases rules.intPrefix <;> rfl
    | float => cases rules.floatPrefix <;> rfl
    | _ => rfl

/-- The check of the second prefix finds nothing and leaves what the case check looks at, or it finds
that the prefix is missing. -/
theorem checkTypePrefix_cases (rules : RuleSet) (b : Binding) (span : Span) (before part : Text) :
    (∃ rest, part = typePart rules b ++ rest ∧
        (checkTypePrefix rules b span ⟨before, part⟩).1.part = casePart rules b rest ∧
        (checkTypePrefix rules b span ⟨before, part⟩).2 = []) ∨
      ¬ typePart rules b <+: part ∧ (checkTypePrefix rules b span ⟨before, part⟩).2 ≠ [] := by
  unfold casePart
  rw [typePart_eq]
  unfold checkTypePrefix
  cases typePrefix? rules b with
  | none => exact .inl ⟨part, rfl, by simp, rfl⟩
  | some found =>
    simp only [Option.elim_some]
    by_cases hstart : found.2 <+: part
    · rcases hstart with ⟨rest, rfl⟩
      refine .inl ⟨rest, rfl, ?_⟩
      rw [Subject.split?_append]
      simp only [List.contains_iff_mem, and_true]
      split <;> rfl
    · refine .inr ⟨hstart, ?_⟩
      rw [Subject.split?_eq_none hstart]
      exact List.cons_ne_nil _ _

theorem variableCase_snd (rules : RuleSet) (b : Binding) :
    (variableCase rules b).2 = styleOf rules b := by
  unfold variableCase styleOf
  cases b.isLocal <;> cases rules.localVariableCase <;> rfl

theorem checkVariable_eq_nil_iff :
    checkVariable rules b span = [] ↔ VariableConforms rules b := by
  have hfindings : checkVariable rules b span = [] ↔
      (checkGlobalPrefix rules b span).2 = [] ∧
        (checkTypePrefix rules b span (checkGlobalPrefix rules b span).1).2 = [] ∧
        ((checkTypePrefix rules b span (checkGlobalPrefix rules b span).1).1.part = [] ∨
          InStyle (styleOf rules b)
            (checkTypePrefix rules b span (checkGlobalPrefix rules b span).1).1.part) := by
    rw [← variableCase_snd, ← checkCase_eq_nil_iff b span (variableCase rules b).1]
    simp only [checkVariable, List.append_eq_nil_iff, and_assoc]
  rw [hfindings]
  rcases checkGlobalPrefix_cases rules b span with ⟨behind, hname, hglobal⟩ | ⟨hname, hglobal⟩
  · simp only [hglobal, true_and]
    rcases checkTypePrefix_cases rules b span (globalPart rules b) behind with
      ⟨rest, hbehind, hpart, htype⟩ | ⟨hbehind, htype⟩
    · simp only [htype, true_and, hpart]
      constructor
      · intro hcase
        exact ⟨rest, by rw [hname, hbehind], hcase⟩
      · rintro ⟨rest', hname', hcase⟩
        rw [hname, hbehind, List.append_cancel_left_eq, List.append_cancel_left_eq] at hname'
        rw [hname']
        exact hcase
    · refine iff_of_false (fun h => htype h.1) ?_
      rintro ⟨rest, hname', -⟩
      rw [hname, List.append_cancel_left_eq] at hname'
      exact hbehind ⟨rest, hname'.symm⟩
  · refine iff_of_false (fun h => hglobal h.1) ?_
    rintro ⟨rest, hname', -⟩
    exact hname ⟨_, hname'.symm⟩

theorem checkName_eq_nil_iff_nameConforms (hname : b.name ≠ []) :
    checkName rules b span = [] ↔ NameConforms rules b := by
  unfold checkName NameConforms
  cases b.kind with
  | struct => simp [checkCase_eq_nil_iff, hname]
  | function => simp [checkCase_eq_nil_iff, hname]
  | _ => exact checkVariable_eq_nil_iff

/-! ## Documentation -/

theorem parameterProblems_eq_nil_iff {parameters documented : List Text} :
    parameterProblems parameters documented = [] ↔
      (∀ p ∈ parameters, documented.count p = 1) ∧ ∀ p ∈ documented, p ∈ parameters := by
  have hmissing : ((parameters.filter fun p => !documented.contains p).map
      fun p => "missing @param for " ++ named p) = [] ↔ ∀ p ∈ parameters, p ∈ documented := by
    simp
  have hwrong : (documented.eraseDups.filterMap fun p =>
      if !parameters.contains p then some ("@param " ++ named p ++ " does not name a parameter")
      else if 1 < documented.count p then
        some ("@param " ++ named p ++ " is documented more than once")
      else none) = [] ↔ ∀ p ∈ documented, p ∈ parameters ∧ documented.count p ≤ 1 := by
    rw [List.filterMap_eq_nil_iff]
    apply forall_congr'
    intro p
    rw [List.mem_eraseDups]
    apply imp_congr_right
    intro _
    by_cases hp : p ∈ parameters <;> simp [hp]
  rw [parameterProblems, List.append_eq_nil_iff, hmissing, hwrong]
  constructor
  · rintro ⟨hall, honce⟩
    refine ⟨?_, fun p hp => (honce p hp).1⟩
    intro p hp
    have hpos := List.count_pos_iff.2 (hall p hp)
    have hle := (honce p (hall p hp)).2
    omega
  · rintro ⟨hone, hknown⟩
    refine ⟨?_, fun p hp => ⟨hknown p hp, Nat.le_of_eq (hone p (hknown p hp))⟩⟩
    intro p hp
    rw [← List.count_pos_iff, hone p hp]
    exact Nat.one_pos

theorem returnProblems_eq_nil_iff {returnsValue : Bool} {count : Nat} :
    returnProblems returnsValue count = [] ↔ count = if returnsValue then 1 else 0 := by
  unfold returnProblems
  cases returnsValue with
  | true =>
    simp only [if_true]
    split
    · simp [*]
    · split
      · simp only [List.cons_ne_nil, false_iff]
        omega
      · simp only [true_iff]
        omega
  | false => simp

/-- Nothing is wrong with the tags of a function's documentation exactly if they fit it. -/
theorem tagsFit_iff {t : Text} {x : Declaration} (hkind : x.kind = .function) :
    parameterProblems (x.parameters.map Binding.name) (parameterNames t) ++
        returnProblems x.returnsValue (returnCount t) = [] ↔ TagsFit t x := by
  have hreturns : x.returnsValue = !decide (x.typeName = ['v', 'o', 'i', 'd']) := by
    simp [Binding.returnsValue, hkind]
  rw [List.append_eq_nil_iff, parameterProblems_eq_nil_iff, returnProblems_eq_nil_iff, hreturns]
  simp only [List.mem_map, forall_exists_index, and_imp, forall_apply_eq_imp_iff₂,
    Bool.not_eq_eq_eq_not, Bool.not_true, decide_eq_false_iff_not, ite_not]
  exact ⟨fun ⟨⟨h1, h2⟩, h3⟩ => ⟨h1, h2, h3⟩, fun ⟨h1, h2, h3⟩ => ⟨⟨h1, h2⟩, h3⟩⟩

theorem asksDocs_iff {kind : DeclarationKind} :
    asksDocs rules kind ↔ ∃ rule, docRule? rules kind = some (rule, some true) := by
  cases kind <;> simp [asksDocs, docRule?]

theorem checkDocs_eq_nil_iff {tokens : List Token} {x : Declaration} :
    checkDocs rules tokens x span = [] ↔
      (asksDocs rules x.kind → find tokens x.startIndex ≠ []) ∧
        (asksDocs rules x.kind → x.kind = .function →
          TagsFit (text (find tokens x.startIndex)) x) := by
  unfold checkDocs
  split
  · rename_i rule hrule
    have hasks : asksDocs rules x.kind := asksDocs_iff.2 ⟨rule, hrule⟩
    simp only [hasks, true_imp_iff]
    split
    · rename_i hnone
      simp [hnone]
    · rename_i hsome
      refine Iff.trans ?_ (and_iff_right hsome).symm
      by_cases hkind : x.kind = .function
      · simp only [hkind, if_true, true_imp_iff, List.map_eq_nil_iff]
        exact tagsFit_iff hkind
      · simp [hkind]
  · rename_i hrule
    have hasks : ¬ asksDocs rules x.kind := by
      intro hasks
      rcases asksDocs_iff.1 hasks with ⟨rule, h⟩
      exact hrule rule h
    simp [hasks]

/-! ## All declarations -/

/-- A declared name is a text of its source, and no such text is empty. -/
theorem name_ne_nil {d : Dialect} {source : Text} {tokens : List Token} {x : Declaration}
    (htokens : tokenize d source = .ok tokens) (hx : x ∈ scanDeclarations d tokens) :
    x.nameIndex < tokens.length ∧ x.name ≠ [] := by
  rcases name_of_mem_scanDeclarations hx with ⟨t, ht, hidentifier, hname⟩
  rcases Lexer.tokenize_eq_ok_iff.1 htokens with ⟨ls, hlexed, -, rfl⟩
  refine ⟨(List.getElem?_eq_some_iff.1 ht).1, ?_⟩
  have hmem := List.mem_map_of_mem (f := Token.toLexeme) (List.mem_of_getElem? ht)
  rw [Lexer.map_toLexeme_place] at hmem
  rcases List.mem_append.1 hmem with hmem | hend
  · rcases Lexer.exists_reads_of_mem hlexed hmem with ⟨b, rest, hreads⟩
    rw [← hname]
    exact hreads.text_ne_nil
  · rw [List.mem_singleton] at hend
    simp [Lexeme.isIdentifier, hend] at hidentifier

theorem checkDeclaration_eq_nil_iff_conforms {tokens : List Token} {suppressed : List Bool}
    {x : Declaration} (hindex : x.nameIndex < tokens.length) (hname : x.name ≠ []) :
    checkDeclaration rules tokens suppressed x = [] ↔
      (suppressed.getD x.nameIndex false = false → Conforms rules tokens x) := by
  unfold checkDeclaration
  cases hsuppressed : suppressed.getD x.nameIndex false with
  | true => simp
  | false =>
    simp only [Bool.false_eq_true, if_false, List.getElem?_eq_getElem hindex, true_imp_iff,
      List.append_eq_nil_iff, checkName_eq_nil_iff_nameConforms hname, checkDocs_eq_nil_iff]
    exact ⟨fun ⟨h1, h2, h3⟩ => ⟨h1, h2, h3⟩, fun ⟨h1, h2, h3⟩ => ⟨h1, h2, h3⟩⟩

/-- The checks decide whether a source conforms: they find nothing exactly if every declaration whose
name is not suppressed is named and documented as the rules ask. -/
theorem check_eq_nil_iff_conforms (rules : RuleSet) (d : Dialect) (source : Text)
    (tokens : List Token) (suppressed : List Bool) (htokens : tokenize d source = .ok tokens) :
    check rules d tokens suppressed = [] ↔
      ∀ x ∈ scanDeclarations d tokens, suppressed.getD x.nameIndex false = false →
        Conforms rules tokens x := by
  rw [check, List.flatMap_eq_nil_iff]
  apply forall_congr'
  intro x
  apply imp_congr_right
  intro hx
  rcases name_ne_nil htokens hx with ⟨hindex, hname⟩
  exact checkDeclaration_eq_nil_iff_conforms hindex hname

/-- A function whose documentation is asked for. -/
theorem check_eq_nil_iff_conforms_function :
    ∃ tokens, tokenize .hlsl ['i', 'n', 't', ' ', 'f', '(', ')', ';'] = .ok tokens ∧
      (check { functionDocs := some true } .hlsl tokens (Suppression.scan tokens).check = [] ↔
        ∀ x ∈ scanDeclarations .hlsl tokens,
          (Suppression.scan tokens).check.getD x.nameIndex false = false →
            Conforms { functionDocs := some true } tokens x) := by
  have htokens : tokenize .hlsl ['i', 'n', 't', ' ', 'f', '(', ')', ';'] = .ok _ :=
    Lexer.tokenize_eq_ok_iff.2 ⟨[⟨.word (.typeName .integer), ['i', 'n', 't']⟩, ⟨.whitespace, [' ']⟩,
      ⟨.word .identifier, ['f']⟩, ⟨.punctuation, ['(']⟩, ⟨.punctuation, [')']⟩,
      ⟨.punctuation, [';']⟩], by decide +kernel, rfl, rfl⟩
  exact ⟨_, htokens, check_eq_nil_iff_conforms _ .hlsl _ _ _ htokens⟩

end ShaderStyle.Compliance
