import Mathlib.Data.List.Infix
import ShaderStyle.Declaration.Scan

/-!
# The scan as loops over places

`Scan.declarations` hands on the sites that are left, so it ends by its form and what it looks at is
there. Here the scan is written the other way, as loops over the places of one list of sites. Nothing
bounds a loop but its own test, and a site that has to be there is read by its place.

What such a loop comes to is a `Run`: nothing if it does not end, a failure if a site is missing, and
else a result. That the scan ends and misses nothing is then something to prove, and
`Proofs/Declaration/Termination` proves it of all tokens, also of those that no text has. A mark among
these may have several characters or none; a loop that counts brackets takes it for one if it is a piece
of their marks (`Sites.isPiece`).
-/

namespace ShaderStyle.Scan

/-- There is no site at a place where one has to be. -/
structure Missing where
  place : Nat
  deriving DecidableEq, Repr

/-- What a computation comes to: nothing if it does not end, else a failure or a result. -/
abbrev Run (α : Type) : Type :=
  ExceptT Missing Option α

/-- A computation ends with a result, and the result has a property. -/
def Ends {α : Type} (x : Run α) (p : α → Prop) : Prop :=
  ∃ a, x = pure a ∧ p a

theorem Ends.imp {α : Type} {x : Run α} {p q : α → Prop} (h : Ends x p) (himp : ∀ a, p a → q a) :
    Ends x q := by
  rcases h with ⟨a, ha, hp⟩
  exact ⟨a, ha, himp a hp⟩

/-- Some sites, read by their places. -/
abbrev Sites : Type :=
  List Site

namespace Sites

/-! ## Reading sites -/

/-- The site at a place where one has to be. -/
def siteAt (ss : Sites) (k : Nat) : Run Site :=
  match ss[k]? with
  | some s => pure s
  | none => throw ⟨k⟩

/-- Whether a mark stands at a place. There need not be a site. -/
def markAt (ss : Sites) (k : Nat) (c : Char) : Bool :=
  ss[k]?.any (·.isMark c)

/-! ## Brackets and template arguments -/

/-- The place of the bracket that closes the outermost of those opened from a place on, of which `level`
are open. -/
def closing (ss : Sites) (opener closer : Char) (level : Int) (k : Nat) : Run (Option Nat) :=
  if k < ss.length then do
    let s ← ss.siteAt k
    if s.isMark opener then ss |>.closing opener closer (level + 1) (k + 1)
    else if s.isMark closer then
      if level - 1 = 0 then pure (some k) else ss |>.closing opener closer (level - 1) (k + 1)
    else ss |>.closing opener closer level (k + 1)
  else pure none
partial_fixpoint

/-- The place at which template arguments end, of which `level` angle brackets are open. -/
def templateEnd (ss : Sites) (level : Int) (k : Nat) : Run (Option Nat) :=
  if k < ss.length then do
    let s ← ss.siteAt k
    if s.isOperator ['<'] then ss |>.templateEnd (level + 1) (k + 1)
    else if s.isOperator ['>'] || s.isOperator ['>', '>'] then
      if level - s.text.length ≤ 0 then pure (some k)
      else ss |>.templateEnd (level - s.text.length) (k + 1)
    else if s.endsStatement then pure none
    else ss |>.templateEnd level (k + 1)
  else pure none
partial_fixpoint

/-- The place behind a type's template arguments, if it has any. -/
def afterType (ss : Sites) (k : Nat) : Run (Option Nat) :=
  if ss[k]?.any (·.isOperator ['<']) then do
    let last ← ss.templateEnd 0 k
    pure (last.map (· + 1))
  else pure (some k)

/-! ## Groups of fields -/

/-- Whether a brace opens before the statement ends. -/
def bodyAhead (ss : Sites) (k : Nat) : Run Bool :=
  if k < ss.length then do
    let s ← ss.siteAt k
    if s.isMark '{' then pure true
    else if s.isMark ';' || s.isMark '}' then pure false
    else ss |>.bodyAhead (k + 1)
  else pure false
partial_fixpoint

/-- Whether the name of a group stands at a place, and a body follows. -/
def isGroupHeader (ss : Sites) (name : Nat) : Run Bool :=
  if ss[name]?.any (·.isIdentifier) then
    if ss.markAt (name + 1) '{' then pure true
    else if ss.markAt (name + 1) ':' then ss.bodyAhead (name + 1)
    else pure false
  else pure false

/-- The place of the next opening brace. Only that brace ends the search. -/
def openBrace (ss : Sites) (k : Nat) : Option Nat :=
  if ss.markAt k '{' then some k else ss |>.openBrace (k + 1)
partial_fixpoint

/-! ## The start of a statement -/

/-- What stands behind attributes and qualifiers: the name of a group, or something else. -/
inductive Head where
  | group (name : Nat)
  | plain (place : Nat)

/-- Passes over attributes, layout qualifiers and qualifying keywords. -/
def head (d : Dialect) (ss : Sites) (k : Nat) : Run (Option Head) :=
  match ss[k]? with
  | none => pure none
  | some s =>
    if s.isMark '[' then do
      match ← ss.closing '[' ']' 0 k with
      | none => pure none
      | some close => ss |>.head d (close + 1)
    else if isLayoutWord s && ss.markAt (k + 1) '(' then do
      match ← ss.closing '(' ')' 0 (k + 1) with
      | none => pure none
      | some close => ss |>.head d (close + 1)
    else do
      if ← (if d.isGroupWord s.text then ss.isGroupHeader (k + 1) else pure false) then
        pure (some (.group (k + 1)))
      else if s.kind = .word .keyword && d.isQualifier s.text then ss |>.head d (k + 1)
      else pure (some (.plain k))
partial_fixpoint

/-! ## Parameters -/

/-- Whether the text of a mark is a piece of some marks: one of them, several in a row or, in a token
that no text has, nothing at all. -/
def isPiece (s : Site) (marks : Text) : Bool :=
  s.kind = .punctuation && decide (s.text <:+: marks)

/-- An opening bracket of any form. -/
def isOpening (s : Site) : Bool :=
  isPiece s ['(', '[', '{']

/-- A closing bracket of any form. -/
def isClosing (s : Site) : Bool :=
  isPiece s [')', ']', '}']

/-- How a bracket changes the number of open ones. -/
def levelStep (s : Site) : Int :=
  if isOpening s then 1 else if isClosing s then -1 else 0

/-- The parts of a parameter list at some places, cut at the commas outside all brackets. -/
def segments (ss : Sites) (level : Int) : List Nat → Run (List (List Nat))
  | [] => pure [[]]
  | k :: ks => do
    let s ← ss.siteAt k
    if s.isMark ',' && level = 0 then
      let more ← ss |>.segments level ks
      pure ([] :: more)
    else
      let more ← ss |>.segments (level + levelStep s) ks
      pure (more.modifyHead (k :: ·))

/-- The places of the type and the name of a parameter. -/
def parameterHead (ss : Sites) : List Nat → Run (List Nat)
  | [] => pure []
  | k :: ks => do
    let s ← ss.siteAt k
    if endsParameterHead s then pure []
    else
      let more ← ss |>.parameterHead ks
      pure (k :: more)

/-- The type that stands nearest before a name. The places come in reverse order. -/
def typeBefore (ss : Sites) (level : Int) : List Nat → Run (Option Site)
  | [] => pure none
  | k :: before => do
    let s ← ss.siteAt k
    if s.isOperator ['>'] || s.isOperator ['>', '>'] then
      ss |>.typeBefore (level + s.text.length) before
    else if s.isOperator ['<'] then ss |>.typeBefore (level - 1) before
    else if level = 0 && s.isType then pure (some s)
    else ss |>.typeBefore level before

/-- The parameter that a part of a parameter list declares. -/
def parameter? (ss : Sites) (segment : List Nat) : Run (Option Binding) := do
  let places ← ss.parameterHead segment
  match places.reverse with
  | last :: first :: before =>
    match ss[last]? with
    | none => pure none
    | some name =>
      if name.isIdentifier then
        let type ← ss.typeBefore 0 (first :: before)
        let start ← ss.siteAt ((first :: before).getLast (by simp))
        let rest := segment.drop places.length
        pure <| some
          { kind := .parameter
            name := name.text
            nameIndex := name.index
            depth := 1
            startIndex := start.index
            typeName := (type.map fun s => s.text).getD []
            typeCategory := (type.map Site.typeCategory).getD .other
            isArray := rest.head?.any fun k => ss.markAt k '[' }
      else pure none
  | _ => pure none

/-- The parameters that the parts of a parameter list declare. -/
def parameters (ss : Sites) : List (List Nat) → Run (List Binding)
  | [] => pure []
  | segment :: more => do
    let found ← ss.parameter? segment
    let others ← ss |>.parameters more
    pure (found.toList ++ others)

/-! ## Statements -/

/-- What a statement declares, the scope that its body opens, and the place where the scan goes on. -/
structure Found where
  declarations : List Declaration
  opens : Option Scope
  resume : Nat

/-- A group of fields, from its name on. -/
def group (ss : Sites) (depth start name : Nat) : Run Found := do
  let s ← ss.siteAt name
  let brace ← ss.openBrace (name + 1)
  pure
    { declarations :=
        [{ kind := .struct, name := s.text, nameIndex := s.index, depth := depth
           startIndex := start }]
      opens := some .struct
      resume := brace }

/-- The place behind the semantic of a function's result, if it has one. -/
def afterSemantic (ss : Sites) (k : Nat) : Nat :=
  if ss.markAt k ':' then k + 2 else k

/-- A function whose type and name stand at the two places. -/
def function? (ss : Sites) (start type name : Nat) : Run (Option Found) := do
  match ← ss.closing '(' ')' 0 (name + 1) with
  | none => pure none
  | some close =>
    let t ← ss.siteAt type
    let n ← ss.siteAt name
    let parts ← ss.segments 0 (List.range' (name + 2) (close - (name + 2)))
    let parameters ← ss.parameters parts
    let k := ss.afterSemantic (close + 1)
    let binding : Binding :=
      { kind := .function, name := n.text, nameIndex := n.index, depth := 0
        startIndex := start, typeName := t.text, typeCategory := t.typeCategory }
    if ss.markAt k '{' then
      pure (some ⟨⟨binding, parameters⟩ :: parameters.map (⟨·, []⟩), some .function, k⟩)
    else if ss.markAt k ';' then
      pure (some ⟨⟨binding, parameters⟩ :: parameters.map (⟨·, []⟩), none, k⟩)
    else pure none

/-- A declared name and whether it is an array. -/
def declarator (ss : Sites) (k : Nat) : Run (Site × Bool) := do
  let s ← ss.siteAt k
  pure (s, ss.markAt (k + 1) '[')

/-- What the comma at a place declares, if a name behind it does. -/
def listed? (ss : Sites) (comma : Nat) : Run (Option (Site × Bool)) :=
  if ss[comma + 1]?.any (·.isIdentifier) && ss[comma + 2]?.any (·.followsVariable) then
    some <$> ss.declarator (comma + 1)
  else pure none

/-- The names declared by the commas from a place on, and the place at which the statement ends.
`level` counts the open brackets. -/
def declarators (ss : Sites) (level k : Nat) : Run (List (Site × Bool) × Nat) :=
  if k < ss.length then do
    let s ← ss.siteAt k
    if s.isDirective || (level = 0 && s.endsStatement) then pure ([], k)
    else if isOpening s then ss |>.declarators (level + 1) (k + 1)
    else if isClosing s then
      if level = 0 then pure ([], k) else ss |>.declarators (level - 1) (k + 1)
    else if s.isMark ',' && level = 0 then
      let name ← ss.listed? k
      let (more, stop) ← ss |>.declarators level (k + 1)
      pure (name.toList ++ more, stop)
    else ss |>.declarators level (k + 1)
  else pure ([], k)
partial_fixpoint

/-- Variables or fields whose first name stands at a place. -/
def variableList (ss : Sites) (kind : DeclarationKind) (depth : Nat) (type : Site)
    (start name : Nat) : Run Found := do
  let first ← ss.declarator name
  let (more, stop) ← ss.declarators 0 (name + 1)
  let declare : Site × Bool → Declaration := fun (n, isArray) =>
    { kind := kind, name := n.text, nameIndex := n.index, depth := depth, startIndex := start
      typeName := type.text, typeCategory := type.typeCategory, isArray := isArray }
  pure ⟨(first :: more).map declare, none, stop⟩

/-- A declaration that starts with a type. -/
def typed? (ss : Sites) (scopes : List Scope) (start k : Nat) : Run (Option Found) :=
  match ss[k]? with
  | none => pure none
  | some type =>
    if type.isType then do
      match ← ss.afterType (k + 1) with
      | none => pure none
      | some name =>
        match ss[name]?, ss[name + 1]? with
        | some n, some next =>
          if n.isIdentifier then
            if next.isMark '(' && scopes.length = 0 then ss.function? start k name
            else if next.followsVariable then
              let kind := if scopes.head? = some .struct then .field else .variable
              some <$> ss.variableList kind scopes.length type start name
            else pure none
          else pure none
        | _, _ => pure none
    else pure none

/-- The declaration that the statement at a place makes, if it makes one. -/
def statement? (d : Dialect) (ss : Sites) (scopes : List Scope) (k : Nat) :
    Run (Option Found) := do
  let first ← ss.siteAt k
  match ← ss.head d k with
  | none => pure none
  | some (.group name) => some <$> ss.group scopes.length first.index name
  | some (.plain type) => ss.typed? scopes first.index type

/-! ## All statements -/

/-- Whether the word `for` stands right before a place. -/
def afterFor (ss : Sites) : Nat → Bool
  | 0 => false
  | k + 1 => ss[k]?.any fun s => s.text = ['f', 'o', 'r']

/-- The declarations from a place on. -/
def declarations (d : Dialect) (ss : Sites) (scopes : List Scope) (pending : Scope)
    (atStart : Bool) (k : Nat) : Run (List Declaration) :=
  if k < ss.length then do
    let s ← ss.siteAt k
    if s.isDirective then ss |>.declarations d scopes pending true (k + 1)
    else if s.isMark '{' then ss |>.declarations d (pending :: scopes) .block true (k + 1)
    else if s.isMark '}' then ss |>.declarations d scopes.tail pending true (k + 1)
    else if s.isMark ';' then ss |>.declarations d scopes .block true (k + 1)
    else
      match ← (if atStart then ss.statement? d scopes k else pure none) with
      | some found =>
        let more ← ss |>.declarations d scopes (found.opens.getD pending) false found.resume
        pure (found.declarations ++ more)
      | none => ss |>.declarations d scopes pending (s.isMark '(' && ss.afterFor k) (k + 1)
  else pure []
partial_fixpoint

end Sites

/-- The declarations of some tokens, found by their places. -/
def scanPlaces (d : Dialect) (tokens : List Token) : Run (List Declaration) :=
  Sites.declarations d (sites tokens) [] .block true 0

end ShaderStyle.Scan
