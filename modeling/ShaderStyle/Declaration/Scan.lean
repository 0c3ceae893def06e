import ShaderStyle.Declaration
import ShaderStyle.Dialect

/-!
# Finding declarations

Declarations are recognised by their first few tokens, without a grammar of the whole language.
Layout and comments are left out first; what remains are *sites*, tokens with their place in the full
list. A statement starts after a brace, a semicolon or a directive, and after `for (`. At a statement
start:

* attributes in square brackets, layout qualifiers and qualifying keywords are passed over;
* a group word with a name and a body declares a group of fields;
* a type, template arguments perhaps, and a name declare a function if an opening parenthesis
  follows outside all braces, and variables or fields if a mark follows that can follow those.

Every recogniser returns the sites after what it has read. They are fewer than those it was given,
so the scan ends.

A bracket is one mark here, as it is in the tokens of every text. A list of tokens that comes from no text
may hold marks of several characters or of none. For those the test is a wider one, whether the mark is a
piece of the brackets' characters; `Proofs/Declaration/Loops` has that test, and `Sites.AreSingle` is the
condition under which the two scans find the same (`scanPlaces_of_tokenize`).
-/

namespace ShaderStyle

/-- A token that is neither layout nor comment, with its place in the token list. -/
structure Site extends Lexeme where
  index : Nat
  deriving DecidableEq, Repr

namespace Site

/-- A type name, or an identifier that may name a type. -/
def isType (s : Site) : Bool :=
  match s.kind with
  | .word .identifier => true
  | .word (.typeName _) => true
  | _ => false

/-- The category of the type that the word names; other than the built-in ones it is not known. -/
def typeCategory (s : Site) : TypeCategory :=
  match s.kind with
  | .word (.typeName category) => category
  | _ => .other

/-- The assignment sign. -/
def isAssignment (s : Site) : Bool :=
  s.isOperator ['=']

/-- A semicolon or a brace. -/
def endsStatement (s : Site) : Bool :=
  s.isMark ';' || s.isMark '{' || s.isMark '}'

/-- An opening bracket of any form, as a mark of one character. -/
def isOpening (s : Site) : Bool :=
  s.isMark '(' || s.isMark '[' || s.isMark '{'

/-- A closing bracket of any form, as a mark of one character. -/
def isClosing (s : Site) : Bool :=
  s.isMark ')' || s.isMark ']' || s.isMark '}'

/-- What right after a name makes it a variable or a field. -/
def followsVariable (s : Site) : Bool :=
  s.isAssignment || s.isMark ';' || s.isMark ',' || s.isMark '[' || s.isMark ':'

/-- Whether this is a directive. -/
def isDirective (s : Site) : Bool :=
  match s.kind with
  | .directive _ => true
  | _ => false

end Site

/-- What the innermost open brace belongs to. -/
inductive Scope where
  | block
  | struct
  | function
  deriving DecidableEq, Repr

namespace Scan

/-- The sites of a token list. -/
def sites (tokens : List Token) : List Site :=
  ((tokens.zipIdx).filter fun (t, _) => !t.kind.isTrivia && t.kind ≠ .eof).map
    fun (t, i) => ⟨t.toLexeme, i⟩

/-! ## Brackets and template arguments -/

/-- Splits at the bracket that closes one already open: what stands before it and what after. `depth`
counts the brackets of the same form that are open inside. -/
def splitClosing (opening closing : Char) (depth : Nat) :
    List Site → Option (List Site × List Site)
  | [] => none
  | s :: rest =>
    if s.isMark opening then
      (splitClosing opening closing (depth + 1) rest).map fun (a, b) => (s :: a, b)
    else if s.isMark closing then
      match depth with
      | 0 => some ([], rest)
      | d + 1 => (splitClosing opening closing d rest).map fun (a, b) => (s :: a, b)
    else
      (splitClosing opening closing depth rest).map fun (a, b) => (s :: a, b)

/-- The sites after template arguments of which `depth` angle brackets are open. The end of a
statement ends the search. -/
def afterTemplate (depth : Nat) : List Site → Option (List Site)
  | [] => none
  | s :: rest =>
    if s.isOperator ['<'] then afterTemplate (depth + 1) rest
    else if s.isOperator ['>'] || s.isOperator ['>', '>'] then
      if depth ≤ s.text.length then some rest else afterTemplate (depth - s.text.length) rest
    else if s.endsStatement then none
    else afterTemplate depth rest

theorem length_splitClosing {opening closing : Char} {depth : Nat} {ss inside rest : List Site}
    (h : splitClosing opening closing depth ss = some (inside, rest)) :
    inside.length + rest.length < ss.length := by
  induction ss generalizing depth inside with
  | nil => simp [splitClosing] at h
  | cons s more ih =>
    have kept {depth : Nat}
        (h : (splitClosing opening closing depth more).map (fun (a, b) => (s :: a, b)) =
          some (inside, rest)) : inside.length + rest.length < (s :: more).length := by
      obtain ⟨⟨a, b⟩, hab, heq⟩ := Option.map_eq_some_iff.1 h
      simp only [Prod.mk.injEq] at heq
      obtain ⟨rfl, rfl⟩ := heq
      have := ih hab
      simp only [List.length_cons]
      omega
    simp only [splitClosing] at h
    split at h
    · exact kept h
    · split at h
      · cases depth with
        | zero =>
          simp only [Option.some.injEq, Prod.mk.injEq] at h
          simp [← h.1, h.2]
        | succ d => exact kept h
      · exact kept h

theorem length_afterTemplate {depth : Nat} {ss rest : List Site}
    (h : afterTemplate depth ss = some rest) : rest.length < ss.length := by
  induction ss generalizing depth with
  | nil => simp [afterTemplate] at h
  | cons s more ih =>
    simp only [afterTemplate] at h
    split at h
    · have := ih h; simp only [List.length_cons]; omega
    · split at h
      · split at h
        · simp only [Option.some.injEq] at h; simp [h]
        · have := ih h; simp only [List.length_cons]; omega
      · split at h
        · simp at h
        · have := ih h; simp only [List.length_cons]; omega

/-! ## Groups of fields -/

/-- Whether a brace opens before the statement ends. -/
def bodyAhead : List Site → Bool
  | [] => false
  | s :: rest =>
    if s.isMark '{' then true
    else if s.isMark ';' || s.isMark '}' then false
    else bodyAhead rest

/-- Whether a name and a body follow a group word; a colon and more may stand between them. -/
def isGroupHeader : List Site → Bool
  | name :: next :: more =>
    name.isIdentifier && (next.isMark '{' || (next.isMark ':' && bodyAhead more))
  | _ => false

/-! ## The start of a statement -/

/-- What stands after the attributes and qualifiers of a statement. -/
inductive Head where
  /-- A group word; the sites after it start with the group's name. -/
  | group (rest : List Site)
  /-- Anything else. -/
  | plain (rest : List Site)

/-- The word that opens a layout qualifier. -/
def isLayoutWord (s : Site) : Bool :=
  s.text = ['l', 'a', 'y', 'o', 'u', 't']

/-- Passes over attributes, layout qualifiers and qualifying keywords. -/
def head (d : Dialect) (ss : List Site) : Option Head :=
  match ss with
  | [] => none
  | s :: rest =>
    if s.isMark '[' then
      match _h : splitClosing '[' ']' 0 rest with
      | none => none
      | some (_, after) => head d after
    else if isLayoutWord s && rest.head?.any (·.isMark '(') then
      match _h : splitClosing '(' ')' 0 rest.tail with
      | none => none
      | some (_, after) => head d after
    else if d.isGroupWord s.text && isGroupHeader rest then some (.group rest)
    else if s.kind = .word .keyword && d.isQualifier s.text then head d rest
    else some (.plain ss)
termination_by ss.length
decreasing_by
  · have := length_splitClosing _h; simp only [List.length_cons]; omega
  · have := length_splitClosing _h
    have : rest.tail.length ≤ rest.length := by simp
    simp only [List.length_cons]; omega
  · simp

/-! ## Parameters -/

/-- How a bracket changes the number of open ones. -/
def levelStep (s : Site) : Int :=
  if s.isOpening then 1 else if s.isClosing then -1 else 0

/-- The parts of a parameter list, cut at the commas outside all brackets. Brackets are marks of one
character, as `Sites.AreSingle` asks for. -/
def segments (level : Int) : List Site → List (List Site)
  | [] => [[]]
  | s :: rest =>
    if s.isMark ',' && level = 0 then [] :: segments level rest
    else (segments (level + levelStep s) rest).modifyHead (s :: ·)

/-- What ends the type and the name of a parameter: an array suffix, a semantic or a default. -/
def endsParameterHead (s : Site) : Bool :=
  s.isMark '[' || s.isMark ':' || s.isAssignment

/-- The type that stands nearest before a name, template arguments passed over. The sites come in
reverse order, and `level` counts the angle brackets open to the right of them. -/
def typeBefore (level : Int) : List Site → Option Site
  | [] => none
  | s :: before =>
    if s.isOperator ['>'] || s.isOperator ['>', '>'] then typeBefore (level + s.text.length) before
    else if s.isOperator ['<'] then typeBefore (level - 1) before
    else if level = 0 && s.isType then some s
    else typeBefore level before

/-- The parameter that a part of a parameter list declares. -/
def parameter? (segment : List Site) : Option Binding :=
  match (segment.takeWhile fun s => !endsParameterHead s).reverse with
  | name :: first :: before =>
    if name.isIdentifier then
      let type := typeBefore 0 (first :: before)
      let rest := segment.dropWhile fun s => !endsParameterHead s
      some
        { kind := .parameter
          name := name.text
          nameIndex := name.index
          depth := 1
          startIndex := ((first :: before).getLast (by simp)).index
          typeName := (type.map fun s => s.text).getD []
          typeCategory := (type.map Site.typeCategory).getD .other
          isArray := rest.head?.any (·.isMark '[') }
    else none
  | _ => none

/-! ## Statements -/

/-- What a statement declares, the scope that its body opens, and the sites after it. -/
structure Found where
  declarations : List Declaration
  opens : Option Scope
  rest : List Site

/-- A group of fields, from its name on. -/
def group? (depth start : Nat) : List Site → Option Found
  | [] => none
  | name :: rest =>
    some
      { declarations :=
          [{ kind := .struct, name := name.text, nameIndex := name.index, depth := depth
             startIndex := start }]
        opens := some .struct
        rest := rest.dropWhile fun s => !s.isMark '{' }

/-- The sites behind the semantic of a function's result, if it has one. -/
def afterSemantic (ss : List Site) : List Site :=
  if ss.head?.any (·.isMark ':') then ss.drop 2 else ss

/-- A function, from behind the parenthesis that opens its parameters. -/
def function? (type name : Site) (start : Nat) (ss : List Site) : Option Found :=
  match splitClosing '(' ')' 0 ss with
  | none => none
  | some (inside, after) =>
    let rest := afterSemantic after
    let parameters := (segments 0 inside).filterMap parameter?
    let binding : Binding :=
      { kind := .function, name := name.text, nameIndex := name.index, depth := 0
        startIndex := start, typeName := type.text, typeCategory := type.typeCategory }
    if rest.head?.any (·.isMark '{') then
      some ⟨⟨binding, parameters⟩ :: parameters.map (⟨·, []⟩), some .function, rest⟩
    else if rest.head?.any (·.isMark ';') then
      some ⟨⟨binding, parameters⟩ :: parameters.map (⟨·, []⟩), none, rest⟩
    else none

/-- The names declared after the first by the commas of a statement, each with whether it is an
array, and the sites at which the statement ends. `level` counts the open brackets, which are marks of one
character, as `Sites.AreSingle` asks for. -/
def declarators (level : Nat) : List Site → List (Site × Bool) × List Site
  | [] => ([], [])
  | s :: rest =>
    if s.isDirective || (level = 0 && (s.endsStatement || s.isClosing)) then ([], s :: rest)
    else if s.isOpening then declarators (level + 1) rest
    else if s.isClosing then declarators (level - 1) rest
    else if s.isMark ',' && level = 0 then
      let (more, after) := declarators level rest
      match rest with
      | name :: next :: _ =>
        if name.isIdentifier && next.followsVariable then
          ((name, next.isMark '[') :: more, after)
        else (more, after)
      | _ => (more, after)
    else declarators level rest

/-- Variables or fields, from behind the first name. -/
def variableList (kind : DeclarationKind) (depth : Nat) (type name : Site) (start : Nat)
    (ss : List Site) : Found :=
  let (names, rest) := declarators 0 ss
  let declare : Site × Bool → Declaration := fun (n, isArray) =>
    { kind := kind, name := n.text, nameIndex := n.index, depth := depth, startIndex := start
      typeName := type.text, typeCategory := type.typeCategory, isArray := isArray }
  ⟨((name, ss.head?.any (·.isMark '[')) :: names).map declare, none, rest⟩

/-- The sites behind a type's template arguments, if it has any. -/
def afterType (ss : List Site) : Option (List Site) :=
  if ss.head?.any (·.isOperator ['<']) then afterTemplate 1 ss.tail else some ss

/-- A declaration that starts with a type. -/
def typed? (scopes : List Scope) (start : Nat) : List Site → Option Found
  | [] => none
  | type :: rest =>
    if type.isType then
      match afterType rest with
      | some (name :: next :: more) =>
        if name.isIdentifier then
          if next.isMark '(' && scopes.length = 0 then function? type name start more
          else if next.followsVariable then
            let kind := if scopes.head? = some .struct then .field else .variable
            some (variableList kind scopes.length type name start (next :: more))
          else none
        else none
      | _ => none
    else none

/-- The declaration that a statement makes, if it makes one. -/
def statement? (d : Dialect) (scopes : List Scope) (ss : List Site) : Option Found :=
  match ss with
  | [] => none
  | first :: _ =>
    match head d ss with
    | none => none
    | some (.group rest) => group? scopes.length first.index rest
    | some (.plain rest) => typed? scopes first.index rest

/-! ## What is read is behind -/

theorem length_dropWhile_le {α : Type} (p : α → Bool) (l : List α) :
    (l.dropWhile p).length ≤ l.length :=
  (List.dropWhile_sublist p).length_le

theorem length_head {d : Dialect} {ss : List Site} {found : Head} :
    head d ss = some found →
      match found with
      | .group rest => rest.length < ss.length
      | .plain rest => rest.length ≤ ss.length := by
  fun_induction head d ss with
  | case1 => simp
  | case2 => simp
  | case3 s rest _ inside after hs ih =>
    intro h
    have := length_splitClosing hs
    have := ih h
    cases found <;> simp only [List.length_cons] at * <;> omega
  | case4 => simp
  | case5 s rest _ _ inside after hs ih =>
    intro h
    have := length_splitClosing hs
    have : rest.tail.length ≤ rest.length := by simp
    have := ih h
    cases found <;> simp only [List.length_cons] at * <;> omega
  | case6 s rest =>
    intro h
    simp only [Option.some.injEq] at h
    subst h
    simp
  | case7 s rest _ _ _ _ ih =>
    intro h
    have := ih h
    cases found <;> simp only [List.length_cons] at * <;> omega
  | case8 s rest =>
    intro h
    simp only [Option.some.injEq] at h
    subst h
    simp

theorem length_declarators (level : Nat) (ss : List Site) :
    (declarators level ss).2.length ≤ ss.length := by
  fun_induction declarators level ss <;> simp_all <;> omega

theorem length_afterSemantic (ss : List Site) : (afterSemantic ss).length ≤ ss.length := by
  unfold afterSemantic
  split <;> simp

theorem length_function? {type name : Site} {start : Nat} {ss : List Site} {found : Found}
    (h : function? type name start ss = some found) : found.rest.length < ss.length := by
  unfold function? at h
  split at h
  · simp at h
  · rename_i inside after hs
    have hlen := length_splitClosing hs
    have hdrop := length_afterSemantic after
    simp only at h
    split at h
    · simp only [Option.some.injEq] at h
      subst h
      simp only
      omega
    · split at h
      · simp only [Option.some.injEq] at h
        subst h
        simp only
        omega
      · simp at h

theorem length_afterType {ss rest : List Site} (h : afterType ss = some rest) :
    rest.length ≤ ss.length := by
  unfold afterType at h
  split at h
  · have := length_afterTemplate h
    simp at this
    omega
  · simp only [Option.some.injEq] at h; simp [h]

theorem length_typed? {scopes : List Scope} {start : Nat} {ss : List Site} {found : Found}
    (h : typed? scopes start ss = some found) : found.rest.length < ss.length := by
  cases ss with
  | nil => simp [typed?] at h
  | cons type rest =>
    simp only [typed?] at h
    split at h
    · split at h
      · rename_i name next more hafter
        have hlen := length_afterType hafter
        simp only [List.length_cons] at hlen ⊢
        split at h
        · split at h
          · have := length_function? h; omega
          · split at h
            · simp only [Option.some.injEq] at h
              subst h
              have := length_declarators 0 (next :: more)
              simp only [variableList, List.length_cons] at this ⊢
              omega
            · simp at h
        · simp at h
      · simp at h
    · simp at h

/-- A statement that declares something is read past its first site. -/
theorem length_statement? {d : Dialect} {scopes : List Scope} {ss : List Site} {found : Found}
    (h : statement? d scopes ss = some found) : found.rest.length < ss.length := by
  unfold statement? at h
  split at h
  · simp at h
  · rename_i first more
    split at h
    · simp at h
    · rename_i rest hh
      have hlen : rest.length < (first :: more).length := length_head hh
      cases rest with
      | nil => simp [group?] at h
      | cons name after =>
        simp only [group?, Option.some.injEq] at h
        subst h
        have := length_dropWhile_le (fun s : Site => !s.isMark '{') after
        simp only [List.length_cons] at hlen ⊢
        omega
    · rename_i rest hh
      have hlen : rest.length ≤ (first :: more).length := length_head hh
      have := length_typed? h
      omega

/-! ## All statements -/

/-- What is known at a site: the scopes of the open braces, innermost first, the scope that the next
brace opens, whether a statement starts here, and whether the word `for` stands just before. -/
structure State where
  scopes : List Scope := []
  pending : Scope := .block
  atStart : Bool := true
  afterFor : Bool := false

/-- The declarations among some sites, in order. -/
def declarations (d : Dialect) (st : State) (ss : List Site) : List Declaration :=
  match ss with
  | [] => []
  | s :: rest =>
    if s.isDirective then
      declarations d { st with atStart := true, afterFor := s.text = ['f', 'o', 'r'] } rest
    else if s.isMark '{' then declarations d { scopes := st.pending :: st.scopes } rest
    else if s.isMark '}' then
      declarations d { scopes := st.scopes.tail, pending := st.pending } rest
    else if s.isMark ';' then declarations d { scopes := st.scopes } rest
    else
      match _h : if st.atStart then statement? d st.scopes (s :: rest) else none with
      | some found =>
        found.declarations ++
          declarations d
            { scopes := st.scopes, pending := found.opens.getD st.pending, atStart := false }
            found.rest
      | none =>
        declarations d
          { st with
            atStart := s.isMark '(' && st.afterFor
            afterFor := s.text = ['f', 'o', 'r'] }
          rest
termination_by ss.length
decreasing_by
  · simp
  · simp
  · simp
  · simp
  · have hs : statement? d st.scopes (s :: rest) = some found := by
      split at _h
      · exact _h
      · simp at _h
    exact length_statement? hs
  · simp

end Scan

/-- The declarations of a source, in the order of their names. -/
def scanDeclarations (d : Dialect) (tokens : List Token) : List Declaration :=
  Scan.declarations d {} (Scan.sites tokens)

end ShaderStyle
