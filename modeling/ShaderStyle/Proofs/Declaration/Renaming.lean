import ShaderStyle.Declaration.Scan

/-!
# Renaming sites

The scan for declarations looks at the kinds and texts of sites and only hands their places on. So if
the places are renamed, the same declarations are found with their places renamed
(`declarations_map`). The name of a directive does not matter either, nor does its text, as long as it
is not one of the words that the scan knows.
-/

namespace ShaderStyle

/-- The kind without the name of a directive. -/
def TokenKind.unnamed : TokenKind → TokenKind
  | .directive _ => .directive []
  | k => k

/-- A binding with its places renamed. -/
def Binding.renamed (φ : Nat → Nat) (b : Binding) : Binding :=
  { b with nameIndex := φ b.nameIndex, startIndex := φ b.startIndex }

/-- A declaration with its places renamed. -/
def Declaration.renamed (φ : Nat → Nat) (d : Declaration) : Declaration :=
  { d with toBinding := d.toBinding.renamed φ, parameters := d.parameters.map (Binding.renamed φ) }

namespace Scan

/-- A change of sites that renames their places by `φ` and leaves alone what the scan looks at. -/
structure Renames (d : Dialect) (φ : Nat → Nat) (f : Site → Site) : Prop where
  index : ∀ s, (f s).index = φ s.index
  kind : ∀ s, (f s).kind.unnamed = s.kind.unnamed
  text : ∀ s, s.isDirective = false → (f s).text = s.text
  layoutWord : ∀ s, isLayoutWord (f s) = isLayoutWord s
  groupWord : ∀ s, d.isGroupWord (f s).text = d.isGroupWord s.text
  forWord : ∀ s, (f s).text = ['f', 'o', 'r'] ↔ s.text = ['f', 'o', 'r']

variable {d : Dialect} {φ : Nat → Nat} {f : Site → Site}

namespace Renames

/-- What is read off the kind of a site stays, if it is the same for all directives. -/
theorem of_kind (hf : Renames d φ f) {α : Type} (g : TokenKind → α) (s : Site)
    (hg : ∀ name, g (.directive name) = g (.directive [])) : g (f s).kind = g s.kind := by
  have hunnamed (k : TokenKind) : g k = g k.unnamed := by
    cases k with
    | directive name => exact hg name
    | _ => rfl
  rw [hunnamed, hf.kind, ← hunnamed]

theorem isDirective (hf : Renames d φ f) (s : Site) : (f s).isDirective = s.isDirective :=
  hf.of_kind (fun k => Site.isDirective ⟨⟨k, []⟩, 0⟩) s fun _ => rfl

theorem text_of_kind (hf : Renames d φ f) {s : Site} {k : TokenKind} (hk : s.kind = k)
    (hnot : ∀ name, k ≠ .directive name) : (f s).text = s.text := by
  apply hf.text
  unfold Site.isDirective
  split
  · rename_i name hname
    exact absurd (hk.symm.trans hname) (hnot name)
  · rfl

theorem isMark (hf : Renames d φ f) (s : Site) (c : Char) : (f s).isMark c = s.isMark c := by
  have hkind := hf.of_kind (fun k => decide (k = .punctuation)) s (by simp)
  by_cases hk : s.kind = .punctuation
  · simp [Lexeme.isMark, hkind, hf.text_of_kind hk (by simp)]
  · simp [Lexeme.isMark, hkind, hk]

theorem isOperator (hf : Renames d φ f) (s : Site) (op : Text) :
    (f s).isOperator op = s.isOperator op := by
  have hkind := hf.of_kind (fun k => decide (k = .operator)) s (by simp)
  by_cases hk : s.kind = .operator
  · simp [Lexeme.isOperator, hkind, hf.text_of_kind hk (by simp)]
  · simp [Lexeme.isOperator, hkind, hk]

theorem isIdentifier (hf : Renames d φ f) (s : Site) : (f s).isIdentifier = s.isIdentifier :=
  hf.of_kind (fun k => decide (k = .word .identifier)) s (by simp)

theorem isType (hf : Renames d φ f) (s : Site) : (f s).isType = s.isType :=
  hf.of_kind (fun k => Site.isType ⟨⟨k, []⟩, 0⟩) s fun _ => rfl

theorem typeCategory (hf : Renames d φ f) (s : Site) : (f s).typeCategory = s.typeCategory :=
  hf.of_kind (fun k => Site.typeCategory ⟨⟨k, []⟩, 0⟩) s fun _ => rfl

theorem isAssignment (hf : Renames d φ f) (s : Site) : (f s).isAssignment = s.isAssignment :=
  hf.isOperator s _

theorem endsStatement (hf : Renames d φ f) (s : Site) : (f s).endsStatement = s.endsStatement := by
  simp only [Site.endsStatement, hf.isMark]

theorem isOpening (hf : Renames d φ f) (s : Site) : (f s).isOpening = s.isOpening := by
  simp only [Site.isOpening, hf.isMark]

theorem isClosing (hf : Renames d φ f) (s : Site) : (f s).isClosing = s.isClosing := by
  simp only [Site.isClosing, hf.isMark]

theorem followsVariable (hf : Renames d φ f) (s : Site) :
    (f s).followsVariable = s.followsVariable := by
  simp only [Site.followsVariable, hf.isMark, hf.isAssignment]

theorem isQualifier (hf : Renames d φ f) (s : Site) :
    ((f s).kind = .word .keyword && d.isQualifier (f s).text) =
      (s.kind = .word .keyword && d.isQualifier s.text) := by
  have hkind := hf.of_kind (fun k => decide (k = .word .keyword)) s (by simp)
  by_cases hk : s.kind = .word .keyword
  · rw [hkind, hf.text_of_kind hk (by simp)]
  · simp [hkind, hk]

theorem text_of_isIdentifier (hf : Renames d φ f) {s : Site} (h : s.isIdentifier = true) :
    (f s).text = s.text :=
  hf.text_of_kind (of_decide_eq_true h) (by simp)

theorem any_isMark (hf : Renames d φ f) (ss : List Site) (c : Char) :
    (ss.map f).head?.any (·.isMark c) = ss.head?.any (·.isMark c) := by
  cases ss with
  | nil => rfl
  | cons s rest => simp [hf.isMark]

theorem text_of_closesTemplate (hf : Renames d φ f) {s : Site}
    (h : (s.isOperator ['>'] || s.isOperator ['>', '>']) = true) : (f s).text = s.text := by
  rcases Bool.or_eq_true_iff.1 h with h | h
  · exact hf.text_of_kind (of_decide_eq_true (Bool.and_eq_true_iff.1 h).1) (by simp)
  · exact hf.text_of_kind (of_decide_eq_true (Bool.and_eq_true_iff.1 h).1) (by simp)

theorem text_of_isType (hf : Renames d φ f) {s : Site} (h : s.isType = true) :
    (f s).text = s.text := by
  unfold Site.isType at h
  split at h
  · exact hf.text_of_kind (by assumption) (by simp)
  · exact hf.text_of_kind (by assumption) (by simp)
  · simp at h

end Renames

/-! ## Brackets and template arguments -/

theorem splitClosing_map (hf : Renames d φ f) (opening closing : Char) (depth : Nat)
    (ss : List Site) :
    splitClosing opening closing depth (ss.map f) =
      (splitClosing opening closing depth ss).map fun (a, b) => (a.map f, b.map f) := by
  induction ss generalizing depth with
  | nil => rfl
  | cons s rest ih =>
    simp only [List.map_cons, splitClosing, hf.isMark]
    split
    · rw [ih, Option.map_map, Option.map_map]
      rfl
    · split
      · cases depth with
        | zero => rfl
        | succ n =>
          simp only [ih, Option.map_map]
          rfl
      · rw [ih, Option.map_map, Option.map_map]
        rfl

theorem afterTemplate_map (hf : Renames d φ f) (depth : Nat) (ss : List Site) :
    afterTemplate depth (ss.map f) = (afterTemplate depth ss).map (List.map f) := by
  induction ss generalizing depth with
  | nil => rfl
  | cons s rest ih =>
    simp only [List.map_cons, afterTemplate, hf.isOperator, hf.endsStatement]
    split
    · exact ih _
    · split
      · rename_i hop
        rw [hf.text_of_closesTemplate hop]
        split
        · rfl
        · exact ih _
      · split
        · rfl
        · exact ih _

theorem bodyAhead_map (hf : Renames d φ f) (ss : List Site) : bodyAhead (ss.map f) = bodyAhead ss := by
  induction ss with
  | nil => rfl
  | cons s rest ih => simp only [List.map_cons, bodyAhead, hf.isMark, ih]

theorem isGroupHeader_map (hf : Renames d φ f) (ss : List Site) :
    isGroupHeader (ss.map f) = isGroupHeader ss := by
  match ss with
  | [] => rfl
  | [_] => rfl
  | name :: next :: more =>
    simp only [List.map_cons, isGroupHeader, hf.isIdentifier, hf.isMark, bodyAhead_map hf]

/-! ## The start of a statement -/

/-- The start of a statement with its sites renamed. -/
def Head.renamed (f : Site → Site) : Head → Head
  | .group rest => .group (rest.map f)
  | .plain rest => .plain (rest.map f)

theorem head_cons (d : Dialect) (s : Site) (rest : List Site) :
    head d (s :: rest) =
      if s.isMark '[' then (splitClosing '[' ']' 0 rest).bind fun x => head d x.2
      else if isLayoutWord s && rest.head?.any (·.isMark '(') then
        (splitClosing '(' ')' 0 rest.tail).bind fun x => head d x.2
      else if d.isGroupWord s.text && isGroupHeader rest then some (.group rest)
      else if s.kind = .word .keyword && d.isQualifier s.text then head d rest
      else some (.plain (s :: rest)) := by
  rw [head]
  split
  · split <;> simp [*]
  · split
    · split <;> simp [*]
    · rfl

theorem head_map (hf : Renames d φ f) (ss : List Site) :
    head d (ss.map f) = (head d ss).map (Head.renamed f) := by
  fun_induction head d ss with
  | case1 => rw [List.map_nil, head]; rfl
  | case2 s rest hmark hsplit =>
    rw [List.map_cons, head_cons, hf.isMark, if_pos hmark, splitClosing_map hf, hsplit]
    rfl
  | case3 s rest hmark inside after hsplit ih =>
    rw [List.map_cons, head_cons, hf.isMark, if_pos hmark, splitClosing_map hf, hsplit]
    exact ih
  | case4 s rest hmark hlayout hsplit =>
    rw [List.map_cons, head_cons, hf.isMark, if_neg hmark, hf.layoutWord, hf.any_isMark, if_pos hlayout,
      ← List.map_tail, splitClosing_map hf, hsplit]
    rfl
  | case5 s rest hmark hlayout inside after hsplit ih =>
    rw [List.map_cons, head_cons, hf.isMark, if_neg hmark, hf.layoutWord, hf.any_isMark, if_pos hlayout,
      ← List.map_tail, splitClosing_map hf, hsplit]
    exact ih
  | case6 s rest hmark hlayout hgroup =>
    rw [List.map_cons, head_cons, hf.isMark, if_neg hmark, hf.layoutWord, hf.any_isMark, if_neg hlayout,
      hf.groupWord, isGroupHeader_map hf, if_pos hgroup]
    rfl
  | case7 s rest hmark hlayout hgroup hqualifier ih =>
    rw [List.map_cons, head_cons, hf.isMark, if_neg hmark, hf.layoutWord, hf.any_isMark, if_neg hlayout,
      hf.groupWord, isGroupHeader_map hf, if_neg hgroup, hf.isQualifier, if_pos hqualifier]
    exact ih
  | case8 s rest hmark hlayout hgroup hqualifier =>
    rw [List.map_cons, head_cons, hf.isMark, if_neg hmark, hf.layoutWord, hf.any_isMark, if_neg hlayout,
      hf.groupWord, isGroupHeader_map hf, if_neg hgroup, hf.isQualifier, if_neg hqualifier]
    rfl

/-- Where a group is found, its header stands. -/
theorem isGroupHeader_of_head {ss rest : List Site} (h : head d ss = some (.group rest)) :
    isGroupHeader rest = true := by
  fun_induction head d ss with
  | case1 => simp at h
  | case2 => simp at h
  | case3 s rest _ inside after _ ih => exact ih h
  | case4 => simp at h
  | case5 s rest _ _ inside after _ ih => exact ih h
  | case6 s rest _ _ hgroup =>
    simp only [Option.some.injEq, Head.group.injEq] at h
    subst h
    exact (Bool.and_eq_true_iff.1 hgroup).2
  | case7 s rest _ _ _ _ ih => exact ih h
  | case8 => simp at h

/-! ## Parameters -/

theorem segments_map (hf : Renames d φ f) (level : Int) (ss : List Site) :
    segments level (ss.map f) = (segments level ss).map (List.map f) := by
  have hstep (s : Site) : levelStep (f s) = levelStep s := by
    simp only [levelStep, hf.isOpening, hf.isClosing]
  induction ss generalizing level with
  | nil => rfl
  | cons s rest ih =>
    simp only [List.map_cons, segments, hf.isMark, hstep]
    split
    · rw [ih, List.map_cons]
      rfl
    · rw [ih]
      cases segments (level + levelStep s) rest <;> rfl

theorem typeBefore_map (hf : Renames d φ f) (level : Int) (ss : List Site) :
    typeBefore level (ss.map f) = (typeBefore level ss).map f := by
  induction ss generalizing level with
  | nil => rfl
  | cons s rest ih =>
    simp only [List.map_cons, typeBefore, hf.isOperator, hf.isType]
    split
    · rename_i hop
      rw [hf.text_of_closesTemplate hop]
      exact ih _
    · split
      · exact ih _
      · split
        · rfl
        · exact ih _

theorem isType_of_typeBefore {level : Int} {ss : List Site} {s : Site}
    (h : typeBefore level ss = some s) : s.isType = true := by
  induction ss generalizing level with
  | nil => simp [typeBefore] at h
  | cons s rest ih =>
    simp only [typeBefore] at h
    split at h
    · exact ih h
    · split at h
      · exact ih h
      · split at h
        · rename_i htype
          simp only [Option.some.injEq] at h
          subst h
          exact (Bool.and_eq_true_iff.1 htype).2
        · exact ih h

theorem endsParameterHead_map (hf : Renames d φ f) (s : Site) :
    endsParameterHead (f s) = endsParameterHead s := by
  simp only [endsParameterHead, hf.isMark, hf.isAssignment]

theorem parameter?_map (hf : Renames d φ f) (segment : List Site) :
    parameter? (segment.map f) = (parameter? segment).map (Binding.renamed φ) := by
  have hhead : (fun s => !endsParameterHead s) ∘ f = fun s => !endsParameterHead s := by
    funext s
    simp [endsParameterHead_map hf]
  have htake : (segment.map f).takeWhile (fun s => !endsParameterHead s) =
      (segment.takeWhile fun s => !endsParameterHead s).map f := by
    rw [List.takeWhile_map, hhead]
  have hdrop : (segment.map f).dropWhile (fun s => !endsParameterHead s) =
      (segment.dropWhile fun s => !endsParameterHead s).map f := by
    rw [List.dropWhile_map, hhead]
  have harray : (segment.map f |>.dropWhile fun s => !endsParameterHead s).head?.any (·.isMark '[') =
      (segment.dropWhile fun s => !endsParameterHead s).head?.any (·.isMark '[') := by
    rw [List.dropWhile_map, hhead]
    exact hf.any_isMark _ '['
  unfold parameter?
  rw [htake, ← List.map_reverse]
  match (segment.takeWhile fun s => !endsParameterHead s).reverse with
  | [] => rfl
  | [_] => rfl
  | name :: first :: before =>
    simp only [List.map_cons, hf.isIdentifier, harray]
    split
    · rename_i hname
      have htype := typeBefore_map hf 0 (first :: before)
      have hlast : ((f first :: before.map f).getLast (by simp)).index =
          φ ((first :: before).getLast (by simp)).index := by
        rw [← hf.index, ← List.getLast_map (f := f) (by simp)]
        rfl
      rw [List.map_cons] at htype
      simp only [htype, hlast, hf.index, hf.text_of_isIdentifier hname, Option.map_some,
        Binding.renamed]
      cases hbefore : typeBefore 0 (first :: before) with
      | none => rfl
      | some type =>
        simp only [Option.map_some, Option.getD_some, hf.typeCategory,
          hf.text_of_isType (isType_of_typeBefore hbefore)]
    · rfl

/-! ## Statements -/

/-- What a statement declares, with the sites renamed. -/
def Found.renamed (φ : Nat → Nat) (f : Site → Site) (found : Found) : Found :=
  ⟨found.declarations.map (Declaration.renamed φ), found.opens, found.rest.map f⟩

theorem group?_map (hf : Renames d φ f) (depth start : Nat) {ss : List Site}
    (hheader : isGroupHeader ss = true) :
    group? depth (φ start) (ss.map f) = (group? depth start ss).map (Found.renamed φ f) := by
  match ss with
  | [] => rfl
  | [name] => simp [isGroupHeader] at hheader
  | name :: next :: more =>
    have hname : name.isIdentifier = true := (Bool.and_eq_true_iff.1 hheader).1
    have hmark : (fun s : Site => !s.isMark '{') ∘ f = fun s => !s.isMark '{' := by
      funext s
      simp [hf.isMark]
    rw [List.map_cons, group?, group?, List.dropWhile_map, hmark]
    simp [Found.renamed, Declaration.renamed, Binding.renamed, hf.index,
      hf.text_of_isIdentifier hname]

theorem afterSemantic_map (hf : Renames d φ f) (ss : List Site) :
    afterSemantic (ss.map f) = (afterSemantic ss).map f := by
  unfold afterSemantic
  rw [hf.any_isMark]
  split
  · rw [List.map_drop]
  · rfl

theorem filterMap_parameter?_map (hf : Renames d φ f) (segments : List (List Site)) :
    (segments.map (List.map f)).filterMap parameter? =
      (segments.filterMap parameter?).map (Binding.renamed φ) := by
  rw [List.filterMap_map, List.map_filterMap]
  congr 1
  funext segment
  exact parameter?_map hf segment

theorem function?_map (hf : Renames d φ f) {type name : Site} (htype : type.isType = true)
    (hname : name.isIdentifier = true) (start : Nat) (ss : List Site) :
    function? (f type) (f name) (φ start) (ss.map f) =
      (function? type name start ss).map (Found.renamed φ f) := by
  unfold function?
  rw [splitClosing_map hf]
  cases splitClosing '(' ')' 0 ss with
  | none => rfl
  | some x =>
    obtain ⟨inside, after⟩ := x
    simp only [Option.map_some, segments_map hf, filterMap_parameter?_map hf, afterSemantic_map hf,
      hf.any_isMark, hf.index, hf.text_of_isType htype, hf.text_of_isIdentifier hname, hf.typeCategory]
    split
    · simp [Found.renamed, Declaration.renamed, Binding.renamed]
    · split
      · simp [Found.renamed, Declaration.renamed, Binding.renamed]
      · rfl

theorem declarators_map (hf : Renames d φ f) (level : Nat) (ss : List Site) :
    declarators level (ss.map f) =
      ((declarators level ss).1.map fun x => (f x.1, x.2), (declarators level ss).2.map f) := by
  induction ss generalizing level with
  | nil => rfl
  | cons s rest ih =>
    simp only [List.map_cons, declarators, hf.isDirective, hf.endsStatement, hf.isClosing, hf.isOpening,
      hf.isMark, ih]
    split
    · rfl
    · split
      · rfl
      · split
        · rfl
        · split
          · rcases rest with _ | ⟨name, _ | ⟨next, more⟩⟩
            · rfl
            · rfl
            · simp only [List.map_cons, hf.isIdentifier, hf.followsVariable, hf.isMark]
              split <;> rfl
          · rfl

/-- The names that a list of declarators gives are identifiers. -/
theorem isIdentifier_of_declarators {level : Nat} {ss : List Site} :
    ∀ x ∈ (declarators level ss).1, x.1.isIdentifier = true := by
  fun_induction declarators level ss <;> simp_all

theorem variableList_map (hf : Renames d φ f) (kind : DeclarationKind) (depth : Nat)
    {type name : Site} (htype : type.isType = true) (hname : name.isIdentifier = true) (start : Nat)
    (ss : List Site) :
    variableList kind depth (f type) (f name) (φ start) (ss.map f) =
      (variableList kind depth type name start ss).renamed φ f := by
  unfold variableList
  rw [declarators_map hf, hf.any_isMark]
  simp only [Found.renamed, List.map_cons, List.map_map, hf.index, hf.text_of_isType htype,
    hf.typeCategory, hf.text_of_isIdentifier hname]
  congr 2
  apply List.map_congr_left
  intro x hx
  simp [Declaration.renamed, Binding.renamed, hf.index,
    hf.text_of_isIdentifier (isIdentifier_of_declarators x hx)]

theorem afterType_map (hf : Renames d φ f) (ss : List Site) :
    afterType (ss.map f) = (afterType ss).map (List.map f) := by
  have hany : (ss.map f).head?.any (·.isOperator ['<']) = ss.head?.any (·.isOperator ['<']) := by
    cases ss with
    | nil => rfl
    | cons s rest => simp [hf.isOperator]
  unfold afterType
  rw [hany]
  split
  · rw [← List.map_tail, afterTemplate_map hf]
  · rfl

theorem typed?_map (hf : Renames d φ f) (scopes : List Scope) (start : Nat) (ss : List Site) :
    typed? scopes (φ start) (ss.map f) = (typed? scopes start ss).map (Found.renamed φ f) := by
  cases ss with
  | nil => rfl
  | cons type rest =>
    simp only [List.map_cons, typed?, hf.isType]
    split
    · rename_i htype
      rw [afterType_map hf]
      rcases afterType rest with _ | _ | ⟨name, _ | ⟨next, more⟩⟩
      · rfl
      · rfl
      · rfl
      · simp only [Option.map_some, List.map_cons, hf.isIdentifier, hf.isMark, hf.followsVariable]
        split
        · rename_i hname
          split
          · exact function?_map hf htype hname start more
          · split
            · exact congrArg some (variableList_map hf _ _ htype hname start (next :: more))
            · rfl
        · rfl
    · rfl

theorem statement?_map (hf : Renames d φ f) (scopes : List Scope) (ss : List Site) :
    statement? d scopes (ss.map f) = (statement? d scopes ss).map (Found.renamed φ f) := by
  cases ss with
  | nil => rfl
  | cons first more =>
    have hhead := head_map hf (first :: more)
    rw [List.map_cons] at hhead ⊢
    simp only [statement?, hhead]
    cases hfound : head d (first :: more) with
    | none => rfl
    | some found =>
      cases found with
      | group rest =>
        simp only [Option.map_some, Head.renamed, hf.index]
        exact group?_map hf _ _ (isGroupHeader_of_head hfound)
      | plain rest =>
        simp only [Option.map_some, Head.renamed, hf.index]
        exact typed?_map hf _ _ _

/-! ## All statements -/

theorem declarations_cons (d : Dialect) (st : State) (s : Site) (rest : List Site) :
    declarations d st (s :: rest) =
      if s.isDirective then
        declarations d { st with atStart := true, afterFor := s.text = ['f', 'o', 'r'] } rest
      else if s.isMark '{' then declarations d { scopes := st.pending :: st.scopes } rest
      else if s.isMark '}' then
        declarations d { scopes := st.scopes.tail, pending := st.pending } rest
      else if s.isMark ';' then declarations d { scopes := st.scopes } rest
      else
        (if st.atStart then statement? d st.scopes (s :: rest) else none).elim
          (declarations d
            { st with
              atStart := s.isMark '(' && st.afterFor
              afterFor := s.text = ['f', 'o', 'r'] }
            rest)
          fun found => found.declarations ++
            declarations d
              { scopes := st.scopes, pending := found.opens.getD st.pending, atStart := false }
              found.rest := by
  rw [declarations]
  split
  · rfl
  split
  · rfl
  split
  · rfl
  split
  · rfl
  split
  · rename_i found hfound
    rw [hfound]
    rfl
  · rename_i hnone
    rw [hnone]
    rfl

/-- With the sites renamed, the same declarations are found, renamed. -/
theorem declarations_map (hf : Renames d φ f) (st : State) (ss : List Site) :
    declarations d st (ss.map f) = (declarations d st ss).map (Declaration.renamed φ) := by
  induction hsize : ss.length using Nat.strongRecOn generalizing st ss with
  | ind size ih =>
    subst hsize
    cases ss with
    | nil => simp [declarations]
    | cons s rest =>
      have hrest (st : State) := ih rest.length (by simp) st rest rfl
      have hstatement : (if st.atStart then statement? d st.scopes ((s :: rest).map f) else none) =
          (if st.atStart then statement? d st.scopes (s :: rest) else none).map
            (Found.renamed φ f) := by
        split
        · exact statement?_map hf st.scopes (s :: rest)
        · rfl
      rw [List.map_cons] at hstatement ⊢
      simp only [declarations_cons, hf.isDirective, hf.isMark, hrest, hstatement, hf.forWord]
      split
      · rfl
      split
      · rfl
      split
      · rfl
      split
      · rfl
      cases hfound : if st.atStart then statement? d st.scopes (s :: rest) else none with
      | none => rfl
      | some found =>
        -- the scan goes on behind the statement, with fewer sites
        have hshorter : found.rest.length < (s :: rest).length := by
          split at hfound
          · exact length_statement? hfound
          · simp at hfound
        simp only [Option.map_some, Option.elim_some, Found.renamed, List.map_append]
        rw [ih _ hshorter _ _ rfl]

/-! ## Places and directives -/

/-- A site with its place renamed. -/
def moved (φ : Nat → Nat) (s : Site) : Site :=
  { s with index := φ s.index }

theorem renames_moved (d : Dialect) (φ : Nat → Nat) : Renames d φ (moved φ) where
  index _ := rfl
  kind _ := rfl
  text _ _ := rfl
  layoutWord _ := rfl
  groupWord _ := rfl
  forWord _ := Iff.rfl

/-- The places in a declaration and in its parameters are those of sites. -/
theorem place_of_mem_declarations {st : State} {ss : List Site} {x : Declaration}
    (h : x ∈ declarations d st ss) : ∀ b ∈ x.toBinding :: x.parameters,
      b.nameIndex ∈ ss.map Site.index ∧ b.startIndex ∈ ss.map Site.index := by
  -- renaming all other places changes no site, hence no declaration
  let φ : Nat → Nat := fun i => if i ∈ ss.map Site.index then i else i + 1
  have hsites : ss.map (moved φ) = ss := by
    rw [List.map_eq_iff]
    intro i
    cases hs : ss[i]? with
    | none => rfl
    | some s =>
      have hmem : s.index ∈ ss.map Site.index := List.mem_map_of_mem (List.mem_of_getElem? hs)
      have hs' : moved φ s = s := by simp only [moved, φ, if_pos hmem]
      simp [hs']
  have hmap := declarations_map (renames_moved d φ) st ss
  rw [hsites] at hmap
  have hfixed : x.renamed φ = x := by
    have hid : (declarations d st ss).map id = (declarations d st ss).map (Declaration.renamed φ) := by
      rw [List.map_id, ← hmap]
    exact (List.map_inj_left.1 hid x h).symm
  have hmem (i : Nat) (hi : φ i = i) : i ∈ ss.map Site.index := by
    by_cases hmem : i ∈ ss.map Site.index
    · exact hmem
    · simp only [φ, if_neg hmem] at hi
      omega
  have hplaces {b : Binding} (hb : b.renamed φ = b) :
      b.nameIndex ∈ ss.map Site.index ∧ b.startIndex ∈ ss.map Site.index :=
    ⟨hmem _ (congrArg Binding.nameIndex hb), hmem _ (congrArg Binding.startIndex hb)⟩
  intro b hb
  rcases List.mem_cons.1 hb with rfl | hb
  · exact hplaces (congrArg Declaration.toBinding hfixed)
  · have hall : x.parameters.map (Binding.renamed φ) = x.parameters.map id := by
      rw [List.map_id]
      exact congrArg Declaration.parameters hfixed
    exact hplaces (List.map_inj_left.1 hall b hb)

theorem index_of_mem_declarations {st : State} {ss : List Site} {x : Declaration}
    (h : x ∈ declarations d st ss) :
    x.nameIndex ∈ ss.map Site.index ∧ x.startIndex ∈ ss.map Site.index :=
  place_of_mem_declarations h _ List.mem_cons_self

/-- What leaves the places alone changes no declaration. -/
theorem declarations_map_id (hf : Renames d id f) (st : State) (ss : List Site) :
    declarations d st (ss.map f) = declarations d st ss := by
  have hid : Declaration.renamed id = id := by
    funext x
    rw [Declaration.renamed, show Binding.renamed id = id from rfl, List.map_id]
    rfl
  rw [declarations_map hf, hid, List.map_id]

/-- A site without the name of its directive. -/
def unnamed (s : Site) : Site :=
  { s with kind := s.kind.unnamed }

theorem renames_unnamed (d : Dialect) : Renames d id unnamed where
  index _ := rfl
  kind s := by
    unfold unnamed
    cases s.kind <;> rfl
  text _ _ := rfl
  layoutWord _ := rfl
  groupWord _ := rfl
  forWord _ := Iff.rfl

/-- A directive reduced to its hash sign. -/
def bared (s : Site) : Site :=
  if s.isDirective && s.text.head? = some '#' then { s with text := ['#'] } else s

theorem isGroupWord_hash (d : Dialect) (x : Text) : d.isGroupWord ('#' :: x) = false := by
  have hall : (d.groupWords.all fun w => w.toList.head? ≠ some '#') = true := by
    cases d <;> decide +kernel
  rw [← Bool.not_eq_true, Dialect.isGroupWord, List.contains_iff_mem]
  intro hmem
  have hhead := List.all_eq_true.1 hall _ hmem
  rw [String.toList_ofList] at hhead
  simp at hhead

theorem bared_eq {s : Site} (h : s.isDirective = true) {x : Text} (hx : s.text = '#' :: x) :
    bared s = { s with text := ['#'] } := by
  simp [bared, h, hx]

theorem bared_eq_self {s : Site} (h : ¬(s.isDirective = true ∧ ∃ x, s.text = '#' :: x)) :
    bared s = s := by
  unfold bared
  rw [if_neg]
  simp only [Bool.and_eq_true, decide_eq_true_eq, List.head?_eq_some_iff]
  exact h

theorem renames_bared (d : Dialect) : Renames d id bared := by
  have hcases (s : Site) : bared s = s ∨
      (s.isDirective = true ∧ ∃ x, s.text = '#' :: x) ∧ bared s = { s with text := ['#'] } := by
    by_cases h : s.isDirective = true ∧ ∃ x, s.text = '#' :: x
    · rcases h with ⟨hs, x, hx⟩
      exact .inr ⟨⟨hs, x, hx⟩, bared_eq hs hx⟩
    · exact .inl (bared_eq_self h)
  constructor
  · intro s
    rcases hcases s with h | ⟨-, h⟩ <;> rw [h] <;> rfl
  · intro s
    rcases hcases s with h | ⟨-, h⟩ <;> rw [h]
  · intro s hs
    rcases hcases s with h | ⟨⟨hs', -⟩, -⟩
    · rw [h]
    · simp [hs] at hs'
  · intro s
    rcases hcases s with h | ⟨⟨-, x, hx⟩, h⟩
    · rw [h]
    · simp [h, isLayoutWord, hx]
  · intro s
    rcases hcases s with h | ⟨⟨-, x, hx⟩, h⟩
    · rw [h]
    · rw [h, hx, isGroupWord_hash, isGroupWord_hash]
  · intro s
    rcases hcases s with h | ⟨⟨-, x, hx⟩, h⟩
    · rw [h]
    · simp [h, hx]

/-- The declarations do not depend on the texts of directives. -/
theorem declarations_bared (d : Dialect) (st : State) (ss : List Site) :
    declarations d st (ss.map bared) = declarations d st ss :=
  declarations_map_id (renames_bared d) st ss

end Scan

end ShaderStyle
