import ShaderStyle.Proofs.Declaration.Grammar
import ShaderStyle.Proofs.Token.Reading

/-!
# The declarators of a statement

A statement that declares variables is written as qualifiers, a type, template arguments perhaps and
declarators with commas between them. The scan reads it up to the first brace outside brackets. What
stands from there on is scanned like a block.

`scanDeclarations_variables_iff`: of a source that is one such statement, the scan finds a variable for
every declarator, in order, and nothing else exactly if only the last declarator has a brace outside
brackets, and nothing is declared from that brace on. The latter holds if no name stands right behind
a word or template arguments there.
-/

namespace ShaderStyle.Scan

/-! ## Written declarators -/

/-- A declarator as it is written. -/
structure Declarator where
  name : Site
  suffix : List Site
  name_isIdentifier : name.isIdentifier = true := by decide
  suffix_isSuffix : isSuffix suffix = true := by decide
  suffix_inside : (suffix.all fun s => !s.isMark ';' && !s.isDirective) = true := by decide

namespace Declarator

variable (x : Declarator)

/-- The sites of a declarator. -/
def written : List Site :=
  x.name :: x.suffix

/-- The name, and whether it is that of an array. -/
def entry : Site × Bool :=
  (x.name, x.suffix.head?.any (·.isMark '['))

/-- The sites of a declarator from its first brace outside brackets on. -/
def fromBrace : List Site :=
  fromOuter (·.isMark '{') 0 x.suffix

end Declarator

/-! ## Reading declarators -/

/-- A site at which the list of declarators neither ends nor goes on is passed over. -/
theorem declarators_pass {level : Nat} {s : Site} (hdirective : s.isDirective = false)
    (hends : level = 0 → s.endsStatement = false ∧ s.isClosing = false)
    (hcomma : ¬(level = 0 && s.isMark ',') = true) (rest : List Site) :
    declarators level (s :: rest) = declarators (levelAfter level s) rest := by
  have hgoes : ¬(s.isDirective || (level = 0 && (s.endsStatement || s.isClosing))) = true := by
    intro h
    simp only [hdirective, Bool.false_or, Bool.and_eq_true, decide_eq_true_eq] at h
    simp [hends h.1] at h
  have hcomma' : ¬(s.isMark ',' && level = 0) = true := by
    simpa [and_comm] using hcomma
  rw [declarators.eq_def]
  simp only [if_neg hgoes, if_neg hcomma', levelAfter]
  split
  · rfl
  · split
    · rfl
    · rfl

theorem declarators_word {s : Site} (h : s.isWord = true) (level : Nat) (rest : List Site) :
    declarators level (s :: rest) = declarators level rest := by
  rw [declarators_pass (Site.isDirective_of_isWord h), levelAfter_of_isWord h]
  · simp [Site.endsStatement, Site.isClosing, Site.isMark_of_isWord h]
  · simp [Site.isMark_of_isWord h]

/-- The list of declarators goes on behind sites that balance, have no comma outside brackets, no
semicolon and no directive, unless there is a brace outside brackets: there it ends. -/
theorem declarators_level_append {stack : List Char} {xs : List Site} (h : closes stack xs = true)
    (hcomma : fromOuter (·.isMark ',') stack.length xs = [])
    (hinside : (xs.all fun s => !s.isMark ';' && !s.isDirective) = true) (rest : List Site) :
    declarators stack.length (xs ++ rest) =
      if fromOuter (·.isMark '{') stack.length xs = [] then declarators 0 rest
      else ([], fromOuter (·.isMark '{') stack.length xs ++ rest) := by
  induction xs generalizing stack with
  | nil =>
    rw [closes, List.isEmpty_iff] at h
    subst h
    rfl
  | cons s xs ih =>
    simp only [List.all_cons, Bool.and_eq_true, Bool.not_eq_true'] at hinside
    rcases hinside with ⟨⟨hsemicolon, hdirective⟩, hinside⟩
    rcases closes_behind h with ⟨stack', hxs, hlevel, hclosing⟩
    by_cases hbrace : (stack.length = 0 && s.isMark '{') = true
    · -- the brace ends the list
      have hfrom : fromOuter (·.isMark '{') stack.length (s :: xs) = s :: xs := by
        rw [fromOuter, if_pos hbrace]
      simp only [Bool.and_eq_true, decide_eq_true_eq] at hbrace
      rw [hfrom, if_neg (by simp), List.cons_append, declarators.eq_def]
      simp [hbrace, Site.endsStatement]
    · have hpass : ¬(stack.length = 0 && s.isMark ',') = true := by
        intro hs
        rw [fromOuter, if_pos hs] at hcomma
        exact List.cons_ne_nil _ _ hcomma
      have hends : stack.length = 0 → s.endsStatement = false ∧ s.isClosing = false := by
        intro hzero
        have hno := hclosing hzero
        simp only [Site.isClosing, Bool.or_eq_false_iff] at hno
        simp only [hzero, decide_true, Bool.true_and, Bool.not_eq_true] at hbrace
        simp [Site.endsStatement, Site.isClosing, hsemicolon, hbrace, hno]
      rw [fromOuter, if_neg hpass, ← hlevel] at hcomma
      rw [List.cons_append, declarators_pass hdirective hends hpass, fromOuter, if_neg hbrace, ← hlevel]
      exact ih hxs hcomma hinside

/-- The sites at which the list of declarators ends. -/
theorem declarators_sublist (level : Nat) (ss : List Site) :
    (declarators level ss).2.Sublist ss := by
  fun_induction declarators level ss <;> simp_all

/-- A comma or a semicolon, which may follow a declarator. -/
def followsDeclarator (ss : List Site) : Bool :=
  ss.head?.any fun s => s.isMark ',' || s.isMark ';'

namespace Declarator

variable (x : Declarator)

/-- Behind a declarator's name stands what makes it a variable. -/
theorem exists_next {rest : List Site} (hrest : followsDeclarator rest = true) :
    ∃ next more, x.suffix ++ rest = next :: more ∧ next.followsVariable = true ∧
      next.isMark '(' = false ∧ next.isMark '[' = x.entry.2 := by
  have hhead := (isSuffix_iff.1 x.suffix_isSuffix).1
  cases hcases : x.suffix with
  | nil =>
    cases rest with
    | nil => simp [followsDeclarator] at hrest
    | cons s more =>
      refine ⟨s, more, rfl, ?_⟩
      simp only [followsDeclarator, List.head?_cons, Option.any_some, Bool.or_eq_true] at hrest
      rcases hrest with hs | hs
      · simp [Site.followsVariable, entry, hcases, hs, Site.isMark_of_isMark hs]
      · simp [Site.followsVariable, entry, hcases, hs, Site.isMark_of_isMark hs]
  | cons s more =>
    simp only [hcases, List.head?_cons, Option.all_some, endsParameterHead, Bool.or_eq_true] at hhead
    refine ⟨s, more ++ rest, rfl, ?_, ?_, by simp [entry, hcases]⟩
    · simp only [Site.followsVariable, Bool.or_eq_true]
      rcases hhead with (hs | hs) | hs
      · exact .inl (.inr hs)
      · exact .inr hs
      · exact .inl (.inl (.inl (.inl hs)))
    · rcases hhead with (hs | hs) | hs
      · exact Site.isMark_of_isMark hs (by decide)
      · exact Site.isMark_of_isMark hs (by decide)
      · exact Site.isMark_of_isOperator hs _

/-- The list of declarators goes on behind the suffix of one without a brace outside brackets. -/
theorem declarators_suffix (rest : List Site) :
    declarators 0 (x.suffix ++ rest) =
      if x.fromBrace = [] then declarators 0 rest else ([], x.fromBrace ++ rest) := by
  rcases isSuffix_iff.1 x.suffix_isSuffix with ⟨-, hcloses, hcomma⟩
  exact declarators_level_append hcloses hcomma x.suffix_inside rest

/-- A declarator behind a comma is found. -/
theorem declarators_comma {comma : Site} (hcomma : comma.isMark ',' = true) {rest : List Site}
    (hrest : followsDeclarator rest = true) :
    declarators 0 (comma :: (x.written ++ rest)) =
      (x.entry :: (declarators 0 (x.suffix ++ rest)).1, (declarators 0 (x.suffix ++ rest)).2) := by
  rcases x.exists_next hrest with ⟨next, more, hnext, hfollows, -, harray⟩
  have hword := declarators_word (Site.isWord_of_isIdentifier x.name_isIdentifier) 0 (x.suffix ++ rest)
  rw [written, List.cons_append, declarators.eq_def]
  simp only [hword]
  rw [hnext]
  simp [Site.isDirective_of_isMark hcomma, Site.endsStatement, Site.isClosing, Site.isOpening,
    Site.isMark_of_isMark hcomma, hcomma, x.name_isIdentifier, hfollows, harray, entry]

end Declarator

/-! ## The list of declarators -/

variable {xs : List Declarator} {ss : List Site} {semicolon : Site}

/-- The first declarator of a list is followed by a comma, or by the semicolon. -/
theorem exists_of_separated {x : Declarator} (h : Separated Declarator.written (x :: xs) ss)
    (hsemicolon : semicolon.isMark ';' = true) :
    ∃ rest, ss = x.name :: ss.tail ∧ ss.tail ++ [semicolon] = x.suffix ++ rest ∧
      followsDeclarator rest = true := by
  cases h with
  | last => exact ⟨[semicolon], rfl, rfl, by simp [followsDeclarator, hsemicolon]⟩
  | @more _ _ _ comma ss hcomma =>
    exact ⟨comma :: (ss ++ [semicolon]), rfl, by simp [Declarator.written],
      by simp [followsDeclarator, hcomma]⟩

theorem declarators_semicolon (h : semicolon.isMark ';' = true) :
    declarators 0 [semicolon] = ([], [semicolon]) := by
  simp [declarators, Site.endsStatement, h]

/-- Where the list of declarators is read further: not behind a brace outside brackets. -/
theorem declarators_more {x y : Declarator} {comma : Site}
    (h : Separated Declarator.written (y :: xs) ss) (hcomma : comma.isMark ',' = true)
    (hsemicolon : semicolon.isMark ';' = true) :
    declarators 0 ((x.written ++ comma :: ss).tail ++ [semicolon]) =
      if x.fromBrace = [] then
        (y.entry :: (declarators 0 (ss.tail ++ [semicolon])).1,
          (declarators 0 (ss.tail ++ [semicolon])).2)
      else ([], x.fromBrace ++ comma :: (ss ++ [semicolon])) := by
  rcases exists_of_separated h hsemicolon with ⟨rest, hss, htail, hrest⟩
  have hsites : (x.written ++ comma :: ss).tail ++ [semicolon] =
      x.suffix ++ comma :: (ss ++ [semicolon]) := by
    simp [Declarator.written]
  have hmore : ss ++ [semicolon] = y.written ++ rest := by
    rw [hss, List.cons_append, htail, Declarator.written, List.cons_append]
  rw [hsites, x.declarators_suffix, hmore, y.declarators_comma hcomma hrest, htail]

/-- All names of a list of declarators are found exactly if only the last declarator has a brace
outside brackets. -/
theorem map_declarators_iff {α : Type} (f : Site × Bool → α)
    (h : Separated Declarator.written xs ss) (hsemicolon : semicolon.isMark ';' = true) :
    (declarators 0 (ss.tail ++ [semicolon])).1.map f = xs.tail.map (fun x => f x.entry) ↔
      ∀ x ∈ xs.dropLast, x.fromBrace = [] := by
  induction h with
  | none => simp [declarators_semicolon hsemicolon]
  | last x =>
    rw [Declarator.written, List.tail_cons, x.declarators_suffix, declarators_semicolon hsemicolon]
    split <;> simp
  | @more x y xs comma ss hcomma hmore ih =>
    rw [declarators_more hmore hcomma hsemicolon]
    split
    · rename_i hbrace
      simp only [List.map_cons, List.tail_cons, List.cons.injEq, true_and] at ih ⊢
      rw [ih]
      simp [hbrace]
    · rename_i hbrace
      simp [hbrace]

/-- Then the list ends at that brace or at the semicolon. -/
theorem declarators_rest (h : Separated Declarator.written xs ss)
    (hsemicolon : semicolon.isMark ';' = true) (hbrace : ∀ x ∈ xs.dropLast, x.fromBrace = []) :
    (declarators 0 (ss.tail ++ [semicolon])).2 =
      (xs.getLast?.elim [] Declarator.fromBrace) ++ [semicolon] := by
  induction h with
  | none => simp [declarators_semicolon hsemicolon]
  | last x =>
    rw [Declarator.written, List.tail_cons, x.declarators_suffix, declarators_semicolon hsemicolon]
    split <;> simp [*]
  | @more x y xs comma ss hcomma hmore ih =>
    rw [declarators_more hmore hcomma hsemicolon, if_pos (hbrace x (by simp)), ih]
    · simp
    · intro z hz
      exact hbrace z (by simp [hz])

/-! ## Where nothing is declared -/

/-- A site right behind which a name is declared: the end of a type, or a word that opens a group. -/
def leadsToName (d : Dialect) (s : Site) : Bool :=
  s.isType || s.isOperator ['>'] || s.isOperator ['>', '>'] || d.isGroupWord s.text

/-- No name stands where it would be declared. -/
def NamesApart (d : Dialect) (ss : List Site) : Prop :=
  ∀ a b, [a, b] <:+: ss → b.isIdentifier = true → leadsToName d a = false

variable {d : Dialect}

theorem NamesApart.of_suffix {ss rest : List Site} (h : NamesApart d ss) (hrest : rest <:+ ss) :
    NamesApart d rest := by
  intro a b hab
  exact h a b (hab.trans hrest.isInfix)

theorem NamesApart.concat {ss : List Site} (h : NamesApart d ss) {s : Site}
    (hs : s.isIdentifier = false) : NamesApart d (ss ++ [s]) := by
  rintro a b ⟨before, after, hab⟩ hb
  rcases List.eq_nil_or_concat after with rfl | ⟨after, c, rfl⟩
  · -- the last site is no name
    have hlast := congrArg List.getLast? hab
    simp only [List.append_nil, List.getLast?_append, List.getLast?_singleton, List.getLast?_cons_cons,
      Option.some_or, Option.some.injEq] at hlast
    rw [hlast, hs] at hb
    exact Bool.noConfusion hb
  · rw [List.concat_eq_append, ← List.append_assoc] at hab
    exact h a b ⟨before, after, (List.append_inj' hab rfl).1⟩ hb

theorem splitClosing_suffix {opening closing : Char} {depth : Nat} {ss inside rest : List Site}
    (h : splitClosing opening closing depth ss = some (inside, rest)) : rest <:+ ss := by
  induction ss generalizing depth inside with
  | nil => simp [splitClosing] at h
  | cons s more ih =>
    have hkept {depth : Nat}
        (h : (splitClosing opening closing depth more).map (fun p => (s :: p.1, p.2)) =
          some (inside, rest)) : rest <:+ s :: more := by
      rcases Option.map_eq_some_iff.1 h with ⟨⟨a, b⟩, hsplit, heq⟩
      simp only [Prod.mk.injEq] at heq
      rw [heq.2] at hsplit
      exact (ih hsplit).trans (List.suffix_cons s more)
    simp only [splitClosing] at h
    split at h
    · exact hkept h
    · split at h
      · cases depth with
        | zero =>
          simp only [Option.some.injEq, Prod.mk.injEq] at h
          rw [← h.2]
          exact List.suffix_cons s more
        | succ n => exact hkept h
      · exact hkept h

/-- Template arguments end with an angle bracket. -/
theorem afterTemplate_suffix {depth : Nat} {ss rest : List Site}
    (h : afterTemplate depth ss = some rest) : ∃ s : Site,
      (s.isOperator ['>'] || s.isOperator ['>', '>']) = true ∧ (s :: rest) <:+ ss := by
  induction ss generalizing depth with
  | nil => simp [afterTemplate] at h
  | cons s more ih =>
    have hlater {depth : Nat} (h : afterTemplate depth more = some rest) : ∃ t : Site,
        (t.isOperator ['>'] || t.isOperator ['>', '>']) = true ∧ (t :: rest) <:+ s :: more := by
      rcases ih h with ⟨t, ht, hsuffix⟩
      exact ⟨t, ht, hsuffix.trans (List.suffix_cons s more)⟩
    simp only [afterTemplate] at h
    split at h
    · exact hlater h
    · split at h
      · rename_i hs
        split at h
        · simp only [Option.some.injEq] at h
          subst h
          exact ⟨s, hs, List.suffix_rfl⟩
        · exact hlater h
      · split at h
        · simp at h
        · exact hlater h

/-- Where names are apart, no group is declared, and they are apart behind the qualifiers. -/
theorem head_of_namesApart {ss : List Site} {found : Head} (h : NamesApart d ss)
    (hfound : head d ss = some found) : ∃ rest, found = .plain rest ∧ NamesApart d rest := by
  fun_induction head d ss with
  | case1 => simp at hfound
  | case2 => simp at hfound
  | case3 s rest _ inside after hsplit ih =>
    exact ih (h.of_suffix ((splitClosing_suffix hsplit).trans (List.suffix_cons s rest))) hfound
  | case4 => simp at hfound
  | case5 s rest _ _ inside after hsplit ih =>
    have hsuffix := (splitClosing_suffix hsplit).trans (List.tail_suffix rest)
    exact ih (h.of_suffix (hsuffix.trans (List.suffix_cons s rest))) hfound
  | case6 s rest _ _ hgroup =>
    rcases Bool.and_eq_true_iff.1 hgroup with ⟨hword, hheader⟩
    -- the name of the group stands behind its word
    rcases rest with _ | ⟨name, _ | ⟨next, more⟩⟩
    · simp [isGroupHeader] at hheader
    · simp [isGroupHeader] at hheader
    · have hname := (Bool.and_eq_true_iff.1 hheader).1
      have hlead := h s name ⟨[], next :: more, rfl⟩ hname
      simp [leadsToName, hword] at hlead
  | case7 s rest _ _ _ _ ih => exact ih (h.of_suffix (List.suffix_cons s rest)) hfound
  | case8 s rest =>
    simp only [Option.some.injEq] at hfound
    exact ⟨s :: rest, hfound.symm, h⟩

theorem typed?_of_namesApart {ss : List Site} (h : NamesApart d ss) (scopes : List Scope)
    (start : Nat) : typed? scopes start ss = none := by
  cases ss with
  | nil => rfl
  | cons type rest =>
    simp only [typed?]
    split
    · rename_i htype
      split
      · rename_i name next more hafter
        have hname : name.isIdentifier = false := by
          rw [← Bool.not_eq_true]
          intro hname
          unfold afterType at hafter
          split at hafter
          · -- the name stands behind the angle bracket that closes the template arguments
            rcases afterTemplate_suffix hafter with ⟨s, hs, hsuffix⟩
            have hinfix : [s, name] <:+: type :: rest := by
              have hbehind := (hsuffix.trans (List.tail_suffix rest)).trans (List.suffix_cons type rest)
              exact List.IsInfix.trans ⟨[], next :: more, rfl⟩ hbehind.isInfix
            have hlead := h s name hinfix hname
            simp_all [leadsToName]
          · simp only [Option.some.injEq] at hafter
            have hlead := h type name ⟨[], next :: more, by simp [hafter]⟩ hname
            simp [leadsToName, htype] at hlead
        simp [hname]
      · rfl
    · rfl

theorem statement?_of_namesApart {ss : List Site} (h : NamesApart d ss) (scopes : List Scope) :
    statement? d scopes ss = none := by
  unfold statement?
  split
  · rfl
  · split
    · rfl
    · rename_i hhead
      rcases head_of_namesApart h hhead with ⟨rest, hplain, -⟩
      exact Head.noConfusion hplain
    · rename_i rest hhead
      rcases head_of_namesApart h hhead with ⟨rest', hplain, hrest⟩
      rw [Head.plain.injEq] at hplain
      rw [hplain]
      exact typed?_of_namesApart hrest scopes _

/-- Where names are apart, nothing is declared. -/
theorem declarations_of_namesApart {ss : List Site} (h : NamesApart d ss) (st : State) :
    declarations d st ss = [] := by
  induction ss generalizing st with
  | nil => rw [declarations]
  | cons s rest ih =>
    have hrest := ih (h.of_suffix (List.suffix_cons s rest))
    rw [declarations_cons, statement?_of_namesApart h]
    simp [hrest]

theorem fromOuter_suffix (p : Site → Bool) (level : Nat) (ss : List Site) :
    fromOuter p level ss <:+ ss := by
  induction ss generalizing level with
  | nil => exact List.suffix_rfl
  | cons s rest ih =>
    rw [fromOuter]
    split
    · exact List.suffix_rfl
    · exact (ih _).trans (List.suffix_cons s rest)

/-! ## Statements -/

/-- A statement that declares variables, as it is written. -/
structure VariableStatement (d : Dialect) where
  qualifiers : List Site
  type : Site
  arguments : List Site
  items : List Declarator
  listed : List Site
  semicolon : Site
  qualifiers_written : Qualifiers d qualifiers
  type_isType : type.isType = true := by decide
  type_opensNoGroup : d.isGroupWord type.text = false := by decide +kernel
  arguments_isTemplate : isTemplate arguments = true := by decide
  items_ne_nil : items ≠ [] := by simp
  listed_separated : Separated Declarator.written items listed
  semicolon_isMark : semicolon.isMark ';' = true := by decide

namespace VariableStatement

variable (v : VariableStatement d)

/-- The sites of a statement. -/
def written : List Site :=
  v.qualifiers ++ v.type :: (v.arguments ++ (v.listed ++ [v.semicolon]))

/-- The first site of a statement. -/
def first : Site :=
  v.qualifiers.headD v.type

/-- The last declarator. -/
def last : Declarator :=
  v.items.getLast v.items_ne_nil

/-- The variable for a name and whether it is that of an array. -/
def declare (entry : Site × Bool) : Declaration :=
  { kind := .variable
    name := entry.1.text
    nameIndex := entry.1.index
    depth := 0
    startIndex := v.first.index
    typeName := v.type.text
    typeCategory := v.type.typeCategory
    isArray := entry.2 }

/-- What a statement declares: a variable for each declarator. -/
def declared : List Declaration :=
  v.items.map fun x => v.declare x.entry

/-- What the scan finds of a statement: variables up to the first brace outside brackets, and what is
declared from there on. -/
theorem declarations_written :
    declarations d {} v.written =
      (v.items.head?.map fun x => v.declare x.entry).toList ++
        (declarators 0 (v.listed.tail ++ [v.semicolon])).1.map v.declare ++
        declarations d { atStart := false } (declarators 0 (v.listed.tail ++ [v.semicolon])).2 := by
  rcases List.exists_cons_of_ne_nil v.items_ne_nil with ⟨x, xs, hitems⟩
  have hseparated := v.listed_separated
  rw [hitems] at hseparated
  rcases exists_of_separated hseparated v.semicolon_isMark with ⟨rest, hlisted, htail, hrest⟩
  rcases x.exists_next hrest with ⟨next, more, hnext, hfollows, hround, harray⟩
  have hname := Site.isWord_of_isIdentifier x.name_isIdentifier
  have hsites : v.listed ++ [v.semicolon] = x.name :: next :: more := by
    rw [hlisted, List.cons_append, htail, hnext]
  have hafter : afterType (v.arguments ++ x.name :: next :: more) = some (x.name :: next :: more) :=
    afterType_append v.arguments_isTemplate (by simp [Site.isOperator_of_isWord hname])
  have hfound : typed? [] v.first.index (v.type :: (v.arguments ++ x.name :: next :: more)) =
      some (variableList .variable 0 v.type x.name v.first.index (next :: more)) := by
    simp [typed?, v.type_isType, hafter, x.name_isIdentifier, hround, hfollows]
  -- behind the type stands the first name, or the angle bracket of the template arguments
  have hbehind : ∃ s rest, v.arguments ++ x.name :: next :: more = s :: rest ∧
      ∀ c, s.isMark c = false := by
    cases harguments : v.arguments with
    | nil => exact ⟨x.name, next :: more, rfl, Site.isMark_of_isWord hname⟩
    | cons s inside =>
      have hs := v.arguments_isTemplate
      rw [harguments] at hs
      exact ⟨s, _, rfl, Site.isMark_of_isOperator (Bool.and_eq_true_iff.1 hs).1⟩
  rcases hbehind with ⟨s, rest, hbehind, hmark⟩
  rw [hbehind] at hfound
  rw [written, hsites, hbehind, declarations_qualified v.qualifiers_written v.type_isType (hmark _)
    (by simp [isGroupHeader, hmark]) (by simp [v.type_opensNoGroup]) hfound, htail, hnext]
  simp [variableList, hitems, declare, harray, Declarator.entry]

/-- The rest of a statement has other places than its first site. -/
theorem index_ne_first {tokens : List Token} (h : sites tokens = v.written) {s : Site}
    (hs : s ∈ (declarators 0 (v.listed.tail ++ [v.semicolon])).2) : v.first.index ≠ s.index := by
  have hnodup := nodup_index_sites tokens
  rw [h, written, List.append_cons] at hnodup
  refine index_ne_of_nodup hnodup (headD_mem _ _) (List.mem_append_right _ ?_)
  have hmem := (declarators_sublist 0 _).subset hs
  rcases List.mem_append.1 hmem with hmem | hmem
  · exact List.mem_append_left _ (List.mem_of_mem_tail hmem)
  · exact List.mem_append_right _ hmem

theorem declared_eq : v.declared =
    (v.items.head?.map fun x => v.declare x.entry).toList ++
      v.items.tail.map fun x => v.declare x.entry := by
  rw [declared]
  cases v.items <;> simp

theorem elim_getLast? : v.items.getLast?.elim [] Declarator.fromBrace = v.last.fromBrace := by
  rw [List.getLast?_eq_some_getLast v.items_ne_nil]
  rfl

theorem declarations_eq_iff {tokens : List Token} (h : sites tokens = v.written) :
    declarations d {} v.written = v.declared ↔
      (∀ x ∈ v.items.dropLast, x.fromBrace = []) ∧
        declarations d { atStart := false } (v.last.fromBrace ++ [v.semicolon]) = [] := by
  have hnames := map_declarators_iff v.declare v.listed_separated v.semicolon_isMark
  have hrest := declarators_rest v.listed_separated v.semicolon_isMark
  rw [elim_getLast?] at hrest
  rw [declarations_written]
  constructor
  · intro heq
    -- what is declared further on starts further on
    have hnone : declarations d { atStart := false }
        (declarators 0 (v.listed.tail ++ [v.semicolon])).2 = [] := by
      rw [List.eq_nil_iff_forall_not_mem]
      intro y hy
      have hmem : y ∈ v.declared := by
        rw [← heq]
        exact List.mem_append_right _ hy
      rcases List.mem_map.1 hmem with ⟨x, -, rfl⟩
      rcases List.mem_map.1 (index_of_mem_declarations hy).2 with ⟨s, hs, hindex⟩
      exact v.index_ne_first h hs hindex.symm
    rw [hnone, List.append_nil, declared_eq, List.append_cancel_left_eq, hnames] at heq
    rw [hrest heq] at hnone
    exact ⟨heq, hnone⟩
  · rintro ⟨hbrace, hnone⟩
    rw [hrest hbrace, hnone, List.append_nil, declared_eq, hnames.2 hbrace]

end VariableStatement

/-- Of a source that is one statement with declarators, the scan finds a variable for each of them and
nothing else exactly if only the last declarator has a brace outside brackets, and nothing is declared
from that brace on; no more is asked if no name there stands where it would be declared. -/
theorem scanDeclarations_variables_iff {d : Dialect} (v : VariableStatement d) {tokens : List Token}
    (h : sites tokens = v.written) :
    (scanDeclarations d tokens = v.declared ↔
      (∀ x ∈ v.items.dropLast, x.fromBrace = []) ∧
        declarations d { atStart := false } (v.last.fromBrace ++ [v.semicolon]) = []) ∧
    (NamesApart d v.last.suffix →
      (scanDeclarations d tokens = v.declared ↔ ∀ x ∈ v.items.dropLast, x.fromBrace = [])) := by
  have hiff := v.declarations_eq_iff h
  rw [scanDeclarations, h]
  constructor
  · exact hiff
  · intro hapart
    have hnone : declarations d { atStart := false } (v.last.fromBrace ++ [v.semicolon]) = [] :=
      declarations_of_namesApart ((hapart.of_suffix (fromOuter_suffix _ 0 _)).concat
        (Site.isIdentifier_of_isMark v.semicolon_isMark)) _
    rw [hiff]
    constructor
    · rintro ⟨hbrace, -⟩
      exact hbrace
    · intro hbrace
      exact ⟨hbrace, hnone⟩

/-- In `float a[2] = {1, 2}, b;` the list of values ends the list of declarators, so the scan does not
find the second variable. -/
theorem scanDeclarations_variables_iff_values :
    ∃ (v : VariableStatement .hlsl) (tokens : List Token),
      tokenize .hlsl ['f', 'l', 'o', 'a', 't', ' ', 'a', '[', '2', ']', ' ', '=', ' ', '{', '1', ',',
        ' ', '2', '}', ',', ' ', 'b', ';'] = .ok tokens ∧
      sites tokens = v.written ∧
      v.declared.map (fun x => (x.kind, x.name)) = [(.variable, ['a']), (.variable, ['b'])] ∧
      scanDeclarations .hlsl tokens ≠ v.declared := by
  let a : Declarator :=
    { name := ⟨⟨.word .identifier, ['a']⟩, 2⟩
      suffix := [⟨⟨.punctuation, ['[']⟩, 3⟩, ⟨⟨.number, ['2']⟩, 4⟩, ⟨⟨.punctuation, [']']⟩, 5⟩,
        ⟨⟨.operator, ['=']⟩, 7⟩, ⟨⟨.punctuation, ['{']⟩, 9⟩, ⟨⟨.number, ['1']⟩, 10⟩,
        ⟨⟨.punctuation, [',']⟩, 11⟩, ⟨⟨.number, ['2']⟩, 13⟩, ⟨⟨.punctuation, ['}']⟩, 14⟩] }
  let b : Declarator := { name := ⟨⟨.word .identifier, ['b']⟩, 17⟩, suffix := [] }
  let v : VariableStatement .hlsl :=
    { qualifiers := []
      type := ⟨⟨.word (.typeName .float), ['f', 'l', 'o', 'a', 't']⟩, 0⟩
      arguments := []
      items := [a, b]
      listed := a.written ++ ⟨⟨.punctuation, [',']⟩, 15⟩ :: b.written
      semicolon := ⟨⟨.punctuation, [';']⟩, 18⟩
      qualifiers_written := .none
      listed_separated := .more (by decide) (.last b) }
  have htokens : tokenize .hlsl _ = .ok _ :=
    Lexer.tokenize_eq_ok_iff.2 ⟨[⟨.word (.typeName .float), ['f', 'l', 'o', 'a', 't']⟩,
      ⟨.whitespace, [' ']⟩, ⟨.word .identifier, ['a']⟩, ⟨.punctuation, ['[']⟩, ⟨.number, ['2']⟩,
      ⟨.punctuation, [']']⟩, ⟨.whitespace, [' ']⟩, ⟨.operator, ['=']⟩, ⟨.whitespace, [' ']⟩,
      ⟨.punctuation, ['{']⟩, ⟨.number, ['1']⟩, ⟨.punctuation, [',']⟩, ⟨.whitespace, [' ']⟩,
      ⟨.number, ['2']⟩, ⟨.punctuation, ['}']⟩, ⟨.punctuation, [',']⟩, ⟨.whitespace, [' ']⟩,
      ⟨.word .identifier, ['b']⟩, ⟨.punctuation, [';']⟩], by decide +kernel, rfl, rfl⟩
  refine ⟨v, _, htokens, rfl, rfl, ?_⟩
  rw [Ne, (scanDeclarations_variables_iff v rfl).1]
  rintro ⟨hbrace, -⟩
  exact absurd (hbrace a (by simp [v])) (by decide)

end ShaderStyle.Scan
