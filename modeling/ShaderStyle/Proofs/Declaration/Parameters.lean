import ShaderStyle.Proofs.Declaration.Grammar
import ShaderStyle.Proofs.Token.Reading

/-!
# The parameters of a function

A parameter is written as modifiers, a type, template arguments perhaps, a name and a suffix. The list
of parameters is cut at the commas outside brackets, and angle brackets do not count as brackets
there. So a parameter is found if no comma of its template arguments is outside brackets, and none of
its sites before the name looks like the start of a suffix (`Parameter.isWhole`); else its name is
never found together with its start.

`scanDeclarations_function_iff`: of a source that is the header of one function, the scan finds the
function, its parameters in order and nothing else exactly if every parameter is whole.
-/

namespace ShaderStyle.Scan

/-! ## Written parameters -/

/-- A parameter as it is written. -/
structure Parameter where
  modifiers : List Site
  type : Site
  arguments : List Site
  name : Site
  suffix : List Site
  modifiers_isWord : ∀ s ∈ modifiers, s.isWord = true := by decide
  type_isType : type.isType = true := by decide
  arguments_isTemplate : isTemplate arguments = true := by decide
  arguments_closes : closes [] arguments = true := by decide
  name_isIdentifier : name.isIdentifier = true := by decide
  suffix_isSuffix : isSuffix suffix = true := by decide

namespace Parameter

/-- The first site of a parameter. -/
def first (p : Parameter) : Site :=
  p.modifiers.headD p.type

/-- The sites of a parameter. -/
def written (p : Parameter) : List Site :=
  p.modifiers ++ p.type :: (p.arguments ++ p.name :: p.suffix)

/-- What a parameter declares. -/
def binding (p : Parameter) : Binding :=
  { kind := .parameter
    name := p.name.text
    nameIndex := p.name.index
    depth := 1
    startIndex := p.first.index
    typeName := p.type.text
    typeCategory := p.type.typeCategory
    isArray := p.suffix.head?.any (·.isMark '[') }

/-- The template arguments hold no comma outside brackets, and nothing that starts a suffix. -/
def isWhole (p : Parameter) : Bool :=
  (fromOuter (·.isMark ',') 0 p.arguments).isEmpty && p.arguments.all (!endsParameterHead ·)

end Parameter

/-! ## Cutting at commas -/

theorem segments_ne_nil (level : Int) (ss : List Site) : segments level ss ≠ [] := by
  cases ss with
  | nil => simp [segments]
  | cons s rest =>
    rw [segments]
    split
    · simp
    · have := segments_ne_nil (level + levelStep s) rest
      cases hcut : segments (level + levelStep s) rest <;> simp_all

theorem flatten_segments_sublist (level : Int) (ss : List Site) :
    (segments level ss).flatten.Sublist ss := by
  induction ss generalizing level with
  | nil => simp [segments]
  | cons s rest ih =>
    rw [segments]
    split
    · exact (ih level).cons s
    · have hrest := ih (level + levelStep s)
      cases hcut : segments (level + levelStep s) rest with
      | nil => simp
      | cons head more =>
        rw [hcut] at hrest
        exact hrest.cons_cons s

theorem mem_of_mem_segments {level : Int} {ss segment : List Site} (h : segment ∈ segments level ss)
    {s : Site} (hs : s ∈ segment) : s ∈ ss :=
  (flatten_segments_sublist level ss).subset (List.mem_flatten.2 ⟨segment, h, hs⟩)

theorem add_levelStep {level : Nat} {s : Site} (h : level = 0 → s.isClosing = false) :
    (level : Int) + levelStep s = levelAfter level s := by
  unfold levelStep levelAfter
  split
  · rfl
  · split
    · have : level ≠ 0 := by
        intro hlevel
        simp_all
      omega
    · simp

/-- Sites that balance and have no comma outside brackets are not cut. -/
theorem segments_level_append {stack : List Char} {xs : List Site} (h : closes stack xs = true)
    (hcomma : fromOuter (·.isMark ',') stack.length xs = []) (rest : List Site) :
    segments stack.length (xs ++ rest) = (segments 0 rest).modifyHead (xs ++ ·) := by
  induction xs generalizing stack with
  | nil =>
    rw [closes, List.isEmpty_iff] at h
    subst h
    cases hcut : segments 0 rest <;> simp [hcut]
  | cons s xs ih =>
    -- a comma here would be outside brackets
    have hs : ¬(stack.length = 0 && s.isMark ',') = true := by
      intro hs
      rw [fromOuter, if_pos hs] at hcomma
      exact List.cons_ne_nil _ _ hcomma
    rcases closes_behind h with ⟨stack', hxs, hlevel, hclosing⟩
    rw [fromOuter, if_neg hs, ← hlevel] at hcomma
    have hs' : ¬(s.isMark ',' && ((stack.length : Int) = 0)) = true := by
      simpa [and_comm] using hs
    rw [List.cons_append, segments, if_neg hs', add_levelStep hclosing, ← hlevel, ih hxs hcomma,
      List.modifyHead_modifyHead]
    rfl

/-- Sites that balance are cut at their first comma outside brackets. -/
theorem segments_level_fromOuter {stack : List Char} {xs after : List Site} {comma : Site}
    (h : closes stack xs = true)
    (hcomma : fromOuter (·.isMark ',') stack.length xs = comma :: after) :
    ∃ before, xs = before ++ comma :: after ∧
      ∀ rest, segments stack.length (xs ++ rest) = before :: segments 0 (after ++ rest) := by
  induction xs generalizing stack with
  | nil => simp [fromOuter] at hcomma
  | cons s xs ih =>
    by_cases hs : (stack.length = 0 && s.isMark ',') = true
    · rw [fromOuter, if_pos hs, List.cons.injEq] at hcomma
      rcases hcomma with ⟨rfl, rfl⟩
      refine ⟨[], rfl, ?_⟩
      intro rest
      simp only [Bool.and_eq_true, decide_eq_true_eq] at hs
      rw [List.cons_append, segments, hs.1, if_pos (by simp [hs.2])]
      rfl
    · rcases closes_behind h with ⟨stack', hxs, hlevel, hclosing⟩
      rw [fromOuter, if_neg hs, ← hlevel] at hcomma
      rcases ih hxs hcomma with ⟨before, rfl, hcut⟩
      refine ⟨s :: before, rfl, ?_⟩
      intro rest
      have hs' : ¬(s.isMark ',' && ((stack.length : Int) = 0)) = true := by
        simpa [and_comm] using hs
      rw [List.cons_append, segments, if_neg hs', add_levelStep hclosing, ← hlevel, hcut,
        List.modifyHead_cons]

/-- A comma behind sites that balance cuts there. -/
theorem segments_level_comma {stack : List Char} {xs : List Site} (h : closes stack xs = true) {comma : Site}
    (hcomma : comma.isMark ',' = true) (rest : List Site) :
    segments stack.length (xs ++ comma :: rest) = segments stack.length xs ++ segments 0 rest := by
  induction xs generalizing stack with
  | nil =>
    rw [closes, List.isEmpty_iff] at h
    subst h
    simp [segments, hcomma]
  | cons s xs ih =>
    rcases closes_behind h with ⟨stack', hxs, hlevel, hclosing⟩
    have hstep := add_levelStep hclosing
    rw [← hlevel] at hstep
    by_cases hs : (s.isMark ',' && ((stack.length : Int) = 0)) = true
    · have hmark := (Bool.and_eq_true_iff.1 hs).1
      have hsame : stack'.length = stack.length := by
        simp [hlevel, levelAfter, Site.isOpening, Site.isClosing, Site.isMark_of_isMark hmark]
      rw [List.cons_append, segments, if_pos hs, ← hsame, ih hxs, segments, hsame, if_pos hs,
        List.cons_append]
    · rw [List.cons_append, segments, if_neg hs, hstep, ih hxs, segments, if_neg hs, hstep]
      cases hcut : segments stack'.length xs with
      | nil => exact absurd hcut (segments_ne_nil _ _)
      | cons head more => rfl

variable {xs : List Site}

theorem segments_append (h : closes [] xs = true) (hcomma : fromOuter (·.isMark ',') 0 xs = [])
    (rest : List Site) : segments 0 (xs ++ rest) = (segments 0 rest).modifyHead (xs ++ ·) :=
  segments_level_append h hcomma rest

theorem segments_words (h : ∀ s ∈ xs, s.isWord = true) (rest : List Site) :
    segments 0 (xs ++ rest) = (segments 0 rest).modifyHead (xs ++ ·) :=
  segments_append (closes_words h) (fromOuter_words h ',') rest

/-- Sites that balance and have no comma outside brackets are one part. -/
theorem segments_eq_singleton (h : closes [] xs = true)
    (hcomma : fromOuter (·.isMark ',') 0 xs = []) : segments 0 xs = [xs] := by
  have hcut := segments_append h hcomma []
  rw [List.append_nil] at hcut
  rw [hcut]
  simp [segments]

theorem segments_comma (h : closes [] xs = true) {comma : Site} (hcomma : comma.isMark ',' = true)
    (rest : List Site) : segments 0 (xs ++ comma :: rest) = segments 0 xs ++ segments 0 rest :=
  segments_level_comma h hcomma rest

theorem segments_fromOuter {after : List Site} {comma : Site} (h : closes [] xs = true)
    (hcomma : fromOuter (·.isMark ',') 0 xs = comma :: after) :
    ∃ before, xs = before ++ comma :: after ∧
      ∀ rest, segments 0 (xs ++ rest) = before :: segments 0 (after ++ rest) :=
  segments_level_fromOuter h hcomma

/-! ## One part -/

theorem endsParameterHead_of_isWord {s : Site} (h : s.isWord = true) : endsParameterHead s = false := by
  simp [endsParameterHead, Site.isAssignment, Site.isMark_of_isWord h, Site.isOperator_of_isWord h]

/-- What a part declares whose name stands before the first start of a suffix. -/
theorem parameter?_append {first name : Site} {more rest : List Site}
    (hhead : ∀ s ∈ first :: more, endsParameterHead s = false) (hname : name.isIdentifier = true)
    (hrest : rest.head?.all endsParameterHead = true) :
    parameter? (first :: more ++ name :: rest) =
      some
        { kind := .parameter
          name := name.text
          nameIndex := name.index
          depth := 1
          startIndex := first.index
          typeName := ((typeBefore 0 (first :: more).reverse).map fun s => s.text).getD []
          typeCategory := ((typeBefore 0 (first :: more).reverse).map Site.typeCategory).getD .other
          isArray := rest.head?.any (·.isMark '[') } := by
  have hnamed : endsParameterHead name = false :=
    endsParameterHead_of_isWord (Site.isWord_of_isIdentifier hname)
  have htake : (first :: more ++ name :: rest).takeWhile (fun s => !endsParameterHead s) =
      first :: more ++ [name] := by
    rw [List.takeWhile_append_of_pos (by simpa using hhead), List.takeWhile_cons_of_pos (by simp [hnamed])]
    cases rest <;> simp_all
  have hdrop : (first :: more ++ name :: rest).dropWhile (fun s => !endsParameterHead s) = rest := by
    rw [List.dropWhile_append_of_pos (by simpa using hhead), List.dropWhile_cons_of_pos (by simp [hnamed])]
    cases rest <;> simp_all
  have hne : (first :: more).reverse ≠ [] := by simp
  have hlast (h : (first :: more).reverse ≠ []) : (first :: more).reverse.getLast h = first := by simp
  unfold parameter?
  rw [htake, hdrop, List.reverse_append, List.reverse_singleton, List.singleton_append]
  generalize (first :: more).reverse = before at hne hlast
  cases before with
  | nil => exact absurd rfl hne
  | cons s before => simp [hname, hlast]

theorem mem_of_mem_takeWhile_append {α : Type} {p : α → Bool} {xs ys : List α} {y a : α}
    (hy : p y = false) (h : a ∈ (xs ++ y :: ys).takeWhile p) : a ∈ xs := by
  rw [List.takeWhile_append] at h
  split at h
  · simpa [hy] using h
  · exact (List.takeWhile_sublist p).subset h

/-- A part that declares a parameter starts with it and has its name before the first start of a
suffix. -/
theorem index_of_parameter? {segment : List Site} {b : Binding} (h : parameter? segment = some b) :
    (∃ s ∈ segment, s.index = b.startIndex) ∧
      ∃ s ∈ segment.takeWhile (!endsParameterHead ·), s.index = b.nameIndex := by
  unfold parameter? at h
  split at h
  · rename_i name first before hhead
    split at h
    · simp only [Option.some.injEq] at h
      subst h
      have hmem {s : Site} (hs : s ∈ name :: first :: before) :
          s ∈ segment.takeWhile (!endsParameterHead ·) := by
        rw [← hhead] at hs
        exact List.mem_reverse.1 hs
      refine ⟨⟨_, (List.takeWhile_sublist _).subset (hmem ?_), rfl⟩, name, hmem (by simp), rfl⟩
      exact List.mem_cons_of_mem _ (List.getLast_mem _)
    · simp at h
  · simp at h

/-! ## One parameter -/

namespace Parameter

variable (p : Parameter)

theorem isWord_of_mem_lead {s : Site} (h : s ∈ p.modifiers ++ [p.type]) : s.isWord = true := by
  rcases List.mem_append.1 h with h | h
  · exact p.modifiers_isWord s h
  · rw [List.mem_singleton.1 h]
    exact Site.isWord_of_isType p.type_isType

theorem written_eq : p.written = (p.modifiers ++ [p.type]) ++ (p.arguments ++ p.name :: p.suffix) := by
  simp [written]

theorem closes_written : closes [] p.written = true := by
  rw [written_eq]
  refine closes_append (closes_words fun s hs => p.isWord_of_mem_lead hs)
    (closes_append p.arguments_closes ?_)
  rw [closes_word_cons (Site.isWord_of_isIdentifier p.name_isIdentifier)]
  exact (isSuffix_iff.1 p.suffix_isSuffix).2.1

theorem segments_named : segments 0 (p.name :: p.suffix) = [p.name :: p.suffix] := by
  have hname : ∀ s ∈ [p.name], s.isWord = true := by
    simpa using Site.isWord_of_isIdentifier p.name_isIdentifier
  rcases isSuffix_iff.1 p.suffix_isSuffix with ⟨-, hcloses, hcomma⟩
  rw [← List.singleton_append, segments_words hname, segments_eq_singleton hcloses hcomma]
  rfl

/-- A parameter without a comma outside brackets is one part. -/
theorem segments_written (h : fromOuter (·.isMark ',') 0 p.arguments = []) :
    segments 0 p.written = [p.written] := by
  rw [written_eq, segments_words fun s hs => p.isWord_of_mem_lead hs,
    segments_append p.arguments_closes h, segments_named]
  rfl

/-- What is found of a parameter. -/
def found : List Binding :=
  (segments 0 p.written).filterMap parameter?

/-- A whole parameter is found. -/
theorem found_of_isWhole (h : p.isWhole = true) : p.found = [p.binding] := by
  simp only [isWhole, Bool.and_eq_true, List.isEmpty_iff, List.all_eq_true, Bool.not_eq_true'] at h
  rcases h with ⟨hcomma, hends⟩
  have hhead : ∀ s ∈ p.modifiers ++ p.type :: p.arguments, endsParameterHead s = false := by
    intro s hs
    rw [List.append_cons, List.mem_append] at hs
    rcases hs with hs | hs
    · exact endsParameterHead_of_isWord (p.isWord_of_mem_lead hs)
    · exact hends s hs
  have htype : typeBefore 0 (p.modifiers ++ p.type :: p.arguments).reverse = some p.type := by
    rw [List.reverse_append, List.reverse_cons, List.append_assoc, List.singleton_append]
    exact typeBefore_template p.arguments_isTemplate p.type_isType _
  have hfirst : ∃ more, p.modifiers ++ p.type :: p.arguments = p.first :: more := by
    unfold first
    cases p.modifiers with
    | nil => exact ⟨_, rfl⟩
    | cons s modifiers => exact ⟨_, rfl⟩
  rcases hfirst with ⟨more, hmore⟩
  rw [hmore] at hhead
  have hparameter := parameter?_append hhead p.name_isIdentifier (isSuffix_iff.1 p.suffix_isSuffix).1
  rw [← hmore, List.append_assoc, List.cons_append] at hparameter
  rw [found, p.segments_written hcomma, written, List.filterMap_cons, hparameter, htype]
  rfl

/-- If a parameter is found, it is whole: of two parts, the first lacks the name and the others lack
the start. -/
theorem isWhole_of_mem_found (hnodup : (p.written.map Site.index).Nodup)
    (h : p.binding ∈ p.found) : p.isWhole = true := by
  rcases List.mem_filterMap.1 h with ⟨segment, hsegment, hparameter⟩
  rcases index_of_parameter? hparameter with ⟨⟨s, hs, hstart⟩, n, hn, hname⟩
  have hbefore {xs ys : List Site} (hxs : p.written = xs ++ ys) (hmem : n ∈ xs) : p.name ∉ ys := by
    intro hys
    rw [hxs] at hnodup
    exact index_ne_of_nodup hnodup hmem hys hname
  cases hcomma : fromOuter (·.isMark ',') 0 p.arguments with
  | cons comma after =>
    -- cut in two: the name stands behind the comma, the start before it
    exfalso
    rcases segments_fromOuter p.arguments_closes hcomma with ⟨before, harguments, hcut⟩
    rw [written_eq, segments_words fun s hs => p.isWord_of_mem_lead hs, hcut, List.modifyHead_cons,
      List.mem_cons] at hsegment
    rcases hsegment with rfl | hsegment
    · have hwritten : p.written =
          (p.modifiers ++ [p.type] ++ before) ++ comma :: (after ++ p.name :: p.suffix) := by
        simp [written, harguments]
      exact hbefore hwritten ((List.takeWhile_sublist _).subset hn) (by simp)
    · have hmem : s ∈ p.arguments ++ p.name :: p.suffix := by
        rw [harguments, List.append_assoc]
        exact List.mem_append_right _ (List.mem_cons_of_mem _ (mem_of_mem_segments hsegment hs))
      rw [written_eq] at hnodup
      exact index_ne_of_nodup hnodup (headD_mem _ _) hmem hstart.symm
  | nil =>
    -- one part, whose head ends before the name if anything in the arguments ends it
    rw [segments_written p hcomma, List.mem_singleton] at hsegment
    subst hsegment
    simp only [isWhole, hcomma, List.isEmpty_nil, Bool.true_and, List.all_eq_true, Bool.not_eq_true']
    intro e he
    rw [← Bool.not_eq_true]
    intro hends
    rcases List.append_of_mem he with ⟨before, after, harguments⟩
    have hwritten : p.written =
        (p.modifiers ++ p.type :: before) ++ e :: (after ++ p.name :: p.suffix) := by
      simp [written, harguments]
    have hmem : n ∈ p.modifiers ++ p.type :: before := by
      rw [hwritten] at hn
      exact mem_of_mem_takeWhile_append (by simp [hends]) hn
    exact hbefore hwritten hmem (by simp)

/-- A parameter and what stands behind it are found exactly if the parameter is whole, and the rest is
found. -/
theorem found_append_iff (hnodup : (p.written.map Site.index).Nodup) {others wanted : List Binding}
    (hothers : ∀ b ∈ others, b.nameIndex ≠ p.name.index) :
    p.found ++ others = p.binding :: wanted ↔ p.isWhole = true ∧ others = wanted := by
  constructor
  · intro h
    have hmem : p.binding ∈ p.found ++ others := by simp [h]
    rcases List.mem_append.1 hmem with hmem | hmem
    · have hwhole := p.isWhole_of_mem_found hnodup hmem
      rw [p.found_of_isWhole hwhole, List.singleton_append, List.cons.injEq] at h
      exact ⟨hwhole, h.2⟩
    · exact absurd rfl (hothers _ hmem)
  · rintro ⟨hwhole, rfl⟩
    rw [p.found_of_isWhole hwhole, List.singleton_append]

end Parameter

/-! ## The list of parameters -/

theorem closes_separated {ps : List Parameter} {ss : List Site}
    (h : Separated Parameter.written ps ss) : closes [] ss = true := by
  induction h with
  | none => rfl
  | last p => exact p.closes_written
  | @more p _ _ comma ss hcomma _ ih =>
    refine closes_append p.closes_written ?_
    have hmark (c : Char) (hc : c ≠ ',') : comma.isMark c = false :=
      Site.isMark_of_isMark hcomma hc.symm
    simp [closes, closer?, brackets, Site.isClosing, hmark, ih]

/-- The parameters of a list are found, in order and nothing else, exactly if all are whole. -/
theorem filterMap_parameter?_iff {ps : List Parameter} {ss : List Site}
    (h : Separated Parameter.written ps ss) (hnodup : (ss.map Site.index).Nodup) :
    (segments 0 ss).filterMap parameter? = ps.map Parameter.binding ↔
      ∀ p ∈ ps, p.isWhole = true := by
  induction h with
  | none => simp [segments, parameter?]
  | last p =>
    have hfound : p.found ++ [] = [p.binding] ↔ p.isWhole = true ∧ [] = [] :=
      p.found_append_iff hnodup (by simp)
    simpa [Parameter.found] using hfound
  | @more p q ps comma ss hcomma _ ih =>
    have hp : (p.written.map Site.index).Nodup := by
      rw [List.map_append, List.nodup_append] at hnodup
      exact hnodup.1
    have hss : (ss.map Site.index).Nodup := by
      rw [List.map_append, List.nodup_append, List.map_cons, List.nodup_cons] at hnodup
      exact hnodup.2.1.2
    -- what is found behind the comma has its names there
    have hothers : ∀ b ∈ (segments 0 ss).filterMap parameter?, b.nameIndex ≠ p.name.index := by
      intro b hb
      rcases List.mem_filterMap.1 hb with ⟨segment, hsegment, hparameter⟩
      rcases index_of_parameter? hparameter with ⟨-, n, hn, hname⟩
      have hmem : n ∈ ss := mem_of_mem_segments hsegment ((List.takeWhile_sublist _).subset hn)
      rw [← hname]
      exact (index_ne_of_nodup hnodup (by simp [Parameter.written])
        (List.mem_cons_of_mem _ hmem)).symm
    rw [segments_comma p.closes_written hcomma, List.filterMap_append, List.map_cons,
      ← Parameter.found, p.found_append_iff hp hothers, ih hss]
    simp

/-! ## Functions -/

/-- The semantic of a function's result, or none. -/
def isSemantic : List Site → Bool
  | [] => true
  | [colon, semantic] => colon.isMark ':' && semantic.isWord
  | _ => false

/-- What ends the header of a function: a semicolon, or a body with nothing in it. -/
def isFunctionEnd : List Site → Bool
  | [s] => s.isMark ';'
  | [o, c] => o.isMark '{' && c.isMark '}'
  | _ => false

/-- The header of a function as it is written, with an empty body or none. -/
structure FunctionHeader (d : Dialect) where
  qualifiers : List Site
  type : Site
  name : Site
  opening : Site
  parameters : List Parameter
  listed : List Site
  closing : Site
  semantic : List Site
  ending : List Site
  qualifiers_written : Qualifiers d qualifiers
  type_isType : type.isType = true := by decide
  name_isIdentifier : name.isIdentifier = true := by decide
  opening_isMark : opening.isMark '(' = true := by decide
  listed_separated : Separated Parameter.written parameters listed
  closing_isMark : closing.isMark ')' = true := by decide
  semantic_isSemantic : isSemantic semantic = true := by decide
  ending_isFunctionEnd : isFunctionEnd ending = true := by decide

namespace FunctionHeader

variable {d : Dialect} (f : FunctionHeader d)

/-- The sites of a function header. -/
def written : List Site :=
  f.qualifiers ++ f.type :: f.name :: f.opening ::
    (f.listed ++ f.closing :: (f.semantic ++ f.ending))

/-- What a function header with some parameters declares. -/
def declaredWith (parameters : List Binding) : List Declaration :=
  { kind := .function
    name := f.name.text
    nameIndex := f.name.index
    depth := 0
    startIndex := (f.qualifiers.headD f.type).index
    typeName := f.type.text
    typeCategory := f.type.typeCategory
    parameters := parameters } :: parameters.map (⟨·, []⟩)

/-- What a function header declares: the function and behind it its parameters. -/
def declared : List Declaration :=
  f.declaredWith (f.parameters.map Parameter.binding)

theorem declaredWith_inj {f : FunctionHeader d} {a b : List Binding} :
    f.declaredWith a = f.declaredWith b ↔ a = b := by
  constructor
  · intro h
    exact congrArg Declaration.parameters (List.cons.inj h).1
  · rintro rfl
    rfl

theorem afterSemantic_append : afterSemantic (f.semantic ++ f.ending) = f.ending := by
  have hsemantic := f.semantic_isSemantic
  have hending := f.ending_isFunctionEnd
  unfold isSemantic at hsemantic
  split at hsemantic
  · rename_i hnone
    rw [hnone, List.nil_append]
    unfold isFunctionEnd at hending
    split at hending
    · rename_i s hs
      simp [afterSemantic, hs, Site.isMark_of_isMark hending]
    · rename_i o c hs
      simp [afterSemantic, hs, Site.isMark_of_isMark (Bool.and_eq_true_iff.1 hending).1]
    · simp at hending
  · rename_i colon semantic hs
    simp [afterSemantic, hs, (Bool.and_eq_true_iff.1 hsemantic).1]
  · simp at hsemantic

/-- What the scan reads of a function header. -/
theorem function?_written : ∃ opens,
    function? f.type f.name (f.qualifiers.headD f.type).index
        (f.listed ++ f.closing :: (f.semantic ++ f.ending)) =
      some ⟨f.declaredWith ((segments 0 f.listed).filterMap parameter?), opens, f.ending⟩ := by
  have hending := f.ending_isFunctionEnd
  unfold function?
  rw [splitClosing_closes (by decide) (closes_separated f.listed_separated) f.closing_isMark]
  simp only [afterSemantic_append]
  unfold isFunctionEnd at hending
  split at hending
  · rename_i s hs
    refine ⟨none, ?_⟩
    simp [hs, hending, Site.isMark_of_isMark hending, declaredWith]
  · rename_i o c hs
    refine ⟨some .function, ?_⟩
    simp [hs, (Bool.and_eq_true_iff.1 hending).1, declaredWith]
  · simp at hending

/-- Nothing is declared at the end of a function header. -/
theorem declarations_ending (st : State) : declarations d st f.ending = [] := by
  have hending := f.ending_isFunctionEnd
  have hnil (st : State) : declarations d st [] = [] := by rw [declarations]
  unfold isFunctionEnd at hending
  split at hending
  · rename_i s hs
    simp [hs, declarations_cons, Site.isDirective_of_isMark hending, Site.isMark_of_isMark hending,
      hending, hnil]
  · rename_i o c hs
    rcases Bool.and_eq_true_iff.1 hending with ⟨ho, hc⟩
    simp [hs, declarations_cons, Site.isDirective_of_isMark ho, Site.isDirective_of_isMark hc, ho, hc,
      Site.isMark_of_isMark hc, hnil]
  · simp at hending

theorem declarations_written : declarations d {} f.written =
    f.declaredWith ((segments 0 f.listed).filterMap parameter?) := by
  have hname := Site.isWord_of_isIdentifier f.name_isIdentifier
  rcases f.function?_written with ⟨opens, hfunction⟩
  have hfound : typed? [] (f.qualifiers.headD f.type).index
      (f.type :: f.name :: f.opening :: (f.listed ++ f.closing :: (f.semantic ++ f.ending))) =
      some ⟨f.declaredWith ((segments 0 f.listed).filterMap parameter?), opens, f.ending⟩ := by
    simpa [typed?, f.type_isType, afterType, Site.isOperator_of_isWord hname, f.name_isIdentifier,
      f.opening_isMark] using hfunction
  rw [written, declarations_qualified f.qualifiers_written f.type_isType
    (Site.isMark_of_isWord hname _) ?_ ?_ hfound, declarations_ending, List.append_nil]
  · simp [isGroupHeader, Site.isMark_of_isWord hname]
  · simp [isGroupHeader, Site.isMark_of_isMark f.opening_isMark]

theorem listed_sublist : f.listed.Sublist f.written := by
  have hbehind : f.listed.Sublist
      (f.type :: f.name :: f.opening :: (f.listed ++ f.closing :: (f.semantic ++ f.ending))) :=
    (((List.sublist_append_left _ _).cons _).cons _).cons _
  exact hbehind.trans (List.sublist_append_right _ _)

end FunctionHeader

/-- Of a source that is the header of a function, the scan finds the function, its parameters in order
and nothing else exactly if no template arguments of a parameter hold a comma outside brackets, or
what looks like the start of a suffix. -/
theorem scanDeclarations_function_iff {d : Dialect} (f : FunctionHeader d) {tokens : List Token}
    (h : sites tokens = f.written) :
    scanDeclarations d tokens = f.declared ↔ ∀ p ∈ f.parameters, p.isWhole = true := by
  have hnodup : (f.listed.map Site.index).Nodup := by
    have hall := nodup_index_sites tokens
    rw [h] at hall
    exact (f.listed_sublist.map Site.index).nodup hall
  rw [scanDeclarations, h, f.declarations_written, FunctionHeader.declared,
    FunctionHeader.declaredWith_inj]
  exact filterMap_parameter?_iff f.listed_separated hnodup

/-- In `void f(Foo<A, B> v);` the comma of the template arguments cuts the parameter in two, so the
scan does not find it. -/
theorem scanDeclarations_function_iff_template :
    ∃ (f : FunctionHeader .hlsl) (tokens : List Token),
      tokenize .hlsl ['v', 'o', 'i', 'd', ' ', 'f', '(', 'F', 'o', 'o', '<', 'A', ',', ' ', 'B',
        '>', ' ', 'v', ')', ';'] = .ok tokens ∧
      sites tokens = f.written ∧
      f.declared.map (fun x => (x.kind, x.name)) = [(.function, ['f']), (.parameter, ['v'])] ∧
      scanDeclarations .hlsl tokens ≠ f.declared := by
  let v : Parameter :=
    { modifiers := []
      type := ⟨⟨.word .identifier, ['F', 'o', 'o']⟩, 4⟩
      arguments := [⟨⟨.operator, ['<']⟩, 5⟩, ⟨⟨.word .identifier, ['A']⟩, 6⟩, ⟨⟨.punctuation, [',']⟩, 7⟩,
        ⟨⟨.word .identifier, ['B']⟩, 9⟩, ⟨⟨.operator, ['>']⟩, 10⟩]
      name := ⟨⟨.word .identifier, ['v']⟩, 12⟩
      suffix := [] }
  let f : FunctionHeader .hlsl :=
    { qualifiers := []
      type := ⟨⟨.word (.typeName .void), ['v', 'o', 'i', 'd']⟩, 0⟩
      name := ⟨⟨.word .identifier, ['f']⟩, 2⟩
      opening := ⟨⟨.punctuation, ['(']⟩, 3⟩
      parameters := [v]
      listed := v.written
      closing := ⟨⟨.punctuation, [')']⟩, 13⟩
      semantic := []
      ending := [⟨⟨.punctuation, [';']⟩, 14⟩]
      qualifiers_written := .none
      listed_separated := .last v }
  have htokens : tokenize .hlsl _ = .ok _ :=
    Lexer.tokenize_eq_ok_iff.2 ⟨[⟨.word (.typeName .void), ['v', 'o', 'i', 'd']⟩, ⟨.whitespace, [' ']⟩,
      ⟨.word .identifier, ['f']⟩, ⟨.punctuation, ['(']⟩, ⟨.word .identifier, ['F', 'o', 'o']⟩,
      ⟨.operator, ['<']⟩, ⟨.word .identifier, ['A']⟩, ⟨.punctuation, [',']⟩, ⟨.whitespace, [' ']⟩,
      ⟨.word .identifier, ['B']⟩, ⟨.operator, ['>']⟩, ⟨.whitespace, [' ']⟩, ⟨.word .identifier, ['v']⟩,
      ⟨.punctuation, [')']⟩, ⟨.punctuation, [';']⟩], by decide +kernel, rfl, rfl⟩
  refine ⟨f, _, htokens, rfl, rfl, ?_⟩
  rw [Ne, scanDeclarations_function_iff f rfl]
  decide

end ShaderStyle.Scan
