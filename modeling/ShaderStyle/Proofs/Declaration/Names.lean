import ShaderStyle.Proofs.Declaration.Declarators
import ShaderStyle.Proofs.Declaration.Parameters

/-!
# Declared names

The scan for declarations reads its sites once, from left to right. The names that it declares,
followed by those that are left, are names of the sites it was given, in the same order
(`Found.IsFrom`, for one statement); so the names of all declarations are among the names of all sites,
in order (`entries_declarations_sublist`), and each stands behind the first site of its declaration
(`startsIn_of_mem_declarations`).
-/

namespace ShaderStyle

/-- The place and the text of the declared name. -/
def Binding.entry (b : Binding) : Nat × Text :=
  (b.nameIndex, b.name)

/-- The declared name stands behind the site with which the declaration starts. -/
def Binding.StartsIn (ss : List Site) (b : Binding) : Prop :=
  ∃ first name : Site, [first, name].Sublist ss ∧ first.index = b.startIndex ∧ name.index = b.nameIndex

theorem Binding.StartsIn.mono {ss ss' : List Site} {b : Binding} (h : b.StartsIn ss)
    (hss : ss.Sublist ss') : b.StartsIn ss' := by
  rcases h with ⟨first, name, hsites, hplaces⟩
  exact ⟨first, name, hsites.trans hss, hplaces⟩

namespace Scan

variable {d : Dialect} {ss : List Site}

/-- The places and texts of the identifiers among the sites. -/
def names (ss : List Site) : List (Nat × Text) :=
  (ss.filter fun s => s.isIdentifier).map fun s => (s.index, s.text)

/-- The places and texts of the declared names. -/
def entries (xs : List Declaration) : List (Nat × Text) :=
  xs.map fun x => x.entry

theorem names_append (ss ss' : List Site) : names (ss ++ ss') = names ss ++ names ss' := by
  simp [names]

theorem names_cons_of_isIdentifier {s : Site} (h : s.isIdentifier = true) (ss : List Site) :
    names (s :: ss) = (s.index, s.text) :: names ss := by
  simp [names, h]

theorem names_sublist {ss ss' : List Site} (h : ss.Sublist ss') :
    (names ss).Sublist (names ss') :=
  (h.filter _).map _

/-! ## What is left over -/

/-- The sites that are left behind attributes and qualifiers. -/
def Head.sites : Head → List Site
  | .group rest => rest
  | .plain rest => rest

theorem head_suffix {found : Head} (h : head d ss = some found) : found.sites <:+ ss := by
  fun_induction head d ss with
  | case1 => simp at h
  | case2 => simp at h
  | case3 s rest _ inside after hsplit ih =>
    exact ((ih h).trans (splitClosing_suffix hsplit)).trans (List.suffix_cons s rest)
  | case4 => simp at h
  | case5 s rest _ _ inside after hsplit ih =>
    have hrest := (splitClosing_suffix hsplit).trans (List.tail_suffix rest)
    exact ((ih h).trans hrest).trans (List.suffix_cons s rest)
  | case6 s rest =>
    simp only [Option.some.injEq] at h
    subst h
    exact List.suffix_cons s rest
  | case7 s rest _ _ _ _ ih => exact (ih h).trans (List.suffix_cons s rest)
  | case8 =>
    simp only [Option.some.injEq] at h
    subst h
    exact List.suffix_rfl

/-- The sites inside brackets and those behind them are left in order. -/
theorem splitClosing_sublist {opening closing : Char} {depth : Nat} {inside rest : List Site}
    (h : splitClosing opening closing depth ss = some (inside, rest)) :
    (inside ++ rest).Sublist ss := by
  induction ss generalizing depth inside with
  | nil => simp [splitClosing] at h
  | cons s more ih =>
    have hkept {depth : Nat}
        (h : (splitClosing opening closing depth more).map (fun p => (s :: p.1, p.2)) =
          some (inside, rest)) : (inside ++ rest).Sublist (s :: more) := by
      rcases Option.map_eq_some_iff.1 h with ⟨⟨a, b⟩, hsplit, heq⟩
      simp only [Prod.mk.injEq] at heq
      rw [← heq.1]
      exact (ih (heq.2 ▸ hsplit)).cons_cons s
    simp only [splitClosing] at h
    split at h
    · exact hkept h
    · split at h
      · cases depth with
        | zero =>
          simp only [Option.some.injEq, Prod.mk.injEq] at h
          rw [← h.1, h.2]
          exact List.sublist_cons_self s rest
        | succ depth => exact hkept h
      · exact hkept h

/-- The names behind the commas of a statement and the sites at which it ends are left in order. -/
theorem declarators_names_sublist (level : Nat) (ss : List Site) :
    ((declarators level ss).1.map Prod.fst ++ (declarators level ss).2).Sublist ss := by
  induction hsize : ss.length using Nat.strongRecOn generalizing level ss with
  | ind size ih =>
    subst hsize
    cases ss with
    | nil => simp [declarators]
    | cons s rest =>
      have hrest (level : Nat) := (ih rest.length (by simp) level rest rfl).cons s
      rw [declarators.eq_def]
      simp only
      split
      · exact List.Sublist.refl _
      split
      · exact hrest _
      split
      · exact hrest _
      split
      · split
        · rename_i name next more
          split
          · rename_i hname
            -- the name is a word, so the list of declarators goes on behind it
            rcases Bool.and_eq_true_iff.1 hname with ⟨hname, -⟩
            rw [declarators_word (Site.isWord_of_isIdentifier hname)]
            exact ((ih (next :: more).length (by simp) level _ rfl).cons_cons name).cons s
          · exact hrest _
        · exact hrest _
      · exact hrest _

theorem afterType_suffix {rest : List Site} (h : afterType ss = some rest) : rest <:+ ss := by
  unfold afterType at h
  split at h
  · rcases afterTemplate_suffix h with ⟨s, -, hsuffix⟩
    exact ((List.suffix_cons s rest).trans hsuffix).trans (List.tail_suffix ss)
  · simp only [Option.some.injEq] at h
    subst h
    exact List.suffix_rfl

theorem afterSemantic_suffix (ss : List Site) : afterSemantic ss <:+ ss := by
  unfold afterSemantic
  split
  · exact List.drop_suffix 2 ss
  · exact List.suffix_rfl

/-! ## Parameters -/

/-- A parameter is declared by its part of the list: its name is one of the part's names, and stands
behind the part's first site. -/
theorem isFrom_of_parameter? {segment : List Site} {b : Binding}
    (h : parameter? segment = some b) :
    [b.entry].Sublist (names segment) ∧ b.StartsIn segment := by
  unfold parameter? at h
  split at h
  · rename_i name first before hhead
    split at h
    · rename_i hname
      simp only [Option.some.injEq] at h
      subst h
      -- the head was read from its end, so the segment holds it in reverse
      have hsites : ((first :: before).reverse ++ [name]).Sublist segment := by
        have htake := List.takeWhile_sublist (l := segment) fun s => !endsParameterHead s
        rwa [← List.reverse_reverse (segment.takeWhile _), hhead, List.reverse_cons] at htake
      constructor
      · have hlast := names_sublist ((List.sublist_append_right _ [name]).trans hsites)
        rwa [names_cons_of_isIdentifier hname] at hlast
      · refine ⟨(first :: before).getLast (by simp), name, ?_, rfl, rfl⟩
        have hfirst : [(first :: before).getLast (by simp)].Sublist (first :: before).reverse := by
          rw [List.singleton_sublist, List.mem_reverse]
          exact List.getLast_mem (by simp)
        exact (hfirst.append_right [name]).trans hsites
    · simp at h
  · simp at h

theorem entries_parameters_sublist (segments : List (List Site)) :
    ((segments.filterMap parameter?).map Binding.entry).Sublist (names segments.flatten) := by
  induction segments with
  | nil => exact List.Sublist.slnil
  | cons segment segments ih =>
    rw [List.flatten_cons, names_append]
    cases hparameter : parameter? segment with
    | none =>
      rw [List.filterMap_cons_none hparameter]
      exact ih.trans (List.sublist_append_right _ _)
    | some b =>
      rw [List.filterMap_cons_some hparameter, List.map_cons]
      exact (isFrom_of_parameter? hparameter).1.append ih

theorem startsIn_of_mem_parameters {segments : List (List Site)} {b : Binding}
    (h : b ∈ segments.filterMap parameter?) : b.StartsIn segments.flatten := by
  rcases List.mem_filterMap.1 h with ⟨segment, hsegment, hfound⟩
  exact (isFrom_of_parameter? hfound).2.mono (List.sublist_flatten_of_mem hsegment)

/-! ## Statements -/

/-- What is found is declared by `first` and the sites behind it: the names, followed by those of the
sites that are left, are names of these sites, and every name stands behind the start of its
declaration. -/
structure Found.IsFrom (first : Site) (ss : List Site) (found : Found) : Prop where
  names : (entries found.declarations ++ names found.rest).Sublist (names ss)
  starts : ∀ x ∈ found.declarations, x.StartsIn (first :: ss)
  rest : found.rest.Sublist ss

theorem Found.IsFrom.mono {first : Site} {ss ss' : List Site} {found : Found}
    (h : found.IsFrom first ss) (hss : ss.Sublist ss') : found.IsFrom first ss' where
  names := h.names.trans (names_sublist hss)
  starts x hx := (h.starts x hx).mono (hss.cons_cons first)
  rest := h.rest.trans hss

theorem isFrom_of_function? {first type name : Site} {found : Found}
    (hname : name.isIdentifier = true) (h : function? type name first.index ss = some found) :
    found.IsFrom first (name :: ss) := by
  unfold function? at h
  split at h
  · simp at h
  · rename_i inside after hsplit
    have hinside := flatten_segments_sublist 0 inside
    have hsites : ((segments 0 inside).flatten ++ afterSemantic after).Sublist ss :=
      (hinside.append (afterSemantic_suffix after).sublist).trans (splitClosing_sublist hsplit)
    -- with a body or without one, the function stands before its parameters
    have hdeclared {opens : Option Scope} {b : Binding} (hb : b.name = name.text)
        (hstart : b.startIndex = first.index) (hindex : b.nameIndex = name.index)
        (heq : (⟨⟨b, (segments 0 inside).filterMap parameter?⟩ ::
            ((segments 0 inside).filterMap parameter?).map (⟨·, []⟩), opens,
          afterSemantic after⟩ : Found) = found) : found.IsFrom first (name :: ss) := by
      subst heq
      constructor
      · have hparameters : (entries (((segments 0 inside).filterMap parameter?).map (⟨·, []⟩))).Sublist
            (names (segments 0 inside).flatten) := by
          rw [entries, List.map_map]
          exact entries_parameters_sublist (segments 0 inside)
        have hnames := names_sublist hsites
        rw [names_append] at hnames
        rw [names_cons_of_isIdentifier hname, ← hb, ← hindex]
        exact ((hparameters.append_right _).trans hnames).cons_cons _
      · intro x hx
        rcases List.mem_cons.1 hx with rfl | hx
        · exact ⟨first, name, ((List.nil_sublist ss).cons_cons name).cons_cons first, hstart.symm,
            hindex.symm⟩
        · rcases List.mem_map.1 hx with ⟨p, hp, rfl⟩
          apply (startsIn_of_mem_parameters hp).mono
          exact (((List.sublist_append_left _ _).trans hsites).cons name).cons first
      · exact ((List.sublist_append_right _ _).trans hsites).cons name
    simp only at h
    split at h
    · exact hdeclared rfl rfl rfl (Option.some.inj h)
    · split at h
      · exact hdeclared rfl rfl rfl (Option.some.inj h)
      · simp at h

theorem isFrom_variableList {kind : DeclarationKind} {depth : Nat} {first type name : Site}
    (hname : name.isIdentifier = true) :
    (variableList kind depth type name first.index ss).IsFrom first (name :: ss) := by
  have hsites := declarators_names_sublist 0 ss
  have hidentifiers : ∀ s ∈ (declarators 0 ss).1.map Prod.fst, s.isIdentifier = true := by
    intro s hs
    rcases List.mem_map.1 hs with ⟨x, hx, rfl⟩
    exact isIdentifier_of_declarators x hx
  constructor
  · have hnames := names_sublist (hsites.cons_cons name)
    rw [← List.cons_append, names_append] at hnames
    have hentries : entries (variableList kind depth type name first.index ss).declarations =
        names (name :: (declarators 0 ss).1.map Prod.fst) := by
      rw [names_cons_of_isIdentifier hname, names, List.filter_eq_self.2 hidentifiers]
      simp [entries, variableList, Binding.entry]
    rw [hentries]
    exact hnames
  · intro x hx
    rcases List.mem_map.1 hx with ⟨⟨n, isArray⟩, hn, rfl⟩
    have hmem : n ∈ name :: ss := by
      rcases List.mem_cons.1 hn with heq | hn
      · rw [Prod.mk.injEq] at heq
        rw [heq.1]
        exact List.mem_cons_self
      · apply List.mem_cons_of_mem
        exact hsites.subset (List.mem_append_left _ (List.mem_map_of_mem (f := Prod.fst) hn))
    exact ⟨first, n, (List.singleton_sublist.2 hmem).cons_cons first, rfl, rfl⟩
  · exact ((List.sublist_append_right _ _).trans hsites).cons name

theorem isFrom_of_typed? {scopes : List Scope} {first type : Site} {found : Found}
    (h : typed? scopes first.index (type :: ss) = some found) : found.IsFrom first ss := by
  simp only [typed?] at h
  split at h
  · split at h
    · rename_i name next more hafter
      have hsuffix : name :: next :: more <:+ ss := afterType_suffix hafter
      split at h
      · rename_i hname
        split at h
        · apply (isFrom_of_function? hname h).mono
          exact ((List.sublist_cons_self next more).cons_cons name).trans hsuffix.sublist
        · split at h
          · simp only [Option.some.injEq] at h
            subst h
            exact (isFrom_variableList hname).mono hsuffix.sublist
          · simp at h
      · simp at h
    · simp at h
  · simp at h

theorem isFrom_of_group? {depth : Nat} {first : Site} {found : Found}
    (hheader : isGroupHeader ss = true) (h : group? depth first.index ss = some found) :
    found.IsFrom first ss := by
  unfold isGroupHeader at hheader
  split at hheader
  · rename_i name next after
    have hname := (Bool.and_eq_true_iff.1 hheader).1
    have hrest := List.dropWhile_sublist (l := next :: after) fun s : Site => !s.isMark '{'
    simp only [group?, Option.some.injEq] at h
    subst h
    constructor
    · rw [names_cons_of_isIdentifier hname]
      exact (names_sublist hrest).cons_cons _
    · intro x hx
      rw [List.mem_singleton.1 hx]
      exact ⟨first, name, ((List.nil_sublist _).cons_cons name).cons_cons first, rfl, rfl⟩
    · exact hrest.cons name
  · simp at hheader

theorem isFrom_of_statement? {scopes : List Scope} {first : Site} {found : Found}
    (h : statement? d scopes (first :: ss) = some found) : found.IsFrom first ss := by
  simp only [statement?] at h
  split at h
  · simp at h
  · rename_i rest hhead
    have hsuffix : rest <:+ ss := by
      rcases List.suffix_cons_iff.1 (head_suffix hhead) with hwhole | hsuffix
      -- the word of the group is always read
      · have hshorter : rest.length < (first :: ss).length := length_head hhead
        rw [show rest = first :: ss from hwhole] at hshorter
        exact absurd hshorter (Nat.lt_irrefl _)
      · exact hsuffix
    exact (isFrom_of_group? (isGroupHeader_of_head hhead) h).mono hsuffix.sublist
  · rename_i rest hhead
    cases rest with
    | nil => simp [typed?] at h
    | cons type rest =>
      have hsuffix : rest <:+ ss := by
        rcases List.suffix_cons_iff.1 (head_suffix hhead) with hwhole | hsuffix
        · have hrest : rest = ss := (List.cons.inj hwhole).2
          exact hrest ▸ List.suffix_rfl
        · exact (List.suffix_cons type rest).trans hsuffix
      exact (isFrom_of_typed? h).mono hsuffix.sublist

/-! ## All statements -/

/-- The declared names are names of the sites, in order. -/
theorem entries_declarations_sublist (d : Dialect) (st : State) (ss : List Site) :
    (entries (declarations d st ss)).Sublist (names ss) := by
  have hpass {s : Site} {rest : List Site} {l : List (Nat × Text)} (h : l.Sublist (names rest)) :
      l.Sublist (names (s :: rest)) :=
    h.trans (names_sublist (List.sublist_cons_self s rest))
  fun_induction declarations d st ss with
  | case1 => exact List.Sublist.slnil
  | case2 st s rest _ ih => exact hpass ih
  | case3 st s rest _ _ ih => exact hpass ih
  | case4 st s rest _ _ _ ih => exact hpass ih
  | case5 st s rest _ _ _ _ ih => exact hpass ih
  | case6 st s rest _ _ _ _ found hfound ih =>
    have hfrom : found.IsFrom s rest := by
      split at hfound
      · exact isFrom_of_statement? hfound
      · simp at hfound
    rw [entries, List.map_append]
    exact hpass ((ih.append_left _).trans hfrom.names)
  | case7 st s rest _ _ _ _ _ ih => exact hpass ih

/-- Every declared name stands behind the start of its declaration. -/
theorem startsIn_of_mem_declarations {st : State} {x : Declaration}
    (h : x ∈ declarations d st ss) : x.StartsIn ss := by
  fun_induction declarations d st ss with
  | case1 => simp at h
  | case2 st s rest _ ih => exact (ih h).mono (List.sublist_cons_self s rest)
  | case3 st s rest _ _ ih => exact (ih h).mono (List.sublist_cons_self s rest)
  | case4 st s rest _ _ _ ih => exact (ih h).mono (List.sublist_cons_self s rest)
  | case5 st s rest _ _ _ _ ih => exact (ih h).mono (List.sublist_cons_self s rest)
  | case6 st s rest _ _ _ _ found hfound ih =>
    have hfrom : found.IsFrom s rest := by
      split at hfound
      · exact isFrom_of_statement? hfound
      · simp at hfound
    rcases List.mem_append.1 h with hdeclared | hlater
    · exact hfrom.starts x hdeclared
    · exact (ih hlater).mono (hfrom.rest.cons s)
  | case7 st s rest _ _ _ _ _ ih => exact (ih h).mono (List.sublist_cons_self s rest)

/-! ## Sites of tokens -/

/-- A site is a token at its place that is no layout, no comment and not the end of the source. -/
theorem exists_token_of_mem_sites {tokens : List Token} {s : Site} (h : s ∈ sites tokens) :
    ∃ t, tokens[s.index]? = some t ∧ t.toLexeme = s.toLexeme ∧ t.kind.isTrivia = false ∧
      t.kind ≠ .eof := by
  rcases List.mem_map.1 h with ⟨⟨t, i⟩, hmem, rfl⟩
  rcases List.mem_filter.1 hmem with ⟨hplaced, hcode⟩
  have hget : tokens[i]? = some t := List.mem_zipIdx_iff_getElem?.1 hplaced
  simp only [Bool.and_eq_true, Bool.not_eq_true', decide_eq_true_eq] at hcode
  exact ⟨t, hget, rfl, hcode⟩

end Scan

/-- The name of a declaration is the text of the token at its place. -/
theorem name_of_mem_scanDeclarations {d : Dialect} {tokens : List Token} {x : Declaration}
    (h : x ∈ scanDeclarations d tokens) :
    ∃ t, tokens[x.nameIndex]? = some t ∧ t.isIdentifier = true ∧ t.text = x.name := by
  have hentry : x.entry ∈ Scan.names (Scan.sites tokens) :=
    (Scan.entries_declarations_sublist d {} _).subset (List.mem_map_of_mem h)
  rcases List.mem_map.1 hentry with ⟨s, hs, heq⟩
  rcases List.mem_filter.1 hs with ⟨hsite, hidentifier⟩
  rcases Scan.exists_token_of_mem_sites hsite with ⟨t, hget, hlexeme, -⟩
  rcases Prod.mk.inj heq with ⟨hindex, hname⟩
  refine ⟨t, hindex ▸ hget, ?_, ?_⟩
  · rw [hlexeme]
    exact hidentifier
  · rw [hlexeme, hname]

end ShaderStyle
