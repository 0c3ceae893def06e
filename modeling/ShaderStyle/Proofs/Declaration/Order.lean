import ShaderStyle.Proofs.Declaration.Names

/-!
# The list of declarations

The declarations of a source come statement by statement, so their list is made of groups
(`IsGrouped`): a function with its parameters directly behind it, or one declaration of another kind.
Together with the order of the names this makes the list well formed (`IsWellFormed`):

* the names ascend, so no name is declared twice;
* each name is the text of an identifier at its place, and stands behind the token with which its
  declaration starts;
* the parameters of a function are those declared directly behind it, and no parameter is declared
  elsewhere;
* functions are declared outside all braces, and fields inside some.

The scan gives a well-formed list for every list of tokens (`scanDeclarations_isWellFormed`).
-/

namespace ShaderStyle

/-- The list has groups: a function with its parameters directly behind it, or a declaration of
another kind alone. -/
inductive IsGrouped : List Declaration → Prop
  | nil : IsGrouped []
  | function {b : Binding} {parameters : List Binding} {xs : List Declaration}
      (kind : b.kind = .function) (depth : b.depth = 0)
      (all : ∀ p ∈ parameters, p.kind = .parameter ∧ p.depth = 1) (more : IsGrouped xs) :
      IsGrouped (⟨b, parameters⟩ :: (parameters.map (⟨·, []⟩) ++ xs))
  | single {x : Declaration} {xs : List Declaration} (function : x.kind ≠ .function)
      (parameter : x.kind ≠ .parameter) (field : x.kind = .field → 1 ≤ x.depth)
      (more : IsGrouped xs) : IsGrouped (x :: xs)

/-- The list of the declarations of some tokens is well formed. -/
structure IsWellFormed (tokens : List Token) (xs : List Declaration) : Prop where
  ascending : xs.Pairwise fun x y => x.nameIndex < y.nameIndex
  named : ∀ x ∈ xs, ∃ t, tokens[x.nameIndex]? = some t ∧ t.isIdentifier = true ∧ t.text = x.name
  started : ∀ x ∈ xs, x.startIndex < x.nameIndex ∧
    ∃ t, tokens[x.startIndex]? = some t ∧ t.kind.isTrivia = false
  function : ∀ before x after, xs = before ++ x :: after → x.kind = .function →
    x.depth = 0 ∧ after.takeWhile (·.kind = .parameter) = x.parameters.map (⟨·, []⟩)
  parameter : ∀ before p after, xs = before ++ p :: after → p.kind = .parameter →
    p.depth = 1 ∧ ∃ outer f between, before = outer ++ f :: between ∧ f.kind = .function ∧
      (∀ x ∈ between, x.kind = .parameter) ∧ p.toBinding ∈ f.parameters
  field : ∀ x ∈ xs, x.kind = .field → 1 ≤ x.depth

/-! ## Groups -/

namespace IsGrouped

variable {xs ys : List Declaration}

theorem append (h : IsGrouped xs) (h' : IsGrouped ys) : IsGrouped (xs ++ ys) := by
  induction h with
  | nil => exact h'
  | function kind depth all _ ih =>
    rw [List.cons_append, List.append_assoc]
    exact .function kind depth all ih
  | single function parameter field _ ih => exact .single function parameter field ih

/-- No list starts with a parameter. -/
theorem takeWhile_eq_nil (h : IsGrouped xs) : xs.takeWhile (·.kind = .parameter) = [] := by
  cases h with
  | nil => rfl
  | function kind => simp [kind]
  | single _ parameter => simp [parameter]

theorem field_depth (h : IsGrouped xs) : ∀ x ∈ xs, x.kind = .field → 1 ≤ x.depth := by
  induction h with
  | nil => simp
  | @function b parameters xs kind _ all _ ih =>
    intro x hx hfield
    rcases List.mem_cons.1 hx with rfl | hx
    · simp [kind] at hfield
    · rcases List.mem_append.1 hx with hx | hx
      · rcases List.mem_map.1 hx with ⟨p, hp, rfl⟩
        simp [(all p hp).1] at hfield
      · exact ih x hx hfield
  | single _ _ field _ ih =>
    intro x hx hfield
    rcases List.mem_cons.1 hx with rfl | hx
    · exact field hfield
    · exact ih x hx hfield

/-- The parameters of a function are the ones directly behind it. -/
theorem parameters_eq (h : IsGrouped xs) {before after : List Declaration} {x : Declaration}
    (hxs : xs = before ++ x :: after) (hx : x.kind = .function) :
    x.depth = 0 ∧ after.takeWhile (·.kind = .parameter) = x.parameters.map (⟨·, []⟩) := by
  induction h generalizing before with
  | nil => simp at hxs
  | @function b parameters xs kind depth all more ih =>
    have hkind : ∀ y ∈ parameters.map (fun p => (⟨p, []⟩ : Declaration)), y.kind = .parameter := by
      intro y hy
      rcases List.mem_map.1 hy with ⟨p, hp, rfl⟩
      exact (all p hp).1
    -- it is the function of this group, or stands behind that
    rcases List.cons_eq_append_iff.1 hxs with ⟨-, heq⟩ | ⟨before, -, hsplit⟩
    · rw [List.cons.injEq] at heq
      rw [heq.1, heq.2, List.takeWhile_append_of_pos (by simpa using hkind), more.takeWhile_eq_nil,
        List.append_nil]
      exact ⟨depth, rfl⟩
    · rcases List.append_eq_append_iff.1 hsplit with ⟨between, -, hrest⟩ | ⟨between, hbefore, hrest⟩
      · exact ih hrest
      · -- the function is none of the parameters
        cases between with
        | nil =>
          have hxs' : xs = [] ++ x :: after := hrest.symm
          exact ih hxs'
        | cons y between =>
          rw [List.cons_append, List.cons.injEq] at hrest
          have hy := hkind y (hbefore ▸ List.mem_append_right before List.mem_cons_self)
          rw [← hrest.1, hx] at hy
          cases hy
  | single function _ _ _ ih =>
    rcases List.cons_eq_append_iff.1 hxs with ⟨-, heq⟩ | ⟨before, -, hsplit⟩
    · rw [List.cons.injEq] at heq
      rw [heq.1] at hx
      exact absurd hx function
    · exact ih hsplit

/-- A parameter stands behind its function, with nothing but parameters between. -/
theorem exists_function (h : IsGrouped xs) {before after : List Declaration} {p : Declaration}
    (hxs : xs = before ++ p :: after) (hp : p.kind = .parameter) :
    p.depth = 1 ∧ ∃ outer f between, before = outer ++ f :: between ∧ f.kind = .function ∧
      (∀ x ∈ between, x.kind = .parameter) ∧ p.toBinding ∈ f.parameters := by
  induction h generalizing before with
  | nil => simp at hxs
  | @function b parameters xs kind depth all more ih =>
    rcases List.cons_eq_append_iff.1 hxs with ⟨-, heq⟩ | ⟨before, rfl, hsplit⟩
    · rw [List.cons.injEq] at heq
      rw [heq.1, kind] at hp
      cases hp
    · -- a parameter of a later group keeps its function, whatever stands before
      have hlater {between rest : List Declaration} (hrest : xs = rest ++ p :: after)
          (hbefore : before = between ++ rest) :
          p.depth = 1 ∧ ∃ outer f inner,
            ⟨b, parameters⟩ :: before = outer ++ f :: inner ∧ f.kind = .function ∧
            (∀ x ∈ inner, x.kind = .parameter) ∧ p.toBinding ∈ f.parameters := by
        rcases ih hrest with ⟨hdepth, outer, f, inner, rfl, hf⟩
        exact ⟨hdepth, ⟨b, parameters⟩ :: (between ++ outer), f, inner, by simp [hbefore], hf⟩
      rcases List.append_eq_append_iff.1 hsplit with ⟨rest, hbefore, hrest⟩ | ⟨inner, hmap, hrest⟩
      · exact hlater hrest hbefore
      · cases inner with
        | nil =>
          rw [List.append_nil] at hmap
          have hxs' : xs = [] ++ p :: after := hrest.symm
          exact hlater hxs' (hmap.symm.trans (List.append_nil _).symm)
        | cons y inner =>
          -- the parameter is one of this function
          rw [List.cons_append, List.cons.injEq] at hrest
          rcases List.map_eq_append_iff.1 hmap with ⟨earlier, later, rfl, rfl, hcut⟩
          rcases List.map_eq_cons_iff.1 hcut with ⟨q, later, rfl, rfl, -⟩
          rw [hrest.1]
          refine ⟨(all q (by simp)).2, [], _, _, rfl, kind, ?_, by simp⟩
          intro x hx
          rcases List.mem_map.1 hx with ⟨r, hr, rfl⟩
          exact (all r (List.mem_append_left _ hr)).1
  | single _ parameter _ _ ih =>
    rcases List.cons_eq_append_iff.1 hxs with ⟨-, heq⟩ | ⟨before, rfl, hsplit⟩
    · rw [List.cons.injEq] at heq
      rw [heq.1] at hp
      exact absurd hp parameter
    · rcases ih hsplit with ⟨hdepth, outer, f, between, rfl, hf⟩
      exact ⟨hdepth, _ :: outer, f, between, rfl, hf⟩

/-- Declarations that are no functions, parameters or fields stand alone. -/
theorem of_forall (h : ∀ x ∈ xs, x.kind ≠ .function ∧ x.kind ≠ .parameter ∧
    (x.kind = .field → 1 ≤ x.depth)) : IsGrouped xs := by
  induction xs with
  | nil => exact .nil
  | cons x xs ih =>
    rcases h x List.mem_cons_self with ⟨hfunction, hparameter, hfield⟩
    exact .single hfunction hparameter hfield (ih fun y hy => h y (List.mem_cons_of_mem x hy))

end IsGrouped

namespace Scan

variable {d : Dialect} {ss : List Site} {scopes : List Scope} {start : Nat} {found : Found}

/-! ## The declarations of a statement -/

theorem kind_of_parameter? {segment : List Site} {b : Binding} (h : parameter? segment = some b) :
    b.kind = .parameter ∧ b.depth = 1 := by
  unfold parameter? at h
  split at h
  · split at h
    · simp only [Option.some.injEq] at h
      subst h
      exact ⟨rfl, rfl⟩
    · simp at h
  · simp at h

theorem isGrouped_of_function? {type name : Site} (h : function? type name start ss = some found) :
    IsGrouped found.declarations := by
  unfold function? at h
  split at h
  · simp at h
  · rename_i inside after _
    have hall : ∀ p ∈ (segments 0 inside).filterMap parameter?, p.kind = .parameter ∧ p.depth = 1 := by
      intro p hp
      rcases List.mem_filterMap.1 hp with ⟨segment, -, hfound⟩
      exact kind_of_parameter? hfound
    have hgroup {b : Binding} (hkind : b.kind = .function) (hdepth : b.depth = 0) :
        IsGrouped (⟨b, (segments 0 inside).filterMap parameter?⟩ ::
          ((segments 0 inside).filterMap parameter?).map (⟨·, []⟩)) := by
      have h := IsGrouped.function hkind hdepth hall .nil
      rwa [List.append_nil] at h
    simp only at h
    split at h
    · simp only [Option.some.injEq] at h
      subst h
      exact hgroup rfl rfl
    · split at h
      · simp only [Option.some.injEq] at h
        subst h
        exact hgroup rfl rfl
      · simp at h

theorem isGrouped_variableList {type name : Site} :
    IsGrouped (variableList (if scopes.head? = some .struct then .field else .variable)
      scopes.length type name start ss).declarations := by
  apply IsGrouped.of_forall
  intro x hx
  rcases List.mem_map.1 hx with ⟨n, -, rfl⟩
  simp only
  split
  · rename_i hstruct
    -- a field stands in the braces of its group
    have hpos : 1 ≤ scopes.length := by
      cases scopes with
      | nil => simp at hstruct
      | cons => simp
    exact ⟨nofun, nofun, fun _ => hpos⟩
  · exact ⟨nofun, nofun, nofun⟩

theorem isGrouped_of_typed? (h : typed? scopes start ss = some found) :
    IsGrouped found.declarations := by
  cases ss with
  | nil => simp [typed?] at h
  | cons type rest =>
    simp only [typed?] at h
    split at h
    · split at h
      · split at h
        · split at h
          · exact isGrouped_of_function? h
          · split at h
            · simp only [Option.some.injEq] at h
              subst h
              exact isGrouped_variableList
            · simp at h
        · simp at h
      · simp at h
    · simp at h

theorem isGrouped_of_statement? (h : statement? d scopes ss = some found) :
    IsGrouped found.declarations := by
  unfold statement? at h
  split at h
  · simp at h
  · split at h
    · simp at h
    · rename_i rest _
      cases rest with
      | nil => simp [group?] at h
      | cons name rest =>
        simp only [group?, Option.some.injEq] at h
        subst h
        exact .single (by simp) (by simp) (by simp) .nil
    · exact isGrouped_of_typed? h

/-! ## All declarations -/

theorem isGrouped_declarations (d : Dialect) (st : State) (ss : List Site) :
    IsGrouped (declarations d st ss) := by
  fun_induction declarations d st ss with
  | case1 => exact .nil
  -- only here a statement is found; the other cases pass over a site
  | case6 st s rest _ _ _ _ found hfound ih =>
    have hgroup : IsGrouped found.declarations := by
      split at hfound
      · exact isGrouped_of_statement? hfound
      · simp at hfound
    exact hgroup.append ih
  | case2 | case3 | case4 | case5 | case7 => assumption

/-- The places of sites ascend. -/
theorem pairwise_index_sites (tokens : List Token) :
    (sites tokens).Pairwise fun s t => s.index < t.index := by
  have hall : tokens.zipIdx.Pairwise fun x y => x.2 < y.2 := by
    rw [← List.pairwise_map (f := Prod.snd), List.zipIdx_map_snd]
    exact List.pairwise_lt_range'
  rw [sites, List.pairwise_map]
  exact hall.filter _

end Scan

/-- The declarations that the scan finds are well formed, whatever the tokens. -/
theorem scanDeclarations_isWellFormed (d : Dialect) (tokens : List Token) :
    IsWellFormed tokens (scanDeclarations d tokens) := by
  have hsites := Scan.pairwise_index_sites tokens
  have hgrouped := Scan.isGrouped_declarations d {} (Scan.sites tokens)
  constructor
  · -- the order of the names is that of the tokens, of which they are a part
    have hnames : (Scan.names (Scan.sites tokens)).Pairwise fun x y => x.1 < y.1 := by
      rw [Scan.names, List.pairwise_map]
      exact hsites.filter _
    have hentries := hnames.sublist (Scan.entries_declarations_sublist d {} _)
    rwa [Scan.entries, List.pairwise_map] at hentries
  · intro x hx
    exact name_of_mem_scanDeclarations hx
  · intro x hx
    rcases Scan.startsIn_of_mem_declarations hx with ⟨first, name, hsublist, hstart, hname⟩
    have hpair := hsites.sublist hsublist
    rcases Scan.exists_token_of_mem_sites (hsublist.subset List.mem_cons_self) with
      ⟨t, hget, -, htrivia, -⟩
    rw [← hstart, ← hname]
    exact ⟨List.rel_of_pairwise_cons hpair List.mem_cons_self, t, hget, htrivia⟩
  · intro before x after hsplit hx
    exact hgrouped.parameters_eq hsplit hx
  · intro before p after hsplit hp
    exact hgrouped.exists_function hsplit hp
  · exact hgrouped.field_depth

end ShaderStyle
