import ShaderStyle.FileTree
import ShaderStyle.Proofs.Text.Split

/-!
# Proper names

In a proper file tree every place stands once, and the names that lead to it are neither empty nor dots
and hold no slash. A path of such names can be spelled and read back, and following it leads to the
place of these very names:

* `spelled_toText`: the parts of the text of a path are the parts of the path.
* `find_toText`: what stands where the text leads is found by walking from the root.
* `walk_eq_ok_iff`: the walk ends at the place, with what stands there, behind directories only.
* `isProper_resolve`: whatever a path is made of, resolved it is a path of proper names.
-/

namespace ShaderStyle

/-- A name that an entry of a directory can have. -/
def Text.IsName (t : Text) : Prop :=
  t ≠ [] ∧ '/' ∉ t ∧ t ≠ ['.'] ∧ t ≠ ['.', '.']

instance decidableIsName (t : Text) : Decidable t.IsName :=
  inferInstanceAs (Decidable (_ ∧ _))

/-- All names that lead to a place are proper. -/
def Place.IsProper (place : Place) : Prop :=
  ∀ name ∈ place, Text.IsName name

instance decidablePlaceIsProper (place : Place) : Decidable place.IsProper :=
  inferInstanceAs (Decidable (∀ name ∈ place, Text.IsName name))

/-- A path from the root by proper names. -/
structure Path.IsProper (p : Path) : Prop where
  root : p.anchor = .root
  names : Place.IsProper p.parts

/-- A tree is a finite map: every place has one entry at most, and its names are proper. -/
structure FileTree.IsProper (tree : FileTree) : Prop where
  here : tree.here.IsProper
  names : ∀ entry ∈ tree.nodes, entry.1.IsProper
  once : (tree.nodes.map Prod.fst).Nodup

instance decidableTreeIsProper (tree : FileTree) : Decidable tree.IsProper :=
  decidable_of_iff (tree.here.IsProper ∧ (∀ entry ∈ tree.nodes, entry.1.IsProper) ∧
      (tree.nodes.map Prod.fst).Nodup)
    ⟨fun h => ⟨h.1, h.2.1, h.2.2⟩, fun h => ⟨h.here, h.names, h.once⟩⟩

namespace Path

variable {parts : List Text}

theorem toText_root (parts : List Text) :
    toText ⟨.root, parts⟩ = '/' :: ['/'].intercalate parts := rfl

theorem parts_ofText {t part : Text} (h : part ∈ (ofText t).parts) : part ≠ [] ∧ '/' ∉ part := by
  rw [ofText, List.mem_filter] at h
  refine ⟨?_, Text.not_mem_of_mem_split h.1⟩
  intro hnil
  simp [hnil] at h

theorem IsProper.eq_of_parts {p q : Path} (hp : p.IsProper) (hq : q.IsProper)
    (h : p.parts = q.parts) : p = q := by
  rw [Path.mk.injEq]
  exact ⟨hp.root.trans hq.root.symm, h⟩

theorem IsProper.parent {p : Path} (h : p.IsProper) : p.parent.IsProper :=
  ⟨h.root, fun name hname => h.names name (List.dropLast_subset _ hname)⟩

theorem IsProper.child {p : Path} {name : Text} (h : p.IsProper) (hname : name.IsName) :
    (p.child name).IsProper := by
  refine ⟨h.root, ?_⟩
  intro part hpart
  rcases List.mem_append.1 hpart with hpart | hpart
  · exact h.names part hpart
  · rw [List.mem_singleton.1 hpart]
    exact hname

end Path

namespace FileTree

variable {tree : FileTree} {place : Place} {parts : List Text}

/-! ## Spelling -/

/-- The text of a path starts at the root and is made of the parts of the path. -/
theorem spelled_toText (tree : FileTree) {p : Path} (h : p.IsProper) :
    tree.spelled p.toText = ([], p.parts) := by
  obtain ⟨anchor, parts⟩ := p
  obtain rfl : anchor = .root := h.root
  have hfilter : parts.filter (fun part => decide (part ≠ [])) = parts :=
    List.filter_eq_self.2 fun part hpart => by simpa using (h.names part hpart).1
  rw [Path.toText_root, spelled, List.head?_cons, if_pos rfl, Text.split, if_pos rfl,
    List.filter_cons_of_neg (by simp)]
  -- the root alone is spelled by a slash, between two empty parts
  by_cases hnil : parts = []
  · subst hnil
    rfl
  · rw [Text.split_intercalate hnil fun part hpart => (h.names part hpart).2.1, hfilter]

theorem asksForDirectory_toText {p : Path} (h : p.IsProper) (hne : p.parts ≠ []) :
    asksForDirectory p.toText = false := by
  obtain ⟨anchor, parts⟩ := p
  obtain rfl : anchor = .root := h.root
  obtain ⟨before, last, hparts, hlast⟩ := Text.exists_intercalate_concat hne fun part hpart =>
    ⟨(h.names part hpart).1, (h.names part hpart).2.1⟩
  rw [asksForDirectory, Path.toText_root, hparts, ← List.cons_append, List.getLast?_concat]
  simpa using hlast

/-! ## Walking -/

theorem step_of_isName {name : Text} (h : name.IsName) (place : Place) :
    step place name = place ++ [name] := by
  rw [step, if_neg h.2.2.1, if_neg h.2.2.2]

/-- A walk by proper names ends at the place that they spell, with what stands there, and passes
directories only. -/
theorem walk_eq_ok_iff (h : Place.IsProper parts) {q : Place} {node : Node} :
    tree.walk place parts = .ok (q, node) ↔
      q = place ++ parts ∧ tree.get? q = some node ∧
        ∀ n < parts.length, tree.get? (place ++ parts.take n) = some .directory := by
  induction parts generalizing place with
  | nil =>
    rw [walk, List.append_nil]
    constructor
    · intro hwalk
      split at hwalk
      · simp at hwalk
      · simp_all
    · rintro ⟨rfl, hnode, -⟩
      rw [hnode]
  | cons part parts ih =>
    have hmore : Place.IsProper parts := fun name hname => h name (by simp [hname])
    rw [walk, step_of_isName (h part (by simp))]
    constructor
    · intro hwalk
      split at hwalk
      · simp at hwalk
      · simp at hwalk
      · -- the walk passes `place`, which is a directory, and goes on one name further
        rename_i hdirectory
        obtain ⟨rfl, hnode, hpassed⟩ := (ih hmore).1 hwalk
        rw [List.append_assoc, List.singleton_append] at hnode ⊢
        refine ⟨rfl, hnode, ?_⟩
        intro n hn
        cases n with
        | zero => simpa using hdirectory
        | succ n =>
          have hn' := hpassed n (by simpa using hn)
          rwa [List.append_assoc, List.singleton_append] at hn'
    · rintro ⟨rfl, hnode, hpassed⟩
      have hdirectory : tree.get? place = some .directory := by simpa using hpassed 0 (by simp)
      rw [hdirectory]
      refine (ih hmore).2 ⟨by simp, hnode, ?_⟩
      intro n hn
      have hn' := hpassed (n + 1) (by simpa using hn)
      rwa [List.take_succ_cons, ← List.singleton_append, ← List.append_assoc] at hn'

/-- What stands where the text of a path leads is found by walking from the root. -/
theorem find_toText (tree : FileTree) {p : Path} (h : p.IsProper) :
    tree.find p.toText = tree.walk [] p.parts := by
  have hne : p.toText ≠ [] := by
    obtain ⟨anchor, parts⟩ := p
    obtain rfl : anchor = .root := h.root
    simp [Path.toText_root]
  rw [find, if_neg hne, spelled_toText tree h]
  simp only
  split
  · -- a file is not at the root, so the text does not end in a slash
    rename_i place bytes hfound
    have hparts : p.parts ≠ [] := by
      intro hnil
      rw [hnil, walk, get?, if_pos rfl] at hfound
      simp at hfound
    rw [asksForDirectory_toText h hparts, if_neg (by simp), hfound]
  · rfl

/-! ## Resolved paths -/

theorem isProper_step {part : Text} (hplace : place.IsProper) (hpart : part ≠ [] ∧ '/' ∉ part) :
    Place.IsProper (step place part) := by
  unfold step
  split
  · exact hplace
  split
  · exact fun name hname => hplace name (List.dropLast_subset _ hname)
  · rename_i hdot hdots
    intro name hname
    rcases List.mem_append.1 hname with hname | hname
    · exact hplace name hname
    · rw [List.mem_singleton.1 hname]
      exact ⟨hpart.1, hpart.2, hdot, hdots⟩

theorem isProper_foldl_step (hplace : place.IsProper)
    (hparts : ∀ part ∈ parts, part ≠ [] ∧ '/' ∉ part) : Place.IsProper (parts.foldl step place) := by
  induction parts generalizing place with
  | nil => exact hplace
  | cons part parts ih =>
    apply ih
    · exact isProper_step hplace (hparts part (by simp))
    · intro q hq
      exact hparts q (by simp [hq])

/-- Whatever a path is made of, resolved it is a path from the root by proper names. -/
theorem isProper_resolve (htree : tree.IsProper) {p : Path}
    (hparts : ∀ part ∈ p.parts, part ≠ [] ∧ '/' ∉ part) : (tree.resolve p).IsProper := by
  refine ⟨rfl, isProper_foldl_step ?_ hparts⟩
  split
  · exact htree.here
  · exact fun name hname => absurd hname List.not_mem_nil

end FileTree

end ShaderStyle
