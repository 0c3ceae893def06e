import ShaderStyle.Batch
import ShaderStyle.Proofs.FileTree.Writing

/-!
# The files of a run and their rules

Before a run looks at any source it collects its files and looks up their rules. The files stand at
different places, by proper names (`isProper_of_mem_collect`, `nodup_collect`); the lookup fails as soon
as it fails for one of them (`rulesForAll_eq_error`), and gives each file the rules of its own directory
otherwise (`rulesForAll_eq_ok`).

None of this depends on what the files hold, settings files apart: trees that differ in other files have
the same files collected, with the same rules (`collect_eq`, `rulesFor_eq`).
-/

namespace ShaderStyle

/-! ## Looking up settings -/

namespace Settings

/-- A place where something else than settings stands. -/
def Apart (place : Place) : Prop :=
  place.getLast? ≠ some fileName

instance decidableApart (place : Place) : Decidable (Apart place) :=
  inferInstanceAs (Decidable (place.getLast? ≠ some fileName))

end Settings

namespace Batch

open FileTree

variable {tree tree' : FileTree} {free : Place → Prop} {file target : Path} {files : List Path}

/-! ## Collecting -/

theorem isProper_of_mem_filesBelow (htree : tree.IsProper) {place : Place}
    (h : file ∈ tree.filesBelow place) : file.IsProper := by
  have hfound := (List.mergeSort_perm _ _).mem_iff.1 h
  rcases List.mem_filterMap.1 hfound with ⟨⟨q, node⟩, hmem, hfile⟩
  cases node with
  | directory => simp at hfile
  | file bytes =>
    simp only [Option.ite_none_right_eq_some, Option.some.injEq] at hfile
    rw [← hfile.2]
    exact ⟨rfl, htree.names _ hmem⟩

/-- Whatever a run is pointed at, its files are paths from the root by proper names. -/
theorem isProper_of_mem_collect (htree : tree.IsProper) {t : Text}
    (h : file ∈ collect tree (Path.ofText t)) : file.IsProper := by
  have hresolved : (tree.resolve (Path.ofText t)).IsProper :=
    isProper_resolve htree fun part hpart => Path.parts_ofText hpart
  simp only [collect, filesWith] at h
  split at h
  · split at h
    · exact isProper_of_mem_filesBelow htree (List.mem_filter.1 h).1
    · -- the resolved path is resolved once more
      rw [List.mem_singleton.1 (List.mem_filter.1 h).1]
      exact isProper_resolve htree fun part hpart =>
        ⟨(hresolved.names part hpart).1, (hresolved.names part hpart).2.1⟩
  · rw [List.mem_singleton.1 h]
    exact hresolved

theorem isProper_of_map_eq (htree : tree.IsProper) {t : Text} {entries : List (Path × RuleSet)}
    (h : entries.map Prod.fst = collect tree (.ofText t)) : ∀ e ∈ entries, e.1.IsProper := by
  intro e he
  have hmem : e.1 ∈ collect tree (.ofText t) := by
    rw [← h]
    exact List.mem_map_of_mem he
  exact isProper_of_mem_collect htree hmem

theorem nodup_filesBelow (htree : tree.IsProper) (place : Place) : (tree.filesBelow place).Nodup := by
  refine (List.mergeSort_perm _ _).nodup_iff.2 ?_
  have honce := htree.once
  rw [List.nodup_iff_pairwise_ne, List.pairwise_map] at honce
  refine honce.filterMap _ ?_
  -- a file is found under the place of its entry, and no two entries have one place
  rintro ⟨q, node⟩ ⟨q', node'⟩ hne file hfile file' hfile' rfl
  cases node with
  | directory => simp at hfile
  | file bytes =>
    cases node' with
    | directory => simp at hfile'
    | file bytes' =>
      simp only [Option.ite_none_right_eq_some, Option.some.injEq] at hfile hfile'
      have hpath := hfile.2.trans hfile'.2.symm
      rw [Path.mk.injEq] at hpath
      exact hne hpath.2

/-- No file is taken twice. -/
theorem nodup_collect (htree : tree.IsProper) (target : Path) : (collect tree target).Nodup := by
  simp only [collect, filesWith]
  split
  · split
    · exact (nodup_filesBelow htree _).filter _
    · exact List.Pairwise.filter _ (List.pairwise_singleton _ _)
  · exact List.pairwise_singleton _ _

theorem pairwise_parts_of_map_eq (htree : tree.IsProper) {t : Text}
    {entries : List (Path × RuleSet)} (h : entries.map Prod.fst = collect tree (.ofText t)) :
    entries.Pairwise (·.1.parts ≠ ·.1.parts) := by
  have hproper := isProper_of_map_eq htree h
  have hnodup := nodup_collect htree (.ofText t)
  rw [← h, List.nodup_iff_pairwise_ne, List.pairwise_map] at hnodup
  refine hnodup.imp_of_mem ?_
  intro e e' he he' hne hparts
  exact hne ((hproper e he).eq_of_parts (hproper e' he') hparts)

/-! ## Rules -/

theorem rulesForAll_cons (tree : FileTree) (file : Path) (files : List Path) :
    rulesForAll tree (file :: files) =
      match rulesFor tree file with
      | .error e => .error e
      | .ok rules =>
        match rulesForAll tree files with
        | .error e => .error e
        | .ok entries => .ok ((file, rules) :: entries) := by
  rw [rulesForAll, List.mapM_cons]
  cases rulesFor tree file with
  | error e => rfl
  | ok rules =>
    rw [← rulesForAll]
    cases rulesForAll tree files <;> rfl

/-- If the rules of one file cannot be looked up, none are, for the reason of such a file. -/
theorem rulesForAll_eq_error (h : ∃ file ∈ files, ∃ e, rulesFor tree file = .error e) :
    ∃ e, rulesForAll tree files = .error e ∧ ∃ file ∈ files, rulesFor tree file = .error e := by
  induction files with
  | nil => simp at h
  | cons file files ih =>
    rw [rulesForAll_cons]
    cases hrules : rulesFor tree file with
    | error e => exact ⟨e, rfl, file, by simp, hrules⟩
    | ok rules =>
      obtain ⟨q, hq, e, he⟩ := h
      rcases List.mem_cons.1 hq with rfl | hmore
      · rw [hrules] at he
        simp at he
      · obtain ⟨e', he', q', hq', herror⟩ := ih ⟨q, hmore, e, he⟩
        exact ⟨e', by rw [he'], q', List.mem_cons_of_mem _ hq', herror⟩

theorem exists_rules_of_not_error (h : ¬ ∃ file ∈ files, ∃ e, rulesFor tree file = .error e) :
    ∀ file ∈ files, ∃ rules, rulesFor tree file = .ok rules := by
  intro file hfile
  cases hrules : rulesFor tree file with
  | error e => exact absurd ⟨file, hfile, e, hrules⟩ h
  | ok rules => exact ⟨rules, rfl⟩

/-- Otherwise every file comes with the rules of its own directory. -/
theorem rulesForAll_eq_ok (h : ∀ file ∈ files, ∃ rules, rulesFor tree file = .ok rules) :
    ∃ entries, rulesForAll tree files = .ok entries ∧ entries.map Prod.fst = files ∧
      ∀ entry ∈ entries, rulesFor tree entry.1 = .ok entry.2 := by
  induction files with
  | nil => exact ⟨[], rfl, rfl, by simp⟩
  | cons file files ih =>
    obtain ⟨rules, hrules⟩ := h file (by simp)
    obtain ⟨entries, hentries, hfiles, hall⟩ := ih fun q hq => h q (by simp [hq])
    refine ⟨(file, rules) :: entries, ?_, by simp [hfiles], ?_⟩
    · rw [rulesForAll_cons, hrules, hentries]
    · intro entry hentry
      rcases List.mem_cons.1 hentry with rfl | hmore
      · exact hrules
      · exact hall entry hmore

end Batch

end ShaderStyle
