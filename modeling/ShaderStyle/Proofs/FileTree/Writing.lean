import Mathlib.Data.List.Forall2
import ShaderStyle.Proofs.FileTree.Walking
import ShaderStyle.Proofs.Text.Utf8

/-!
# Trees that differ in some files

`SameBut free` relates two trees with the same places, where files may differ in their bytes, but only
at places that are `free`. Such trees have the same directories with the same names in them, and reading
a file tells them apart only if its place is free (`SameBut.read_eq`).

Writing a text to a file that can be read succeeds (`write_eq_of_read`) and gives a tree that is the
same but at that place (`sameBut_set`). `HasWritten` says what a tree is after texts have been written
to some files, one after the other: a step leaves what was written before (`HasWritten.write`), and each
text can be read back in the end (`HasWritten.read_eq`).
-/

namespace ShaderStyle

/-- What stands at one place of two trees: the same, or two files if the place is free. -/
def Node.Alike (free : Prop) (m n : Node) : Prop :=
  n = m ∨ free ∧ ∃ u v, m = .file u ∧ n = .file v

namespace Node.Alike

variable {free free' : Prop} {l m n : Node}

theorem trans (h : Alike free l m) (h' : Alike free' m n) : Alike (free ∨ free') l n := by
  rcases h with rfl | ⟨hfree, u, v, rfl, rfl⟩
  · rcases h' with rfl | ⟨hfree', hfiles⟩
    · exact .inl rfl
    · exact .inr ⟨.inr hfree', hfiles⟩
  · rcases h' with rfl | ⟨-, _, w, -, rfl⟩
    · exact .inr ⟨.inl hfree, u, v, rfl, rfl⟩
    · exact .inr ⟨.inl hfree, u, w, rfl, rfl⟩

theorem eq_of_not_free (h : Alike free m n) (hfree : ¬ free) : n = m := by
  rcases h with heq | ⟨hfree', -⟩
  · exact heq
  · exact absurd hfree' hfree

theorem directory_iff (h : Alike free m n) : n = .directory ↔ m = .directory := by
  rcases h with rfl | ⟨-, u, v, rfl, rfl⟩ <;> simp

end Node.Alike

namespace FileTree

/-- Entries for the same places, in the same order, where only files at free places differ. -/
def EntriesAlike (free : Place → Prop) : List (Place × Node) → List (Place × Node) → Prop :=
  List.Forall₂ fun x y => y.1 = x.1 ∧ Node.Alike (free x.1) x.2 y.2

/-- Two trees with the same places, where only files at free places differ, and only in their bytes. -/
structure SameBut (free : Place → Prop) (a b : FileTree) : Prop where
  here : b.here = a.here
  nodes : EntriesAlike free a.nodes b.nodes

variable {a b c tree : FileTree} {free free' : Place → Prop} {place q : Place} {p : Path}

/-! ## Entries -/

namespace EntriesAlike

variable {xs ys zs : List (Place × Node)}

theorem lookup (h : EntriesAlike free xs ys) (place : Place) :
    xs.lookup place = none ∧ ys.lookup place = none ∨
      ∃ m n, xs.lookup place = some m ∧ ys.lookup place = some n ∧ Node.Alike (free place) m n := by
  induction h with
  | nil => exact .inl ⟨rfl, rfl⟩
  | @cons x y xs ys hxy _ ih =>
    rcases x with ⟨_, m⟩
    rcases y with ⟨k, n⟩
    obtain ⟨rfl, halike⟩ := hxy
    rw [List.lookup_cons, List.lookup_cons]
    by_cases hk : place = k
    · subst hk
      exact .inr ⟨m, n, by simp, by simp, halike⟩
    · rw [beq_false_of_ne hk]
      exact ih

theorem trans (h : EntriesAlike free xs ys) (h' : EntriesAlike free' ys zs) :
    EntriesAlike (fun place => free place ∨ free' place) xs zs := by
  induction h generalizing zs with
  | nil =>
    cases h'
    exact .nil
  | cons hxy _ ih =>
    rcases h' with _ | ⟨hyz, hmore⟩
    refine .cons ⟨hyz.1.trans hxy.1, ?_⟩ (ih hmore)
    rw [hxy.1] at hyz
    exact hxy.2.trans hyz.2

/-- What is taken from the entries does not depend on the bytes of free files. -/
theorem filterMap_eq {α : Type} {f : Place × Node → Option α} (h : EntriesAlike free xs ys)
    (hf : ∀ place m n, Node.Alike (free place) m n → f (place, n) = f (place, m)) :
    ys.filterMap f = xs.filterMap f := by
  induction h with
  | nil => rfl
  | @cons x y xs ys hxy _ ih =>
    rcases x with ⟨_, m⟩
    rcases y with ⟨k, n⟩
    obtain ⟨rfl, halike⟩ := hxy
    rw [List.filterMap_cons, List.filterMap_cons, hf _ _ _ halike, ih]

end EntriesAlike

namespace SameBut

theorem refl (free : Place → Prop) (a : FileTree) : a.SameBut free a :=
  ⟨rfl, List.forall₂_same.2 fun _ _ => ⟨rfl, .inl rfl⟩⟩

theorem trans (h : a.SameBut free b) (h' : b.SameBut free' c) :
    a.SameBut (fun place => free place ∨ free' place) c :=
  ⟨h'.here.trans h.here, h.nodes.trans h'.nodes⟩

theorem mono (h : a.SameBut free b) (hfree : ∀ place, free place → free' place) :
    a.SameBut free' b := by
  refine ⟨h.here, h.nodes.imp ?_⟩
  rintro x y ⟨hkey, heq | ⟨hx, hfiles⟩⟩
  · exact ⟨hkey, .inl heq⟩
  · exact ⟨hkey, .inr ⟨hfree _ hx, hfiles⟩⟩

theorem keys (h : a.SameBut free b) : b.nodes.map Prod.fst = a.nodes.map Prod.fst := by
  rw [← List.filterMap_eq_map]
  exact h.nodes.filterMap_eq fun _ _ _ _ => rfl

theorem get? (h : a.SameBut free b) (place : Place) :
    a.get? place = none ∧ b.get? place = none ∨
      ∃ m n, a.get? place = some m ∧ b.get? place = some n ∧ Node.Alike (free place) m n := by
  unfold FileTree.get?
  split
  · exact .inr ⟨_, _, rfl, rfl, .inl rfl⟩
  · exact h.nodes.lookup place

theorem directory_iff (h : a.SameBut free b) :
    b.get? place = some .directory ↔ a.get? place = some .directory := by
  rcases h.get? place with ⟨ha, hb⟩ | ⟨m, n, ha, hb, halike⟩
  · rw [ha, hb]
  · rw [ha, hb, Option.some.injEq, Option.some.injEq, halike.directory_iff]

end SameBut

/-! ## Following names -/

/-- What two searches come to: the same error, or the same place with something alike. -/
def FoundAlike (free : Place → Prop) (x y : Except OpenProblem (Place × Node)) : Prop :=
  (∃ problem, x = .error problem ∧ y = .error problem) ∨
    ∃ place m n, x = .ok (place, m) ∧ y = .ok (place, n) ∧ Node.Alike (free place) m n

namespace SameBut

theorem walk (h : a.SameBut free b) (place : Place) (parts : List Text) :
    FoundAlike free (a.walk place parts) (b.walk place parts) := by
  induction parts generalizing place with
  | nil =>
    unfold FileTree.walk
    rcases h.get? place with ⟨ha, hb⟩ | ⟨m, n, ha, hb, halike⟩
    · rw [ha, hb]
      exact .inl ⟨_, rfl, rfl⟩
    · rw [ha, hb]
      exact .inr ⟨_, _, _, rfl, rfl, halike⟩
  | cons part parts ih =>
    unfold FileTree.walk
    rcases h.get? place with ⟨ha, hb⟩ | ⟨m, n, ha, hb, halike⟩
    · rw [ha, hb]
      exact .inl ⟨_, rfl, rfl⟩
    · rw [ha, hb]
      rcases halike with rfl | ⟨-, u, v, rfl, rfl⟩
      · cases n with
        | file bytes => exact .inl ⟨_, rfl, rfl⟩
        | directory => exact ih _
      · exact .inl ⟨_, rfl, rfl⟩

theorem find (h : a.SameBut free b) (t : Text) : FoundAlike free (a.find t) (b.find t) := by
  unfold FileTree.find
  split
  · exact .inl ⟨_, rfl, rfl⟩
  · rw [spelled, spelled, h.here]
    simp only
    rcases h.walk (if t.head? = some '/' then [] else a.here)
      ((Text.split '/' t).filter (· ≠ [])) with ⟨problem, ha, hb⟩ | ⟨place, m, n, ha, hb, halike⟩
    · rw [ha, hb]
      exact .inl ⟨_, rfl, rfl⟩
    · rw [ha, hb]
      rcases halike with rfl | ⟨hfree, u, v, rfl, rfl⟩
      · cases n with
        | file bytes =>
          simp only
          split
          · exact .inl ⟨_, rfl, rfl⟩
          · exact .inr ⟨_, _, _, rfl, rfl, .inl rfl⟩
        | directory => exact .inr ⟨_, _, _, rfl, rfl, .inl rfl⟩
      · -- a text that asks for a directory finds neither of the two files
        simp only
        split
        · exact .inl ⟨_, rfl, rfl⟩
        · exact .inr ⟨_, _, _, rfl, rfl, .inr ⟨hfree, u, v, rfl, rfl⟩⟩

theorem isDirectory (h : a.SameBut free b) (p : Path) : b.isDirectory p = a.isDirectory p := by
  unfold FileTree.isDirectory
  rcases h.find p.toText with ⟨problem, ha, hb⟩ | ⟨place, m, n, ha, hb, halike⟩
  · rw [ha, hb]
  · rw [ha, hb]
    rcases halike with rfl | ⟨-, u, v, rfl, rfl⟩ <;> rfl

theorem list (h : a.SameBut free b) (p : Path) : b.list p = a.list p := by
  unfold FileTree.list
  rcases h.find p.toText with ⟨problem, ha, hb⟩ | ⟨place, m, n, ha, hb, halike⟩
  · rw [ha, hb]
  · rw [ha, hb]
    rcases halike with rfl | ⟨-, u, v, rfl, rfl⟩
    · cases n with
      | file bytes => rfl
      | directory =>
        simp only
        rw [h.nodes.filterMap_eq fun _ _ _ _ => rfl]
    · rfl

theorem resolve (h : a.SameBut free b) (p : Path) : b.resolve p = a.resolve p := by
  rw [FileTree.resolve, FileTree.resolve, h.here]

theorem filesBelow (h : a.SameBut free b) (place : Place) : b.filesBelow place = a.filesBelow place := by
  unfold FileTree.filesBelow
  simp only
  rw [h.nodes.filterMap_eq]
  rintro q m n (rfl | ⟨-, u, v, rfl, rfl⟩) <;> rfl

theorem filesWith (h : a.SameBut free b) (extensions : List String) (p : Path) :
    b.filesWith extensions p = a.filesWith extensions p := by
  simp only [FileTree.filesWith, h.resolve, h.isDirectory, h.filesBelow]

/-- A file is read alike unless its place is free. -/
theorem read_eq (h : a.SameBut free b) (hp : p.IsProper) (hfree : ¬ free p.parts) :
    b.read p.toText = a.read p.toText := by
  have hfind : b.find p.toText = a.find p.toText := by
    rcases h.find p.toText with ⟨problem, ha, hb⟩ | ⟨place, m, n, ha, hb, halike⟩
    · rw [ha, hb]
    · -- what is found stands at the place that the path spells
      have hplace : place = p.parts := by
        rw [find_toText a hp, walk_eq_ok_iff hp.names] at ha
        exact ha.1
      rw [ha, hb, halike.eq_of_not_free (by rwa [hplace])]
  rw [FileTree.read, FileTree.readBytes, hfind]
  rfl

end SameBut

/-! ## Reading -/

/-- A file can be read exactly if directories lead to it and its bytes are those of a text. -/
theorem read_eq_ok_iff (hp : p.IsProper) {source : Text} :
    tree.read p.toText = .ok source ↔
      ∃ bytes, tree.get? p.parts = some (.file bytes) ∧ Text.Utf8.decode bytes = .ok source ∧
        ∀ n < p.parts.length, tree.get? (p.parts.take n) = some .directory := by
  constructor
  · intro hread
    rw [read, readBytes] at hread
    cases hfind : tree.find p.toText with
    | error problem => simp [hfind] at hread
    | ok found =>
      rcases found with ⟨place, bytes | _⟩
      · rw [hfind] at hread
        simp only at hread
        rw [find_toText tree hp, walk_eq_ok_iff hp.names, List.nil_append] at hfind
        obtain ⟨rfl, hget, hpassed⟩ := hfind
        refine ⟨bytes, hget, ?_, hpassed⟩
        cases hdecode : Text.Utf8.decode bytes with
        | error fault => simp [hdecode] at hread
        | ok content => simpa [hdecode] using hread
      · simp [hfind] at hread
  · rintro ⟨bytes, hget, hdecode, hpassed⟩
    have hfind : tree.find p.toText = .ok (p.parts, .file bytes) := by
      rw [find_toText tree hp, walk_eq_ok_iff hp.names]
      exact ⟨rfl, hget, hpassed⟩
    simp only [read, readBytes, hfind, hdecode]

/-! ## Writing -/

theorem lookup_map_set (nodes : List (Place × Node)) (place q : Place) (node : Node) :
    (nodes.map fun (p, old) => (p, if p = place then node else old)).lookup q =
      (nodes.lookup q).map fun old => if q = place then node else old := by
  induction nodes with
  | nil => rfl
  | cons x nodes ih =>
    rcases x with ⟨k, old⟩
    rw [List.map_cons, List.lookup_cons, List.lookup_cons, ih]
    by_cases hk : q = k
    · subst hk
      simp
    · rw [beq_false_of_ne hk]

section

variable {bytes : List UInt8}

theorem lookup_of_get? (h : tree.get? place = some (.file bytes)) :
    place ≠ [] ∧ tree.nodes.lookup place = some (.file bytes) := by
  unfold get? at h
  split at h
  · simp at h
  · exact ⟨‹_›, h⟩

theorem set_of_get? (h : tree.get? place = some (.file bytes)) (node : Node) :
    tree.set place node =
      { tree with nodes := tree.nodes.map fun (p, old) => (p, if p = place then node else old) } := by
  rw [set, (lookup_of_get? h).2]
  rfl

theorem get?_set (h : tree.get? place = some (.file bytes)) (node : Node) (q : Place) :
    (tree.set place node).get? q = if q = place then some node else tree.get? q := by
  obtain ⟨hne, hlookup⟩ := lookup_of_get? h
  rw [set_of_get? h, get?, lookup_map_set]
  by_cases hq : q = place
  · subst hq
    rw [if_neg hne, hlookup, if_pos rfl, Option.map_some, if_pos rfl]
  · rw [if_neg hq, get?]
    simp [hq]

theorem lookup_of_mem {nodes : List (Place × Node)} (honce : (nodes.map Prod.fst).Nodup) {k : Place}
    {node : Node} (h : (k, node) ∈ nodes) : nodes.lookup k = some node := by
  induction nodes with
  | nil => simp at h
  | cons x nodes ih =>
    rw [List.map_cons, List.nodup_cons] at honce
    rw [List.lookup_cons]
    rcases List.mem_cons.1 h with rfl | hmem
    · simp
    · have hk : k ≠ x.1 := by
        rintro rfl
        exact honce.1 (List.mem_map.2 ⟨_, hmem, rfl⟩)
      rw [beq_false_of_ne hk]
      exact ih honce.2 hmem

/-- A file put in the place of another changes nothing else. -/
theorem sameBut_set (honce : (tree.nodes.map Prod.fst).Nodup)
    (h : tree.get? place = some (.file bytes)) (new : List UInt8) :
    tree.SameBut (· = place) (tree.set place (.file new)) := by
  rw [set_of_get? h]
  refine ⟨rfl, ?_⟩
  simp only [EntriesAlike]
  rw [List.forall₂_map_right_iff, List.forall₂_same]
  rintro ⟨k, old⟩ hmem
  refine ⟨rfl, ?_⟩
  by_cases hk : k = place
  · -- the only entry for the place is the file that was there
    subst hk
    have hold := lookup_of_mem honce hmem
    rw [(lookup_of_get? h).2, Option.some.injEq] at hold
    exact .inr ⟨rfl, bytes, new, hold.symm, if_pos rfl⟩
  · exact .inl (if_neg hk)

/-- A file can be written at its place if directories lead to it. -/
theorem writable_of_get? (hp : p.IsProper) (hget : tree.get? p.parts = some (.file bytes))
    (hpassed : ∀ n < p.parts.length, tree.get? (p.parts.take n) = some .directory) :
    tree.writable p.toText = .ok p.parts := by
  have hparts := (lookup_of_get? hget).1
  obtain ⟨anchor, parts⟩ := p
  obtain rfl : anchor = .root := hp.root
  obtain ⟨before, name, rfl⟩ : ∃ before name, parts = before ++ [name] :=
    ⟨_, _, (List.dropLast_append_getLast hparts).symm⟩
  have hname : name.IsName := hp.names name (by simp)
  -- the new text goes by its name into the directory that the other names lead to
  have hbefore : tree.walk [] before = .ok (before, .directory) := by
    rw [walk_eq_ok_iff fun q hq => hp.names q (List.mem_append_left _ hq)]
    refine ⟨rfl, by simpa using hpassed before.length (by simp), ?_⟩
    intro n hn
    have hn' := hpassed n (by simp; omega)
    rwa [List.take_append_of_le_length (by omega)] at hn'
  have hdots : (name = ['.'] || name = ['.', '.'] ||
      asksForDirectory (Path.toText ⟨.root, before ++ [name]⟩)) = false := by
    rw [asksForDirectory_toText hp hparts]
    simp [hname.2.2.1, hname.2.2.2]
  rw [writable, if_neg (by simp [Path.toText_root]), spelled_toText tree hp]
  simp only [List.getLast?_concat, List.dropLast_concat, hbefore, hdots, hget, Bool.false_eq_true,
    if_false]

/-- A file that can be read can be written. -/
theorem write_eq_of_read (hp : p.IsProper) {source : Text} (h : tree.read p.toText = .ok source)
    (content : Text) :
    tree.write p.toText content =
      .ok (tree.set p.parts (.file (Text.Utf8.encode content))) := by
  obtain ⟨bytes, hget, -, hpassed⟩ := (read_eq_ok_iff hp).1 h
  rw [write, writable_of_get? hp hget hpassed]

end

/-! ## Writing one file after the other -/

/-- How a tree is after texts have been written to some files; for each of them the text is given, or
none if it was left alone. -/
structure HasWritten (tree : FileTree) (files : List (Path × Option Text)) (after : FileTree) :
    Prop where
  same : tree.SameBut (fun place => ∃ f ∈ files, f.1.parts = place) after
  written : ∀ f ∈ files, ∀ text, f.2 = some text →
    after.get? f.1.parts = some (.file (Text.Utf8.encode text))
  kept : ∀ place, (∀ f ∈ files, f.1.parts = place → f.2 = none) → after.get? place = tree.get? place

namespace HasWritten

variable {files : List (Path × Option Text)} {after : FileTree}

theorem nil (tree : FileTree) : tree.HasWritten [] tree :=
  ⟨.refl _ tree, by simp, fun _ _ => rfl⟩

theorem skip (h : tree.HasWritten files after) (p : Path) :
    tree.HasWritten (files ++ [(p, none)]) after := by
  refine ⟨h.same.mono ?_, ?_, ?_⟩
  · rintro place ⟨f, hf, hplace⟩
    exact ⟨f, List.mem_append_left _ hf, hplace⟩
  · intro f hf text htext
    rcases List.mem_append.1 hf with hf | hf
    · exact h.written f hf text htext
    · rw [List.mem_singleton.1 hf] at htext
      simp at htext
  · intro place hnone
    exact h.kept place fun f hf => hnone f (List.mem_append_left _ hf)

/-- One more file is written, at a place that is none of the others. -/
theorem write (h : tree.HasWritten files after) (htree : tree.IsProper)
    (hnew : ∀ f ∈ files, f.1.parts ≠ p.parts) {bytes : List UInt8}
    (hget : after.get? p.parts = some (.file bytes)) (text : Text) :
    tree.HasWritten (files ++ [(p, some text)])
      (after.set p.parts (.file (Text.Utf8.encode text))) := by
  have honce : (after.nodes.map Prod.fst).Nodup := by
    rw [h.same.keys]
    exact htree.once
  refine ⟨(h.same.trans (sameBut_set honce hget _)).mono ?_, ?_, ?_⟩
  · rintro place (⟨f, hf, hplace⟩ | rfl)
    · exact ⟨f, List.mem_append_left _ hf, hplace⟩
    · exact ⟨(p, some text), by simp, rfl⟩
  · intro f hf content hcontent
    rw [get?_set hget]
    rcases List.mem_append.1 hf with hf | hf
    · rw [if_neg (hnew f hf)]
      exact h.written f hf content hcontent
    · rw [List.mem_singleton.1 hf] at hcontent ⊢
      rw [if_pos rfl, ← Option.some.inj hcontent]
  · intro place hnone
    -- at the place of `p` itself a text has been written
    have hplace : place ≠ p.parts := by
      rintro rfl
      have := hnone (p, some text) (by simp) rfl
      simp at this
    rw [get?_set hget, if_neg hplace]
    exact h.kept place fun f hf => hnone f (List.mem_append_left _ hf)

/-- A text that was written is read back. -/
theorem read_eq (h : tree.HasWritten files after) (hp : p.IsProper) {source text : Text}
    (hread : tree.read p.toText = .ok source) (hmem : (p, some text) ∈ files) :
    after.read p.toText = .ok text := by
  obtain ⟨_, -, -, hpassed⟩ := (read_eq_ok_iff hp).1 hread
  refine (read_eq_ok_iff hp).2 ⟨_, h.written _ hmem text rfl, Text.Utf8.decode_encode text, ?_⟩
  intro n hn
  exact h.same.directory_iff.2 (hpassed n hn)

end HasWritten

end FileTree

end ShaderStyle
