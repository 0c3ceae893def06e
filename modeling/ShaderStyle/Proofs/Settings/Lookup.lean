import Mathlib.Data.Nat.Find
import Mathlib.Logic.Function.Iterate
import ShaderStyle.Proofs.FileTree.Walking
import ShaderStyle.Settings.Lookup

/-!
# The walk to the settings file

A lookup goes up from directory to parent, and ends at the first directory that contains a settings
file, is the last one to be searched, or has no parent (`EndsAt`). What is found there (`Yields`) is
the result, whatever stands further up. `lookup_iterate` follows the walk for any number of steps:
`lookup_isNearest` reads off from it which directories are listed, that no other file matters, and
that a lookup from any directory on the way has the same result.
-/

namespace ShaderStyle

namespace Path

variable {p : Path}

/-! ## Directories above a path -/

/-- The directories above a path are its parent and those above the parent. -/
theorem parents_eq (h : p.parts ≠ []) : p.parents = p.parent :: p.parent.parents := by
  rcases List.eq_nil_or_concat p.parts with hnil | ⟨parts, last, hparts⟩
  · exact absurd hnil h
  · rw [List.concat_eq_append] at hparts
    have hparent : p.parent = ⟨p.anchor, parts⟩ := by rw [parent, hparts, List.dropLast_concat]
    rw [hparent, parents, parents, hparts, List.length_append, List.length_singleton,
      List.range_succ, List.reverse_concat, List.map_cons, List.take_left]
    refine congrArg _ (List.map_congr_left ?_)
    intro n hn
    have hshort : n < parts.length := by simpa using hn
    rw [List.take_append_of_le_length (Nat.le_of_lt hshort)]

theorem parents_of_parts_eq_nil (h : p.parts = []) : p.parents = [] := by
  rw [parents, h]
  rfl

theorem length_parts_iterate_parent (p : Path) (n : Nat) :
    (parent^[n] p).parts.length = p.parts.length - n := by
  induction n with
  | zero => rfl
  | succ n ih =>
    rw [Function.iterate_succ_apply', parent, List.length_dropLast, ih]
    omega

/-- The parts of a path that a text can spell. -/
def IsSpelled (p : Path) : Prop :=
  ∀ part ∈ p.parts, part ≠ [] ∧ part ≠ ['.'] ∧ '/' ∉ part

theorem isSpelled_ofText (t : Text) : (ofText t).IsSpelled := by
  intro part hpart
  have hkept := (List.mem_filter.1 hpart).2
  refine ⟨(parts_ofText hpart).1, ?_, (parts_ofText hpart).2⟩
  rintro rfl
  exact absurd hkept (by decide)

theorem IsSpelled.iterate_parent (h : p.IsSpelled) (n : Nat) : (parent^[n] p).IsSpelled := by
  induction n with
  | zero => exact h
  | succ n ih =>
    rw [Function.iterate_succ_apply']
    intro part hpart
    exact ih part (List.dropLast_subset _ hpart)

/-- Slashes in front of a text change the anchor of its path only. -/
theorem ofText_slashes (n : Nat) (t : Text) :
    ofText (List.replicate n '/' ++ t) =
      ⟨anchorOf (n + Text.leading (· = '/') t), (ofText t).parts⟩ := by
  induction n with
  | zero => rw [Nat.zero_add]; rfl
  | succ n ih =>
    rw [ofText, Path.mk.injEq] at ih
    have hleading : Text.leading (· = '/') (List.replicate (n + 1) '/' ++ t) =
        n + 1 + Text.leading (· = '/') t := by
      simp [Text.leading, List.takeWhile_append_of_pos]
    rw [ofText, hleading, Path.mk.injEq]
    refine ⟨rfl, ?_⟩
    rw [← ih.2, List.replicate_succ, List.cons_append, Text.split, if_pos rfl]
    rfl

theorem IsSpelled.parts_ofText_intercalate (h : p.IsSpelled) :
    (ofText (['/'].intercalate p.parts)).parts = p.parts := by
  have hkept : p.parts.filter (fun part => part ≠ [] && part ≠ ['.']) = p.parts := by
    refine List.filter_eq_self.2 ?_
    intro part hpart
    simp [(h part hpart).1, (h part hpart).2.1]
  rw [ofText]
  by_cases hnil : p.parts = []
  · rw [hnil]
    rfl
  · rw [Text.split_intercalate hnil fun part hpart => (h part hpart).2.2, hkept]

theorem IsSpelled.leading_intercalate (h : p.IsSpelled) :
    Text.leading (· = '/') (['/'].intercalate p.parts) = 0 := by
  rcases hparts : p.parts with _ | ⟨_ | ⟨c, part⟩, more⟩
  · rfl
  · exact absurd rfl (h [] (by rw [hparts]; exact List.mem_cons_self)).1
  · have hslash := (h (c :: part) (by rw [hparts]; exact List.mem_cons_self)).2.2
    have hc : c ≠ '/' := fun hc => hslash (hc ▸ List.mem_cons_self)
    rw [Text.intercalate_cons, List.cons_append, Text.leading, List.takeWhile_cons,
      if_neg (by simpa using hc)]
    rfl

/-- The text of a path spells the path. -/
theorem IsSpelled.ofText_toText (h : p.IsSpelled) : ofText p.toText = p := by
  have hslashes (n : Nat) : ofText (List.replicate n '/' ++ ['/'].intercalate p.parts) =
      ⟨anchorOf n, p.parts⟩ := by
    rw [ofText_slashes, h.leading_intercalate, h.parts_ofText_intercalate, Nat.add_zero]
  obtain ⟨anchor, parts⟩ := p
  cases anchor with
  | root => exact hslashes 1
  | doubleRoot => exact hslashes 2
  | here =>
    -- a path without parts is spelled by a dot
    rcases parts with _ | ⟨_ | ⟨c, part⟩, more⟩
    · rfl
    · exact absurd rfl (h [] List.mem_cons_self).1
    · have htext : toText ⟨.here, (c :: part) :: more⟩ =
          ['/'].intercalate ((c :: part) :: more) := by
        rw [toText, Text.intercalate_cons]
        rfl
      rw [htext]
      exact hslashes 0

end Path

namespace Settings

variable {s s' : Source} {last : Option Path} {start : Path}

/-- A walk up from some directory ends here. -/
def EndsAt (s : Source) (last : Option Path) (p : Path) : Prop :=
  fileName ∈ s.list p ∨ some p = last ∨ p.parts = []

/-- What comes of a lookup that ends in a directory. -/
inductive Yields (s : Source) (p : Path) : Except SettingsError Found → Prop where
  | defaults (absent : fileName ∉ s.list p) : Yields s p (.ok ⟨{}, none⟩)
  | rules {text : Text} {rules : RuleSet} (present : fileName ∈ s.list p)
      (read : s.read (p.child fileName) = .ok text) (accepted : RuleSet.ofText text = .ok rules) :
      Yields s p (.ok ⟨rules, some (p.child fileName)⟩)
  | refused {text : Text} {cause : SettingsCause} (present : fileName ∈ s.list p)
      (read : s.read (p.child fileName) = .ok text) (refused : RuleSet.ofText text = .error cause) :
      Yields s p (.error ⟨cause, some (String.ofList (p.child fileName).toText)⟩)
  | unreadable {reason : String} (present : fileName ∈ s.list p)
      (read : s.read (p.child fileName) = .error reason) :
      Yields s p (.error ⟨.unreadable reason, some (String.ofList (p.child fileName).toText)⟩)

/-! ## One step -/

theorem candidates_eq (last : Option Path) (p : Path) :
    candidates p last =
      p :: if some p = last ∨ p.parts = [] then [] else candidates p.parent last := by
  rw [candidates, upTo]
  by_cases hlast : some p = last
  · rw [if_pos hlast, if_pos (.inl hlast)]
  · rw [if_neg hlast]
    by_cases htop : p.parts = []
    · rw [if_pos (.inr htop), Path.parents_of_parts_eq_nil htop]
      rfl
    · rw [if_neg (not_or.2 ⟨hlast, htop⟩), Path.parents_eq htop]
      rfl

theorem search_of_mem {p : Path} {above : List Path} (h : fileName ∈ s.list p) :
    search s (p :: above) = ⟨[p], load s (p.child fileName)⟩ := by
  rw [search, if_pos (List.contains_iff_mem.2 h)]

theorem search_of_not_mem_head {p : Path} {above : List Path} (h : fileName ∉ s.list p) :
    search s (p :: above) = ⟨p :: (search s above).listed, (search s above).result⟩ := by
  rw [search, if_neg (mt List.contains_iff_mem.1 h)]

/-- Where the walk ends, only this directory is looked at. -/
theorem lookup_of_endsAt {p : Path} (h : EndsAt s last p) : lookup s p last = search s [p] := by
  rw [lookup, candidates_eq]
  by_cases hmem : fileName ∈ s.list p
  · rw [search_of_mem hmem, search_of_mem hmem]
  · rw [if_pos (h.resolve_left hmem)]

/-- Where the walk goes on, the lookup is that from the parent. -/
theorem lookup_of_not_endsAt {p : Path} (h : ¬ EndsAt s last p) :
    lookup s p last =
      ⟨p :: (lookup s p.parent last).listed, (lookup s p.parent last).result⟩ := by
  rw [EndsAt, not_or] at h
  rw [lookup, candidates_eq, if_neg h.2, search_of_not_mem_head h.1]
  rfl

theorem listed_search_singleton (s : Source) (p : Path) : (search s [p]).listed = [p] := by
  by_cases hmem : fileName ∈ s.list p
  · rw [search_of_mem hmem]
  · rw [search_of_not_mem_head hmem]
    rfl

/-- What the settings file of a directory comes to. -/
theorem yields_load {p : Path} (hmem : fileName ∈ s.list p) :
    Yields s p (load s (p.child fileName)) := by
  cases hread : s.read (p.child fileName) with
  | error reason =>
    have hload : load s (p.child fileName) =
        .error ⟨.unreadable reason, some (String.ofList (p.child fileName).toText)⟩ := by
      rw [load, hread]
    rw [hload]
    exact .unreadable hmem hread
  | ok text =>
    cases hrules : RuleSet.ofText text with
    | error cause =>
      have hload : load s (p.child fileName) =
          .error ⟨cause, some (String.ofList (p.child fileName).toText)⟩ := by
        simp only [load, hread, hrules]
      rw [hload]
      exact .refused hmem hread hrules
    | ok rules =>
      have hload : load s (p.child fileName) = .ok ⟨rules, some (p.child fileName)⟩ := by
        simp only [load, hread, hrules]
      rw [hload]
      exact .rules hmem hread hrules

theorem yields_search_singleton (s : Source) (p : Path) : Yields s p (search s [p]).result := by
  by_cases hmem : fileName ∈ s.list p
  · rw [search_of_mem hmem]
    exact yields_load hmem
  · rw [search_of_not_mem_head hmem]
    exact .defaults hmem

/-! ## The whole walk -/

/-- As long as the walk goes on, the lookup is that from the directory it has come to, with those
that it has left in front. -/
theorem lookup_iterate {n : Nat} (h : ∀ i < n, ¬ EndsAt s last (Path.parent^[i] start)) :
    lookup s start last =
      ⟨(List.range n).map (Path.parent^[·] start) ++ (lookup s (Path.parent^[n] start) last).listed,
        (lookup s (Path.parent^[n] start) last).result⟩ := by
  induction n with
  | zero => rfl
  | succ n ih =>
    rw [ih fun i hi => h i (by omega), lookup_of_not_endsAt (h n (by omega)),
      Function.iterate_succ_apply', List.range_succ, List.map_append, List.append_assoc]
    rfl

/-- Every walk ends, at the latest where there is no parent. -/
theorem exists_endsAt (s : Source) (last : Option Path) (start : Path) :
    ∃ n, (∀ i < n, ¬ EndsAt s last (Path.parent^[i] start)) ∧
      EndsAt s last (Path.parent^[n] start) := by
  classical
  have hex : ∃ n, EndsAt s last (Path.parent^[n] start) := by
    refine ⟨start.parts.length, .inr (.inr (List.length_eq_zero_iff.1 ?_))⟩
    rw [Path.length_parts_iterate_parent, Nat.sub_self]
  exact ⟨Nat.find hex, fun i hi => Nat.find_min hex hi, Nat.find_spec hex⟩

theorem lookup_eq {n : Nat} (h : ∀ i < n, ¬ EndsAt s last (Path.parent^[i] start))
    (hend : EndsAt s last (Path.parent^[n] start)) :
    lookup s start last =
      ⟨(List.range (n + 1)).map (Path.parent^[·] start),
        (search s [Path.parent^[n] start]).result⟩ := by
  rw [lookup_iterate h, lookup_of_endsAt hend, listed_search_singleton, List.range_succ,
    List.map_append]
  rfl

theorem search_singleton_congr {p : Path} (hlist : s'.list p = s.list p)
    (hread : fileName ∈ s.list p → s'.read (p.child fileName) = s.read (p.child fileName)) :
    search s' [p] = search s [p] := by
  by_cases hmem : fileName ∈ s.list p
  · rw [search_of_mem hmem, search_of_mem (hlist ▸ hmem), load, load, hread hmem]
  · rw [search_of_not_mem_head hmem, search_of_not_mem_head (hlist ▸ hmem)]
    rfl

/-- The settings for a directory are those of the nearest settings file. -/
theorem lookup_isNearest (s : Source) (start : Text) (last : Option Text) :
    let top := last.map Path.ofText
    let directory := fun i => Path.parent^[i] (Path.ofText start)
    let found := lookup s (Path.ofText start) top
    ∃ n, (∀ i < n, ¬ EndsAt s top (directory i)) ∧ EndsAt s top (directory n) ∧
      found.listed = (List.range (n + 1)).map directory ∧
      Yields s (directory n) found.result ∧
      (∀ s' : Source, (∀ i ≤ n, s'.list (directory i) = s.list (directory i)) →
        (fileName ∈ s.list (directory n) →
          s'.read ((directory n).child fileName) = s.read ((directory n).child fileName)) →
        lookup s' (Path.ofText start) top = found) ∧
      ∀ i ≤ n, lookup s (Path.ofText (directory i).toText) top =
        ⟨found.listed.drop i, found.result⟩ := by
  intro top directory found
  rcases exists_endsAt s top (Path.ofText start) with ⟨n, hup, hend⟩
  have hfound : found = ⟨(List.range (n + 1)).map directory, (search s [directory n]).result⟩ :=
    lookup_eq hup hend
  refine ⟨n, hup, hend, by rw [hfound], ?_, ?_, ?_⟩
  · rw [hfound]
    exact yields_search_singleton s (directory n)
  · intro s' hlist hread
    -- where the walk ends depends on the listings only
    have hends (i : Nat) (hi : i ≤ n) :
        EndsAt s' top (directory i) ↔ EndsAt s top (directory i) := by
      rw [EndsAt, EndsAt, hlist i hi]
    have hup' : ∀ i < n, ¬ EndsAt s' top (directory i) :=
      fun i hi h => hup i hi ((hends i (Nat.le_of_lt hi)).1 h)
    rw [hfound, lookup_eq hup' ((hends n le_rfl).2 hend),
      search_singleton_congr (hlist n le_rfl) hread]
  · intro i hi
    have hspelled := (Path.isSpelled_ofText start).iterate_parent i
    rw [hspelled.ofText_toText]
    have hfrom : found = _ := lookup_iterate fun j hj => hup j (Nat.lt_of_lt_of_le hj hi)
    rw [hfrom, List.drop_left' (by simp)]

end Settings

end ShaderStyle
