import ShaderStyle.Diff
import ShaderStyle.Proofs.Diff.Matching

/-!
# Hunks show every change

The edits between the common runs of two texts turn the one into the other (`isEditing_edits`), and so
the lines of all edits are a script for it (`source_script`, `formatted_script`). The hunks leave out
lines of the script that are kept, and no line that changes (`shows_hunks`): cutting unchanged lines
before, behind and between changes does each do so (`Shows`).
-/

namespace ShaderStyle.Diff

variable {a b : List Text}

/-! ## Scripts -/

namespace Line

/-- The line of the first text that is shown. -/
def source? : Line → Option Text
  | kept line | deleted line => some line
  | _ => none

/-- The line of the second text that is shown. -/
def formatted? : Line → Option Text
  | kept line | inserted line => some line
  | _ => none

/-- Whether the line shows a change. -/
def isChange : Line → Bool
  | deleted _ | inserted _ => true
  | _ => false

/-- Whether the line shows a line of one of the texts. -/
def isBody : Line → Bool
  | header _ | hunk _ => false
  | _ => true

end Line

/-- What is shown of a script: some of its lines, in order, and all that change. -/
structure Shows (script shown : List Line) : Prop where
  lines : shown.Sublist script
  changes : shown.filter Line.isChange = script.filter Line.isChange

theorem Shows.refl (script : List Line) : Shows script script :=
  ⟨.refl _, rfl⟩

theorem Shows.trans {xs ys zs : List Line} (h : Shows xs ys) (h' : Shows ys zs) : Shows xs zs :=
  ⟨h'.lines.trans h.lines, h'.changes.trans h.changes⟩

theorem Shows.append {xs xs' ys ys' : List Line} (h : Shows xs ys) (h' : Shows xs' ys') :
    Shows (xs ++ xs') (ys ++ ys') :=
  ⟨h.lines.append h'.lines, by rw [List.filter_append, List.filter_append, h.changes, h'.changes]⟩

/-- A line that changes is shown exactly if it is in the script. -/
theorem Shows.mem_iff {xs ys : List Line} (h : Shows xs ys) {l : Line} (hl : l.isChange = true) :
    l ∈ ys ↔ l ∈ xs := by
  have hchanges : l ∈ ys.filter Line.isChange ↔ l ∈ xs.filter Line.isChange := by rw [h.changes]
  simpa [hl] using hchanges

/-- Lines that are kept may be left out. -/
theorem shows_kept {xs ys : List Text} (h : ys.Sublist xs) :
    Shows (xs.map Line.kept) (ys.map Line.kept) := by
  have hnone (zs : List Text) : (zs.map Line.kept).filter Line.isChange = [] := by
    simp [Line.isChange]
  exact ⟨h.map _, by rw [hnone, hnone]⟩

/-! ## Slices -/

theorem slice_append {lines : List Text} {i j k : Nat} (hij : i ≤ j) (hjk : j ≤ k) :
    slice lines i j ++ slice lines j k = slice lines i k := by
  unfold slice
  rw [show k - i = (j - i) + (k - j) by omega, List.take_add, List.drop_drop,
    Nat.add_sub_cancel' hij]

theorem slice_append_drop {lines : List Text} {i j : Nat} (hij : i ≤ j) :
    slice lines i j ++ lines.drop j = lines.drop i := by
  rw [slice, ← Nat.add_sub_cancel' hij, ← List.drop_drop, Nat.add_sub_cancel_left,
    List.take_append_drop]

theorem slice_sublist_of_le {lines : List Text} {i j k : Nat} (hij : i ≤ j) :
    (slice lines j k).Sublist (slice lines i k) := by
  rcases Nat.le_total j k with hjk | hkj
  · rw [← slice_append hij hjk]
    exact List.sublist_append_right _ _
  · rw [slice, Nat.sub_eq_zero_of_le hkj, List.take_zero]
    exact List.nil_sublist _

theorem slice_sublist_of_ge {lines : List Text} {i j k : Nat} (hjk : j ≤ k) :
    (slice lines i j).Sublist (slice lines i k) := by
  unfold slice
  exact (List.take_prefix_take_left (by omega)).sublist

/-- The lines of a run are the same slice of both texts. -/
theorem slice_eq_of_lines {i j n : Nat} (h : ∀ k < n, a[i + k]? = b[j + k]?) :
    slice a i (i + n) = slice b j (j + n) := by
  apply List.ext_getElem?
  intro k
  rw [slice, slice, Nat.add_sub_cancel_left, Nat.add_sub_cancel_left, List.getElem?_take,
    List.getElem?_take, List.getElem?_drop, List.getElem?_drop]
  split
  · rename_i hk
    exact h k hk
  · rfl

/-! ## Edits -/

/-- Edits that turn what is left of one text from a line on into what is left of the other. -/
inductive IsEditing (a b : List Text) : Nat → Nat → List Edit → Prop
  | nil : IsEditing a b a.length b.length []
  | cons {e : Edit} {more : List Edit} (hfirst : e.firstLow ≤ e.firstHigh)
      (hsecond : e.secondLow ≤ e.secondHigh)
      (hequal : e.change = .equal →
        slice a e.firstLow e.firstHigh = slice b e.secondLow e.secondHigh)
      (hmore : IsEditing a b e.firstHigh e.secondHigh more) :
      IsEditing a b e.firstLow e.secondLow (e :: more)

theorem isEditing_editBetween {i j m n : Nat} {more : List Edit} (hi : i ≤ m) (hj : j ≤ n)
    (hmore : IsEditing a b m n more) : IsEditing a b i j (editBetween i m j n ++ more) := by
  unfold editBetween
  split
  · exact .cons (e := ⟨.replace, i, m, j, n⟩) hi hj (by simp) hmore
  · split
    · exact .cons (e := ⟨.delete, i, m, j, n⟩) hi hj (by simp) hmore
    · split
      · exact .cons (e := ⟨.insert, i, m, j, n⟩) hi hj (by simp) hmore
      · -- nothing lies between the runs
        rename_i hboth hfirst hsecond
        obtain rfl : i = m := by omega
        obtain rfl : j = n := by omega
        exact hmore

theorem isEditing_editsFrom {i j : Nat} {runs : List Run}
    (h : AreCommon a b a.length b.length i j runs) :
    IsEditing a b i j (editsFrom a.length b.length i j runs) := by
  induction h with
  | nil hi hj => simpa [editsFrom] using isEditing_editBetween hi hj .nil
  | @cons i j r rs hi hj hlines _ ih =>
    apply isEditing_editBetween hi hj
    exact .cons (e := ⟨.equal, r.first, r.first + r.length, r.second, r.second + r.length⟩)
      (Nat.le_add_right _ _) (Nat.le_add_right _ _) (fun _ => slice_eq_of_lines hlines) ih

/-- The edits of two texts turn the one into the other. -/
theorem isEditing_edits (a b : List Text) : IsEditing a b 0 0 (edits a b) :=
  isEditing_editsFrom (areCommon_commonRuns a b)

section Marked

variable {f : Line → Option Text} {mark : Text → Line}

theorem filterMap_map_some (h : f ∘ mark = some) (xs : List Text) :
    (xs.map mark).filterMap f = xs := by
  rw [List.filterMap_map, h, List.filterMap_some]

theorem filterMap_map_none (h : f ∘ mark = fun _ => none) (xs : List Text) :
    (xs.map mark).filterMap f = [] := by
  rw [List.filterMap_map, h]
  exact List.filterMap_eq_nil_iff.2 fun _ _ => rfl

end Marked

theorem source_editLines (e : Edit) :
    (editLines a b e).filterMap Line.source? = slice a e.firstLow e.firstHigh := by
  unfold editLines
  split
  · exact filterMap_map_some rfl _
  · rw [List.filterMap_append, filterMap_map_some rfl, filterMap_map_none rfl, List.append_nil]

theorem formatted_editLines {e : Edit}
    (h : e.change = .equal → slice a e.firstLow e.firstHigh = slice b e.secondLow e.secondHigh) :
    (editLines a b e).filterMap Line.formatted? = slice b e.secondLow e.secondHigh := by
  unfold editLines
  split
  · rename_i hequal
    rw [filterMap_map_some rfl, h hequal]
  · rw [List.filterMap_append, filterMap_map_none rfl, filterMap_map_some rfl, List.nil_append]

theorem IsEditing.source {i j : Nat} {es : List Edit} (h : IsEditing a b i j es) :
    (es.flatMap (editLines a b)).filterMap Line.source? = a.drop i := by
  induction h with
  | nil => simp
  | cons hfirst _ _ _ ih =>
    rw [List.flatMap_cons, List.filterMap_append, source_editLines, ih, slice_append_drop hfirst]

theorem IsEditing.formatted {i j : Nat} {es : List Edit} (h : IsEditing a b i j es) :
    (es.flatMap (editLines a b)).filterMap Line.formatted? = b.drop j := by
  induction h with
  | nil => simp
  | cons _ hsecond hequal _ ih =>
    rw [List.flatMap_cons, List.filterMap_append, formatted_editLines hequal, ih,
      slice_append_drop hsecond]

/-- The lines of all edits: how one text turns into another, with every line that is kept. -/
def script (a b : List Text) : List Line :=
  (edits a b).flatMap (editLines a b)

theorem source_script (a b : List Text) : (script a b).filterMap Line.source? = a := by
  simpa [script] using (isEditing_edits a b).source

theorem formatted_script (a b : List Text) : (script a b).filterMap Line.formatted? = b := by
  simpa [script] using (isEditing_edits a b).formatted

/-! ## Cutting unchanged lines -/

theorem editLines_equal {e : Edit} (h : e.change = .equal) :
    editLines a b e = (slice a e.firstLow e.firstHigh).map Line.kept := by
  rw [editLines, h]

theorem shows_lastLines {e : Edit} (h : e.change = .equal) :
    Shows (editLines a b e) (editLines a b e.lastLines) := by
  have hlast : e.lastLines.change = .equal := h
  rw [editLines_equal h, editLines_equal hlast]
  exact shows_kept (slice_sublist_of_le (Nat.le_max_left _ _))

theorem shows_firstLines {e : Edit} (h : e.change = .equal) :
    Shows (editLines a b e) (editLines a b e.firstLines) := by
  have hfirst : e.firstLines.change = .equal := h
  rw [editLines_equal h, editLines_equal hfirst]
  exact shows_kept (slice_sublist_of_ge (Nat.min_le_left _ _))

/-- Of many unchanged lines, the first and the last ones may be shown apart. -/
theorem shows_bothEnds {e : Edit} (h : e.change = .equal)
    (hmany : 2 * context < e.firstHigh - e.firstLow) :
    Shows (editLines a b e) (editLines a b e.firstLines ++ editLines a b e.lastLines) := by
  have hfirst : e.firstLines.change = .equal := h
  have hlast : e.lastLines.change = .equal := h
  rw [editLines_equal h, editLines_equal hfirst, editLines_equal hlast, ← List.map_append]
  apply shows_kept
  have hlow : e.firstLow ≤ e.firstLines.firstHigh := by
    simp only [Edit.firstLines]
    omega
  have hhigh : e.firstLines.firstHigh ≤ e.firstHigh := Nat.min_le_left _ _
  have hapart : e.firstLines.firstHigh ≤ e.lastLines.firstLow := by
    simp only [Edit.firstLines, Edit.lastLines]
    omega
  change (slice a e.firstLow e.firstLines.firstHigh ++
    slice a e.lastLines.firstLow e.firstHigh).Sublist (slice a e.firstLow e.firstHigh)
  rw [← slice_append hlow hhigh]
  exact (List.Sublist.refl _).append (slice_sublist_of_le hapart)

theorem shows_trimStart (es : List Edit) :
    Shows (es.flatMap (editLines a b)) ((trimStart es).flatMap (editLines a b)) := by
  cases es with
  | nil => exact .refl _
  | cons e more =>
    rw [trimStart, List.flatMap_cons, List.flatMap_cons]
    apply Shows.append _ (.refl _)
    split
    · rename_i hequal
      exact shows_lastLines hequal
    · exact .refl _

theorem shows_trimEnd (es : List Edit) :
    Shows (es.flatMap (editLines a b)) ((trimEnd es).flatMap (editLines a b)) := by
  induction es with
  | nil => exact .refl _
  | cons e more ih =>
    cases more with
    | nil =>
      rw [trimEnd, List.flatMap_singleton, List.flatMap_singleton]
      split
      · rename_i hequal
        exact shows_firstLines hequal
      · exact .refl _
    | cons e' more =>
      rw [trimEnd, List.flatMap_cons, List.flatMap_cons]
      · exact .append (.refl _) ih
      · simp

theorem shows_isUnchanged {group : List Edit} (h : isUnchanged group = true) :
    Shows (group.flatMap (editLines a b)) [] := by
  unfold isUnchanged at h
  split at h
  · exact .refl _
  · rw [decide_eq_true_eq] at h
    rw [List.flatMap_singleton, editLines_equal h]
    exact shows_kept (List.nil_sublist _)
  · simp at h

theorem shows_divide (group es : List Edit) :
    Shows ((group ++ es).flatMap (editLines a b))
      ((divide group es).flatten.flatMap (editLines a b)) := by
  induction es generalizing group with
  | nil =>
    rw [List.append_nil, divide]
    split
    · rename_i hunchanged
      exact shows_isUnchanged hunchanged
    · rw [List.flatten_singleton]
      exact .refl _
  | cons e more ih =>
    rw [divide]
    split
    · rename_i hdivides
      rw [Bool.and_eq_true, decide_eq_true_eq, decide_eq_true_eq] at hdivides
      -- the next hunk starts with the last of the unchanged lines
      have hmore := ih [e.lastLines]
      rw [List.flatMap_append, List.flatMap_singleton] at hmore
      have hends := (shows_bothEnds (a := a) (b := b) hdivides.1 hdivides.2).append
        (.refl (more.flatMap (editLines a b)))
      rw [List.append_assoc] at hends
      rw [List.flatten_cons, List.flatMap_append, List.flatMap_append, List.flatMap_append,
        List.flatMap_cons, List.flatMap_singleton, List.append_assoc]
      exact .append (.refl _) (hends.trans (.append (.refl _) hmore))
    · have hmore := ih (group ++ [e])
      rwa [List.append_assoc, List.singleton_append] at hmore

/-- The hunks show everything that changes, and otherwise only lines that are kept. -/
theorem shows_hunks (a b : List Text) :
    Shows (script a b) ((hunks a b).flatten.flatMap (editLines a b)) := by
  have hstart := shows_trimStart (a := a) (b := b) (edits a b)
  have hend := shows_trimEnd (a := a) (b := b) (trimStart (edits a b))
  have hdivided := shows_divide (a := a) (b := b) [] (trimEnd (trimStart (edits a b)))
  rw [List.nil_append] at hdivided
  exact hstart.trans (hend.trans hdivided)

end ShaderStyle.Diff
