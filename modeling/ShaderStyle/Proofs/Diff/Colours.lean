import ShaderStyle.Proofs.Diff.Hunks

/-!
# The colours of a shown difference

The colour of a shown line is chosen by the first characters of its text. For the headers, the lines
that open a hunk and the lines that are kept this is as it should be. A changed line is coloured by what
it is too, unless its mark and its own first characters together look like the mark of a header
(`IsShown.of_text`). So the colours are those of what the lines are exactly if no deleted line starts
with two minus signs and no inserted line with two plus signs (`tinted_eq_iff`).
-/

namespace ShaderStyle.Diff

variable {path source formatted : Text}

/-- The colour for what a line is: a deleted line is red, an inserted line green, any other dim. -/
def Line.tint : Line → Tint
  | deleted _ => .red
  | inserted _ => .green
  | _ => .dim

/-- Whether a changed line looks like a header: behind its mark, it starts with the mark twice more. -/
def Line.looksLikeHeader : Line → Bool
  | deleted line => ['-', '-'].isPrefixOf line
  | inserted line => ['+', '+'].isPrefixOf line
  | _ => false

/-- A shown difference: nothing, or two headers that name the file and then hunks, each a line that opens
it and lines of the two texts. -/
def IsShown (path : Text) (lines : List Line) : Prop :=
  lines = [] ∨
    ∃ groups : List (Text × List Line),
      lines = .header ("--- ".toList ++ path ++ ['\n']) ::
        .header ("+++ ".toList ++ path ++ " (formatted)\n".toList) ::
          groups.flatMap (fun g => .hunk ('@' :: g.1) :: g.2) ∧
      ∀ g ∈ groups, ∀ l ∈ g.2, l.isBody = true

/-! ## What is shown -/

theorem isBody_editLines {a b : List Text} {e : Edit} : ∀ l ∈ editLines a b e, l.isBody = true := by
  intro l hl
  unfold editLines at hl
  split at hl
  · rcases List.mem_map.1 hl with ⟨line, -, rfl⟩
    rfl
  · rcases List.mem_append.1 hl with hl | hl
    · rcases List.mem_map.1 hl with ⟨line, -, rfl⟩
      rfl
    · rcases List.mem_map.1 hl with ⟨line, -, rfl⟩
      rfl

theorem exists_hunkLine (group : List Edit) : ∃ t, hunkLine group = .hunk ('@' :: t) := by
  unfold hunkLine
  simp only [String.toList_append, List.append_assoc]
  exact ⟨_, rfl⟩

theorem isShown_compare (path source formatted : Text) :
    IsShown path (compare path source formatted) := by
  choose opening hopening using exists_hunkLine
  simp only [compare]
  split
  · exact .inl rfl
  · right
    refine ⟨(hunks (Text.lines source) (Text.lines formatted)).map fun group =>
      (opening group, group.flatMap (editLines (Text.lines source) (Text.lines formatted))), ?_, ?_⟩
    · simp only [List.flatMap_map, ← hopening]
    · intro g hg
      rcases List.mem_map.1 hg with ⟨group, -, rfl⟩
      intro l hl
      rcases List.mem_flatMap.1 hl with ⟨e, -, hl⟩
      exact isBody_editLines l hl

theorem filter_isBody_compare (path source formatted : Text) :
    (compare path source formatted).filter Line.isBody =
      (hunks (Text.lines source) (Text.lines formatted)).flatten.flatMap
        (editLines (Text.lines source) (Text.lines formatted)) := by
  have hgroups (groups : List (List Edit)) :
      (groups.flatMap fun group => hunkLine group ::
          group.flatMap (editLines (Text.lines source) (Text.lines formatted))).filter Line.isBody =
        groups.flatten.flatMap (editLines (Text.lines source) (Text.lines formatted)) := by
    induction groups with
    | nil => rfl
    | cons group groups ih =>
      rw [List.flatMap_cons, List.filter_append, ih, List.flatten_cons, List.flatMap_append]
      congr 1
      rcases exists_hunkLine group with ⟨t, ht⟩
      rw [ht, List.filter_cons_of_neg (by simp [Line.isBody]), List.filter_eq_self]
      intro l hl
      rcases List.mem_flatMap.1 hl with ⟨e, -, hl⟩
      exact isBody_editLines l hl
  simp only [compare]
  split
  · rename_i hnone
    rw [hnone]
    rfl
  · rw [List.filter_cons_of_neg (by simp [Line.isBody]),
      List.filter_cons_of_neg (by simp [Line.isBody]), hgroups]

/-! ## The colour of a line -/

theorem of_minus (line : Text) :
    Tint.of ('-' :: line) = if ['-', '-'].isPrefixOf line then .dim else .red := by
  by_cases h : ['-', '-'] <+: line
  · rcases h with ⟨rest, rfl⟩
    rfl
  · rw [if_neg (by rwa [List.isPrefixOf_iff_prefix])]
    unfold Tint.of
    split <;> simp_all

theorem of_plus (line : Text) :
    Tint.of ('+' :: line) = if ['+', '+'].isPrefixOf line then .dim else .green := by
  by_cases h : ['+', '+'] <+: line
  · rcases h with ⟨rest, rfl⟩
    rfl
  · rw [if_neg (by rwa [List.isPrefixOf_iff_prefix])]
    unfold Tint.of
    split <;> simp_all

/-- Every line is coloured by what it is, unless it looks like a header. -/
theorem IsShown.of_text {lines : List Line} (h : IsShown path lines) :
    ∀ l ∈ lines, Tint.of l.text = if l.looksLikeHeader then .dim else l.tint := by
  have hbody {l : Line} (hl : l.isBody = true) :
      Tint.of l.text = if l.looksLikeHeader then .dim else l.tint := by
    cases l with
    | header t => simp [Line.isBody] at hl
    | hunk t => simp [Line.isBody] at hl
    | kept line => rfl
    | deleted line => exact of_minus line
    | inserted line => exact of_plus line
  rcases h with rfl | ⟨groups, rfl, hgroups⟩
  · simp
  · intro l hl
    rw [List.mem_cons, List.mem_cons, List.mem_flatMap] at hl
    rcases hl with rfl | rfl | ⟨g, hg, hl⟩
    · rfl
    · rfl
    · rcases List.mem_cons.1 hl with rfl | hl
      · rfl
      · exact hbody (hgroups g hg l hl)

theorem isChange_of_looksLikeHeader {l : Line} (h : l.looksLikeHeader = true) :
    l.isChange = true ∧ l.isBody = true := by
  cases l with
  | deleted line => exact ⟨rfl, rfl⟩
  | inserted line => exact ⟨rfl, rfl⟩
  | _ => simp [Line.looksLikeHeader] at h

theorem tint_eq_iff (l : Line) :
    (if l.looksLikeHeader then .dim else l.tint) = l.tint ↔ l.looksLikeHeader = false := by
  constructor
  · intro h
    by_contra hlooks
    rw [Bool.not_eq_false] at hlooks
    rw [if_pos hlooks] at h
    cases l with
    | deleted line => simp [Line.tint] at h
    | inserted line => simp [Line.tint] at h
    | _ => simp [Line.looksLikeHeader] at hlooks
  · intro h
    rw [h, if_neg Bool.false_ne_true]

/-- What is shown comes from a script that turns one text into the other; it has all of its changes, and
every line has the colour of what it is, but that a changed line that looks like a header is dim. So the
colours are right exactly if the script has no such line, whatever the console leaves of the lines. -/
theorem tinted_eq_iff (path source formatted : Text) (kept : Text → Text) :
    ∃ script : List Line, (∀ l ∈ script, l.isBody = true) ∧
      script.filterMap Line.source? = Text.lines source ∧
      script.filterMap Line.formatted? = Text.lines formatted ∧
      IsShown path (compare path source formatted) ∧
      Shows script ((compare path source formatted).filter Line.isBody) ∧
      (tinted path source formatted kept = (compare path source formatted).map fun l =>
        (if l.looksLikeHeader then .dim else l.tint, kept (withoutEnd l.text))) ∧
      ((tinted path source formatted kept = (compare path source formatted).map fun l =>
          (l.tint, kept (withoutEnd l.text))) ↔
        ∀ l ∈ script, l.looksLikeHeader = false) := by
  have hshown := isShown_compare path source formatted
  have hshows := shows_hunks (Text.lines source) (Text.lines formatted)
  rw [← filter_isBody_compare path] at hshows
  have htinted : tinted path source formatted kept = (compare path source formatted).map fun l =>
      (if l.looksLikeHeader then .dim else l.tint, kept (withoutEnd l.text)) := by
    apply List.map_congr_left
    intro l hl
    rw [hshown.of_text l hl]
  refine ⟨script (Text.lines source) (Text.lines formatted), ?_, source_script _ _,
    formatted_script _ _, hshown, hshows, htinted, ?_⟩
  · intro l hl
    rcases List.mem_flatMap.1 hl with ⟨e, -, hl⟩
    exact isBody_editLines l hl
  · -- a line that looks like a header is a change, so it is shown if it is in the script
    have hmem {l : Line} (hlooks : l.looksLikeHeader = true) :
        l ∈ compare path source formatted ↔
          l ∈ script (Text.lines source) (Text.lines formatted) := by
      rcases isChange_of_looksLikeHeader hlooks with ⟨hchange, hbody⟩
      simpa [hbody] using hshows.mem_iff hchange
    rw [htinted, List.map_inj_left]
    constructor
    · intro hright l hl
      by_contra hlooks
      rw [Bool.not_eq_false] at hlooks
      have htint := congrArg Prod.fst (hright l ((hmem hlooks).2 hl))
      rw [(tint_eq_iff l).1 htint] at hlooks
      simp at hlooks
    · intro hnone l hl
      have hlooks : l.looksLikeHeader = false := by
        by_contra hlooks
        rw [Bool.not_eq_false] at hlooks
        rw [hnone l ((hmem hlooks).1 hl)] at hlooks
        simp at hlooks
      rw [(tint_eq_iff l).2 hlooks]

/-- A line that starts with two minus signs is deleted, and shown dim. -/
example : tinted ['f'] "--i;\n".toList "  --i;\n".toList =
    [(.dim, "--- f".toList), (.dim, "+++ f (formatted)".toList), (.dim, "@@ -1 +1 @@".toList),
      (.dim, "---i;".toList), (.green, "+  --i;".toList)] := by
  cbv

end ShaderStyle.Diff
