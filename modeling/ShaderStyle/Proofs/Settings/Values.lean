import Mathlib.Data.List.Perm.Subperm
import Mathlib.Logic.Function.Basic
import ShaderStyle.Settings.Entries

/-!
# Values of rules

Every rule has a setting of its own type (`RuleKey.Setting`), and a rule set holds one for each
(`RuleSet.setting`). What a decoded value means for a rule is said here without the readers
(`RuleKey.Means`): truth values and numbers mean themselves, words mean what they name, and a list
means the categories that it names, in a fixed order.

`set_eq_ok_iff`: a rule is set exactly if the value means something for it; then the rule has that
setting, and all others are as before.
-/

namespace ShaderStyle

/-! ## What values mean -/

/-- The word for a style of indentation. -/
def Indentation.word : Indentation → String
  | .tab => "Tab"
  | .twoSpaces => "TwoSpaces"
  | .fourSpaces => "FourSpaces"

/-- The word for a place of opening braces. -/
def BracePlacement.word : BracePlacement → String
  | .sameLine => "After"
  | .ownLine => "Before"

/-- The text may start names: ASCII characters, at least one, none of them blank. -/
def IsNameStart (t : Text) : Prop :=
  t ≠ [] ∧ ∀ c ∈ t, c.toNat < 128 ∧ Text.isBlank c = false

/-- The items name the categories, which are listed in their fixed order. -/
def ListsCategories (items : List Value) (cs : List NameCategory) : Prop :=
  (∀ item ∈ items, ∃ c : NameCategory, item = .text c.name) ∧
    cs.Sublist NameCategory.all ∧ ∀ c, c ∈ cs ↔ .text c.name ∈ items

/-- What a rule is set to. -/
def RuleKey.Setting : RuleKey → Type
  | .indentation => Indentation
  | .openBrace => BracePlacement
  | .maxEmptyLines => Nat
  | .spacesInBrackets | .indentDirectives | .nestConditionals => Bool
  | .functionDocs | .structDocs | .fieldDocs => Option Bool
  | .variableCase | .functionCase | .structCase | .localVariableCase => Option CaseStyle
  | .boolPrefix | .intPrefix | .floatPrefix | .globalPrefix => Option Text
  | .forcedEnding => Option LineEnding
  | .stripped => List NameCategory

/-- What a rule set has for a rule. -/
def RuleSet.setting (r : RuleSet) : (k : RuleKey) → k.Setting
  | .indentation => r.indentation
  | .openBrace => r.openBrace
  | .maxEmptyLines => r.maxEmptyLines
  | .spacesInBrackets => r.spacesInBrackets
  | .indentDirectives => r.indentDirectives
  | .nestConditionals => r.nestConditionals
  | .functionDocs => r.functionDocs
  | .structDocs => r.structDocs
  | .fieldDocs => r.fieldDocs
  | .variableCase => r.variableCase
  | .functionCase => r.functionCase
  | .structCase => r.structCase
  | .localVariableCase => r.localVariableCase
  | .boolPrefix => r.boolPrefix
  | .intPrefix => r.intPrefix
  | .floatPrefix => r.floatPrefix
  | .globalPrefix => r.globalPrefix
  | .forcedEnding => r.forcedEnding
  | .stripped => r.stripped

/-- The value, given for the rule, means the setting. -/
def RuleKey.Means (v : Value) : (k : RuleKey) → k.Setting → Prop
  | .indentation, x => v = .text (Indentation.word x)
  | .openBrace, x => v = .text (BracePlacement.word x)
  | .maxEmptyLines, x => v = .integer (Int.ofNat x)
  | .spacesInBrackets, x | .indentDirectives, x | .nestConditionals, x => v = .boolean x
  | .functionDocs, x | .structDocs, x | .fieldDocs, x => ∃ b, x = some b ∧ v = .boolean b
  | .variableCase, x | .functionCase, x | .structCase, x | .localVariableCase, x =>
    ∃ s, x = some s ∧ v = .text (CaseStyle.name s)
  | .boolPrefix, x | .intPrefix, x | .floatPrefix, x | .globalPrefix, x =>
    ∃ t, x = some t ∧ v = .text (String.ofList t) ∧ IsNameStart t
  | .forcedEnding, x => ∃ e, x = some e ∧ v = .text (String.ofList (LineEnding.text e))
  | .stripped, x => ∃ items, v = .list items ∧ ListsCategories items x

/-! ## Rule sets as families of settings -/

namespace RuleSet

/-- The rule set with the given settings. -/
def ofSettings (f : (k : RuleKey) → k.Setting) : RuleSet where
  indentation := f .indentation
  openBrace := f .openBrace
  maxEmptyLines := f .maxEmptyLines
  spacesInBrackets := f .spacesInBrackets
  indentDirectives := f .indentDirectives
  nestConditionals := f .nestConditionals
  functionDocs := f .functionDocs
  structDocs := f .structDocs
  fieldDocs := f .fieldDocs
  variableCase := f .variableCase
  functionCase := f .functionCase
  structCase := f .structCase
  localVariableCase := f .localVariableCase
  boolPrefix := f .boolPrefix
  intPrefix := f .intPrefix
  floatPrefix := f .floatPrefix
  globalPrefix := f .globalPrefix
  forcedEnding := f .forcedEnding
  stripped := f .stripped

@[simp] theorem setting_ofSettings (f : (k : RuleKey) → k.Setting) : (ofSettings f).setting = f := by
  funext k
  cases k <;> rfl

@[simp] theorem ofSettings_setting (r : RuleSet) : ofSettings r.setting = r := rfl

theorem ext_setting {r r' : RuleSet} (h : ∀ k, r.setting k = r'.setting k) : r = r' := by
  rw [← ofSettings_setting r, ← ofSettings_setting r', funext h]

/-- The rule set with one setting changed. -/
def put (r : RuleSet) (k : RuleKey) (x : k.Setting) : RuleSet :=
  ofSettings (Function.update r.setting k x)

theorem put_eq_iff {r r' : RuleSet} {k : RuleKey} {x : k.Setting} :
    r.put k x = r' ↔ r'.setting k = x ∧ ∀ k', k' ≠ k → r'.setting k' = r.setting k' := by
  constructor
  · rintro rfl
    rw [put, setting_ofSettings]
    exact ⟨Function.update_self .., fun k' hk' => Function.update_of_ne hk' ..⟩
  · rintro ⟨hself, hother⟩
    apply ext_setting
    intro k'
    rw [put, setting_ofSettings]
    by_cases hk' : k' = k
    · subst hk'
      rw [Function.update_self, hself]
    · rw [Function.update_of_ne hk', hother k' hk']

end RuleSet

/-! ## Reading values -/

namespace Value

variable {v : Value} {key : String}

theorem choice_eq_ok_iff {α : Type} {members : List α} (name : α → String) {m : α}
    (hmem : ∀ m, m ∈ members) (hname : ∀ m m', name m = name m' → m = m') :
    choice members name key v = .ok m ↔ v = .text (name m) := by
  cases v with
  | text s =>
    simp only [choice, text.injEq]
    split
    · rename_i m' hfind
      have hm' : name m' = s := by simpa using List.find?_some hfind
      rw [Except.ok.injEq, ← hm']
      exact ⟨fun h => h ▸ rfl, hname m' m⟩
    · rename_i hnone
      have hnot := List.find?_eq_none.1 hnone m (hmem m)
      simp only [reduceCtorEq, false_iff]
      rintro rfl
      simp at hnot
  | _ => simp [choice]

theorem indentation_eq_ok_iff {x : Indentation} :
    v.indentation key = .ok x ↔ v = .text x.word :=
  choice_eq_ok_iff Indentation.word (by intro m; cases m <;> simp)
    (by intro m m'; cases m <;> cases m' <;> simp [Indentation.word])

theorem openBrace_eq_ok_iff {x : BracePlacement} : v.openBrace key = .ok x ↔ v = .text x.word :=
  choice_eq_ok_iff BracePlacement.word (by intro m; cases m <;> simp)
    (by intro m m'; cases m <;> cases m' <;> simp [BracePlacement.word])

theorem caseStyle_eq_ok_iff {s : CaseStyle} : v.caseStyle key = .ok s ↔ v = .text s.name :=
  choice_eq_ok_iff CaseStyle.name (by intro m; cases m <;> simp [CaseStyle.all])
    (by intro m m'; cases m <;> cases m' <;> simp [CaseStyle.name])

theorem category_eq_ok_iff (key : String) {c : NameCategory} :
    choice NameCategory.all NameCategory.name key v = .ok c ↔ v = .text c.name :=
  choice_eq_ok_iff NameCategory.name (by intro m; cases m <;> simp [NameCategory.all])
    (by intro m m'; cases m <;> cases m' <;> simp [NameCategory.name])

theorem flag_eq_ok_iff {b : Bool} : v.flag key = .ok b ↔ v = .boolean b := by
  cases v <;> simp [flag]

theorem count_eq_ok_iff {n : Nat} : v.count key = .ok n ↔ v = .integer n := by
  cases v with
  | integer i =>
    simp only [count, integer.injEq]
    split
    · simp only [reduceCtorEq, false_iff]
      omega
    · rw [Except.ok.injEq]
      omega
  | _ => simp [count]

theorem nameStart_eq_ok_iff {t : Text} :
    v.nameStart key = .ok t ↔ v = .text (String.ofList t) ∧ IsNameStart t := by
  cases v with
  | text s =>
    have hs : s = String.ofList t ↔ s.toList = t := by
      constructor
      · rintro rfl
        exact String.toList_ofList
      · rintro rfl
        exact String.ofList_toList.symm
    simp only [nameStart, text.injEq, hs, IsNameStart]
    split
    · rename_i hempty
      simp only [reduceCtorEq, false_iff]
      rintro ⟨rfl, hne, -⟩
      exact hne hempty
    · rename_i hne
      split
      · rename_i hall
        rw [Except.ok.injEq]
        constructor
        · rintro rfl
          exact ⟨rfl, hne, by simpa using hall⟩
        · exact fun h => h.1
      · rename_i hall
        simp only [reduceCtorEq, false_iff]
        rintro ⟨rfl, -, hfit⟩
        exact hall (by simpa using hfit)
  | _ => simp [nameStart]

theorem lineEnding_eq_ok_iff {e : LineEnding} :
    v.lineEnding key = .ok e ↔ v = .text (String.ofList e.text) := by
  cases v with
  | text s =>
    simp only [lineEnding, text.injEq]
    split
    · rename_i e' hfind
      have he' : e'.text = s.toList := by simpa using List.find?_some hfind
      have hs : s = String.ofList e'.text := by rw [he', String.ofList_toList]
      rw [Except.ok.injEq, hs, String.ofList_inj]
      constructor
      · rintro rfl
        rfl
      · cases e <;> cases e' <;> simp [LineEnding.text]
    · rename_i hnone
      simp only [reduceCtorEq, false_iff]
      rintro rfl
      have hnot := List.find?_eq_none.1 hnone e (by cases e <;> simp)
      simp [String.toList_ofList] at hnot
  | _ => simp [lineEnding]

/-- Values are read as categories exactly if each names one. -/
theorem mapM_category_eq_ok_iff {items : List Value} {cs : List NameCategory} :
    items.mapM (choice NameCategory.all NameCategory.name key) = .ok cs ↔
      items = cs.map fun c => .text c.name := by
  induction items generalizing cs with
  | nil => cases cs <;> simp [pure, Except.pure]
  | cons item items ih =>
    rw [List.mapM_cons]
    cases hitem : choice NameCategory.all NameCategory.name key item with
    | error e =>
      have hnot (c : NameCategory) : item ≠ .text c.name := by
        intro hc
        rw [(category_eq_ok_iff key).2 hc] at hitem
        cases hitem
      cases cs <;> simp [bind, Except.bind, hnot]
    | ok c =>
      rw [category_eq_ok_iff] at hitem
      have hname (c' : NameCategory) : item = .text c'.name ↔ c = c' := by
        rw [← category_eq_ok_iff key, (category_eq_ok_iff key).2 hitem, Except.ok.injEq]
      have hmore (cs : List NameCategory) := @ih cs
      cases hitems : items.mapM (choice NameCategory.all NameCategory.name key) with
      | error e =>
        simp only [hitems, reduceCtorEq, false_iff] at hmore
        cases cs <;> simp [bind, Except.bind, hmore]
      | ok cs' =>
        simp only [hitems, Except.ok.injEq] at hmore
        cases cs with
        | nil => simp [bind, Except.bind, pure, Except.pure]
        | cons c' cs =>
          simp [bind, Except.bind, pure, Except.pure, hname, ← hmore]

/-- A list of categories in their fixed order holds each category at most once, in that order. -/
theorem eq_filter_of_sublist {cs : List NameCategory} {p : NameCategory → Bool}
    (hcs : cs.Sublist NameCategory.all) (h : ∀ c, c ∈ cs ↔ p c = true) :
    cs = NameCategory.all.filter p := by
  have hnodup : NameCategory.all.Nodup := by decide
  have hself : cs.filter p = cs := List.filter_eq_self.2 fun c hc => (h c).1 hc
  have hsub : cs.Sublist (NameCategory.all.filter p) := hself ▸ hcs.filter p
  apply hsub.eq_of_length_le
  apply (List.subperm_of_subset (hnodup.filter p) _).length_le
  intro c hc
  exact (h c).2 (List.mem_filter.1 hc).2

/-- Items that each name a category are the names of some list of categories. -/
theorem exists_names {items : List Value}
    (h : ∀ item ∈ items, ∃ c : NameCategory, item = .text c.name) :
    ∃ cs : List NameCategory, items = cs.map fun c => .text c.name := by
  induction items with
  | nil => exact ⟨[], rfl⟩
  | cons item items ih =>
    rw [List.forall_mem_cons] at h
    obtain ⟨c, rfl⟩ := h.1
    obtain ⟨cs, rfl⟩ := ih h.2
    exact ⟨c :: cs, rfl⟩

theorem name_mem_names {c : NameCategory} {cs : List NameCategory} :
    .text c.name ∈ cs.map (fun c => Value.text c.name) ↔ c ∈ cs := by
  rw [List.mem_map]
  constructor
  · rintro ⟨c', hc', heq⟩
    rw [← category_eq_ok_iff "", (category_eq_ok_iff "").2 rfl, Except.ok.injEq] at heq
    exact heq ▸ hc'
  · exact fun hc => ⟨c, hc, rfl⟩

theorem categories_eq_ok_iff {cs : List NameCategory} :
    v.categories key = .ok cs ↔ ∃ items, v = .list items ∧ ListsCategories items cs := by
  cases v with
  | list items =>
    have hread : (list items).categories key = .ok cs ↔
        ∃ given, items.mapM (choice NameCategory.all NameCategory.name key) = .ok given ∧
          NameCategory.all.filter given.contains = cs := by
      simp only [categories]
      cases items.mapM (choice NameCategory.all NameCategory.name key) <;>
        simp [bind, Except.bind, pure, Except.pure]
    -- the order in which they are named is lost, so the names of any such list will do
    simp only [hread, mapM_category_eq_ok_iff, list.injEq, exists_eq_left']
    constructor
    · rintro ⟨given, rfl, rfl⟩
      refine ⟨?_, List.filter_sublist, ?_⟩
      · intro item hitem
        obtain ⟨c, -, rfl⟩ := List.mem_map.1 hitem
        exact ⟨c, rfl⟩
      · intro c
        rw [name_mem_names]
        cases c <;> simp [NameCategory.all]
    · rintro ⟨hall, hsorted, hmem⟩
      obtain ⟨given, rfl⟩ := exists_names hall
      refine ⟨given, rfl, (eq_filter_of_sublist hsorted ?_).symm⟩
      intro c
      rw [hmem, name_mem_names, List.contains_iff_mem]
  | _ => simp [categories]

end Value

/-! ## Setting rules -/

namespace RuleSet

variable {α : Type} {e : Except SettingsCause α} {P : α → Prop} {r' : RuleSet}

theorem exists_iff_read (h : ∀ x, e = .ok x ↔ P x) {f : α → RuleSet} :
    (∃ x, P x ∧ f x = r') ↔ (e >>= fun x => pure (f x)) = .ok r' := by
  simp only [← h]
  cases e <;> simp [bind, Except.bind, pure, Except.pure]

theorem exists_some_iff_read (h : ∀ x, e = .ok x ↔ P x) {f : Option α → RuleSet} :
    (∃ x, (∃ y, x = some y ∧ P y) ∧ f x = r') ↔
      (e >>= fun x => pure (f (some x))) = .ok r' := by
  rw [← exists_iff_read h]
  constructor
  · rintro ⟨_, ⟨y, rfl, hy⟩, hf⟩
    exact ⟨y, hy, hf⟩
  · rintro ⟨y, hy, hf⟩
    exact ⟨some y, ⟨y, rfl, hy⟩, hf⟩

/-- A rule is set exactly to what the value means for it. -/
theorem set_eq_ok_iff {r : RuleSet} {k : RuleKey} {key : String} {v : Value} :
    r.set k key v = .ok r' ↔ ∃ x, k.Means v x ∧ r.put k x = r' := by
  symm
  cases k with
  | indentation => exact exists_iff_read fun _ => Value.indentation_eq_ok_iff
  | openBrace => exact exists_iff_read fun _ => Value.openBrace_eq_ok_iff
  | maxEmptyLines => exact exists_iff_read fun _ => Value.count_eq_ok_iff
  | spacesInBrackets | indentDirectives | nestConditionals =>
    exact exists_iff_read fun _ => Value.flag_eq_ok_iff
  | functionDocs | structDocs | fieldDocs =>
    exact exists_some_iff_read fun _ => Value.flag_eq_ok_iff
  | variableCase | functionCase | structCase | localVariableCase =>
    exact exists_some_iff_read fun _ => Value.caseStyle_eq_ok_iff
  | boolPrefix | intPrefix | floatPrefix | globalPrefix =>
    exact exists_some_iff_read fun _ => Value.nameStart_eq_ok_iff
  | forcedEnding => exact exists_some_iff_read fun _ => Value.lineEnding_eq_ok_iff
  | stripped => exact exists_iff_read fun _ => Value.categories_eq_ok_iff

end RuleSet

theorem RuleKey.Means.unique {k : RuleKey} {v : Value} {x y : k.Setting} (hx : k.Means v x)
    (hy : k.Means v y) : x = y := by
  have hsetx : RuleSet.set {} k "" v = .ok (RuleSet.put {} k x) :=
    RuleSet.set_eq_ok_iff.2 ⟨x, hx, rfl⟩
  have hsety : RuleSet.set {} k "" v = .ok (RuleSet.put {} k y) :=
    RuleSet.set_eq_ok_iff.2 ⟨y, hy, rfl⟩
  have heq : RuleSet.put {} k x = RuleSet.put {} k y := Except.ok.inj (hsetx.symm.trans hsety)
  exact (RuleSet.put_eq_iff.1 rfl).1.symm.trans (RuleSet.put_eq_iff.1 heq.symm).1

end ShaderStyle
