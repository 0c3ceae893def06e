import Mathlib.Data.List.Nodup
import Mathlib.Data.List.Pairwise
import Mathlib.Tactic.Choose
import ShaderStyle.Proofs.Settings.Values

/-!
# Entries of a settings file

Which entries are accepted, and what rule set they give, is said here for the entries as a whole:
what matters is which rule is given which value (`Gives`), and not in which order.

* `IsAcceptable`: every key is known, only one of the two keys about opening braces is used, every
  value means something for its rule, and what they come to passes the last checks;
* `RuleSet.IsTakenFrom`: each rule is set to what its value means, or has its default;
* `RuleSet.IsSound`: what can be relied on whatever the entries were.

`setAll_eq_ok_iff` follows the entries one by one; `ofEntries_isExact` is the whole.
-/

namespace ShaderStyle

/-! ## What entries give -/

namespace RuleKey

/-- The key stands for the rule. -/
def IsKey (k : RuleKey) (key : String) : Prop :=
  key = k.name ∨ k = .openBrace ∧ key = olderOpenBrace

theorem ofName?_eq_some_iff {key : String} {k : RuleKey} : ofName? key = some k ↔ k.IsKey key := by
  have hname : all.find? (fun k' => k'.name = key) = some k ↔ key = k.name := by
    constructor
    · intro h
      simpa [eq_comm] using List.find?_some h
    · rintro rfl
      cases k <;> decide
  unfold ofName? IsKey
  split
  · rename_i hkey
    have hnot : key ≠ k.name := by
      rw [hkey]
      cases k <;> decide
    simp [hkey ▸ hnot, hkey, eq_comm]
  · rename_i hkey
    rw [hname]
    simp [hkey]

theorem IsKey.eq {key : String} {k k' : RuleKey} (h : k.IsKey key) (h' : k'.IsKey key) : k = k' := by
  rw [← ofName?_eq_some_iff] at h h'
  exact Option.some.inj (h.symm.trans h')

end RuleKey

section Entries

variable {entries more : List (String × Value)} {key : String} {v : Value} {k : RuleKey}

/-- Some entry gives the rule the value. -/
def Gives (entries : List (String × Value)) (k : RuleKey) (v : Value) : Prop :=
  ∃ key, (key, v) ∈ entries ∧ k.IsKey key

theorem gives_cons {v' : Value} {k' : RuleKey} (hk : k.IsKey key) :
    Gives ((key, v) :: more) k' v' ↔ k' = k ∧ v' = v ∨ Gives more k' v' := by
  simp only [Gives, List.mem_cons, Prod.mk.injEq]
  constructor
  · rintro ⟨key', ⟨rfl, rfl⟩ | hmem, hk'⟩
    · exact .inl ⟨hk'.eq hk, rfl⟩
    · exact .inr ⟨key', hmem, hk'⟩
  · rintro (⟨rfl, rfl⟩ | ⟨key', hmem, hk'⟩)
    · exact ⟨key, .inl ⟨rfl, rfl⟩, hk⟩
    · exact ⟨key', .inr hmem, hk'⟩

/-- No key is used that stands for no rule. -/
def AllKnown (entries : List (String × Value)) : Prop :=
  ∀ key v, (key, v) ∈ entries → ∃ k : RuleKey, k.IsKey key

theorem allKnown_cons :
    AllKnown ((key, v) :: more) ↔ (∃ k : RuleKey, k.IsKey key) ∧ AllKnown more := by
  constructor
  · exact fun h => ⟨h key v (.head _), fun key' v' hmem => h key' v' (.tail _ hmem)⟩
  · rintro ⟨hk, h⟩ key' v' (_ | ⟨_, hmem⟩)
    · exact hk
    · exact h key' v' hmem

/-- The keys of the rule about opening braces are not used both. -/
def OneBraceKey (entries : List (String × Value)) : Prop :=
  ∀ v v', (RuleKey.openBrace.name, v) ∈ entries → (RuleKey.olderOpenBrace, v') ∉ entries

/-- Then no rule is given under two keys. -/
theorem OneBraceKey.key_unique {key' : String} {v' : Value} (hone : OneBraceKey entries)
    (hmem : (key, v) ∈ entries) (hmem' : (key', v') ∈ entries) (hk : k.IsKey key)
    (hk' : k.IsKey key') : key = key' := by
  rcases hk with rfl | ⟨rfl, rfl⟩ <;> rcases hk' with rfl | ⟨hbrace, rfl⟩
  · rfl
  · exact absurd hmem' (hone v v' (hbrace ▸ hmem))
  · exact absurd hmem (hone v' v hmem')
  · rfl

/-- Every rule is set to what the value given for it means; other rules are as in `base`. -/
structure RuleSet.IsUpdate (base : RuleSet) (entries : List (String × Value)) (r : RuleSet) :
    Prop where
  given : ∀ k v, Gives entries k v → k.Means v (r.setting k)
  kept : ∀ k, (∀ v, ¬ Gives entries k v) → r.setting k = base.setting k

/-- The rules are set to what the entries give, or have their defaults. -/
def RuleSet.IsTakenFrom (entries : List (String × Value)) (r : RuleSet) : Prop :=
  RuleSet.IsUpdate {} entries r

/-- The rules do not contradict each other. -/
structure RuleSet.IsCoherent (r : RuleSet) : Prop where
  nesting : r.nestConditionals = true → r.indentDirectives = true
  stripping : r.stripped ≠ [] → r.hasTypePrefix = true

/-- The entries of a settings file can be used. -/
structure IsAcceptable (entries : List (String × Value)) : Prop where
  known : AllKnown entries
  one_brace_key : OneBraceKey entries
  meaningful : ∀ k v, Gives entries k v → ∃ x, k.Means v x
  coherent : ∀ r : RuleSet, r.IsTakenFrom entries → r.IsCoherent

/-- What can be relied on in a rule set that was read. -/
structure RuleSet.IsSound (r : RuleSet) : Prop extends r.IsCoherent where
  maxEmptyLines : (0 : Int) ≤ r.maxEmptyLines
  lineEnding : r.lineEnding.text ∈ [['\n'], ['\r', '\n'], ['\r']]
  prefixes : ∀ t, some t ∈ [r.boolPrefix, r.intPrefix, r.floatPrefix, r.globalPrefix] → IsNameStart t

end Entries

/-! ## One entry after the other -/

namespace RuleSet

variable {entries more : List (String × Value)} {key : String} {v : Value} {k : RuleKey}
  {base r : RuleSet} {given : List (RuleKey × String)}

/-- The rules of the entries are all different, and none was given before. -/
structure AreFresh (given : List (RuleKey × String)) (entries : List (String × Value)) : Prop where
  new : ∀ k v, Gives entries k v → given.lookup k = none
  apart : entries.Pairwise fun e e' => ∀ k : RuleKey, k.IsKey e.1 → ¬ k.IsKey e'.1

theorem areFresh_cons (hk : k.IsKey key) : AreFresh given ((key, v) :: more) ↔
    given.lookup k = none ∧ AreFresh ((k, key) :: given) more := by
  constructor
  · rintro ⟨hnew, hapart⟩
    rw [List.pairwise_cons] at hapart
    refine ⟨hnew k v ((gives_cons hk).2 (.inl ⟨rfl, rfl⟩)), ?_, hapart.2⟩
    rintro k' v' ⟨key', hmem, hk'⟩
    have hne : k' ≠ k := by
      rintro rfl
      exact hapart.1 _ hmem k' hk hk'
    have hlookup := hnew k' v' ((gives_cons hk).2 (.inr ⟨key', hmem, hk'⟩))
    rw [List.lookup_cons, show (k' == k) = false by simpa using hne]
    exact hlookup
  · rintro ⟨hlookup, hnew, hapart⟩
    have hother {k' : RuleKey} {v' : Value} (h : Gives more k' v') :
        k' ≠ k ∧ given.lookup k' = none := by
      have hnone := hnew k' v' h
      rw [List.lookup_cons] at hnone
      split at hnone
      · cases hnone
      · exact ⟨by simpa using ‹(k' == k) = false›, hnone⟩
    constructor
    · intro k' v' h
      rcases (gives_cons hk).1 h with ⟨rfl, -⟩ | hmore
      · exact hlookup
      · exact (hother hmore).2
    · refine .cons ?_ hapart
      rintro ⟨key', v'⟩ hmem k' hkey hkey'
      exact (hother ⟨key', hmem, hkey'⟩).1 (hkey.eq hk)

theorem AreFresh.not_gives (h : AreFresh ((k, key) :: given) more) : ¬ Gives more k v := by
  intro hmore
  simpa using h.new k v hmore

theorem isUpdate_cons (hk : k.IsKey key) (hmore : ∀ v', ¬ Gives more k v') :
    base.IsUpdate ((key, v) :: more) r ↔ ∃ x, k.Means v x ∧ (base.put k x).IsUpdate more r := by
  have hput {x : k.Setting} := put_eq_iff.1 (rfl : base.put k x = base.put k x)
  constructor
  · rintro ⟨hgiven, hkept⟩
    refine ⟨r.setting k, hgiven k v ((gives_cons hk).2 (.inl ⟨rfl, rfl⟩)), ?_, ?_⟩
    · exact fun k' v' h => hgiven k' v' ((gives_cons hk).2 (.inr h))
    · intro k' h
      by_cases hk' : k' = k
      · subst hk'
        exact hput.1.symm
      · rw [hput.2 k' hk']
        refine hkept k' fun v' h' => ?_
        rcases (gives_cons hk).1 h' with ⟨rfl, -⟩ | h'
        · exact hk' rfl
        · exact h v' h'
  · rintro ⟨x, hx, hgiven, hkept⟩
    constructor
    · intro k' v' h
      rcases (gives_cons hk).1 h with ⟨rfl, rfl⟩ | h
      · rw [hkept k' hmore, hput.1]
        exact hx
      · exact hgiven k' v' h
    · intro k' h
      have hne : k' ≠ k := by
        rintro rfl
        exact h v ((gives_cons hk).2 (.inl ⟨rfl, rfl⟩))
      rw [hkept k' fun v' h' => h v' ((gives_cons hk).2 (.inr h')), hput.2 k' hne]

theorem setAll_cons_eq_ok_iff : setAll given base ((key, v) :: more) = .ok r ↔
    ∃ k : RuleKey, k.IsKey key ∧ given.lookup k = none ∧
      ∃ x, k.Means v x ∧ setAll ((k, key) :: given) (base.put k x) more = .ok r := by
  simp only [setAll, ← RuleKey.ofName?_eq_some_iff]
  cases RuleKey.ofName? key with
  | none => simp
  | some k =>
    simp only [Option.some.injEq, exists_eq_left']
    cases hlookup : given.lookup k with
    | some first => simp
    | none =>
      simp only [true_and]
      constructor
      · intro h
        cases hset : base.set k key v with
        | error e => simp [hset, bind, Except.bind] at h
        | ok next =>
          obtain ⟨x, hx, rfl⟩ := set_eq_ok_iff.1 hset
          exact ⟨x, hx, by simpa [hset, bind, Except.bind] using h⟩
      · rintro ⟨x, hx, h⟩
        rw [set_eq_ok_iff.2 ⟨x, hx, rfl⟩]
        exact h

/-- Entries are set exactly if their keys are known, their rules fresh and their values meaningful. -/
theorem setAll_eq_ok_iff : setAll given base entries = .ok r ↔
    AllKnown entries ∧ AreFresh given entries ∧ base.IsUpdate entries r := by
  -- on the entries; each adds its rule to those given before and its setting to the base
  induction entries generalizing given base with
  | nil =>
    rw [setAll, Except.ok.injEq]
    constructor
    · rintro rfl
      exact ⟨nofun, ⟨nofun, .nil⟩, nofun, fun _ _ => rfl⟩
    · rintro ⟨-, -, h⟩
      exact ext_setting fun k => (h.kept k nofun).symm
  | cons e more ih =>
    obtain ⟨key, v⟩ := e
    -- the rule is fresh for the entries behind it, so none of them changes its setting again
    simp only [setAll_cons_eq_ok_iff, allKnown_cons, ih]
    constructor
    · rintro ⟨k, hk, hlookup, x, hx, hknown, hfresh, hupdate⟩
      refine ⟨⟨⟨k, hk⟩, hknown⟩, (areFresh_cons hk).2 ⟨hlookup, hfresh⟩, ?_⟩
      exact (isUpdate_cons hk fun _ => hfresh.not_gives).2 ⟨x, hx, hupdate⟩
    · rintro ⟨⟨⟨k, hk⟩, hknown⟩, hfresh, hupdate⟩
      obtain ⟨hlookup, hfresh⟩ := (areFresh_cons hk).1 hfresh
      obtain ⟨x, hx, hupdate⟩ := (isUpdate_cons hk fun _ => hfresh.not_gives).1 hupdate
      exact ⟨k, hk, hlookup, x, hx, hknown, hfresh, hupdate⟩

/-! ## All entries together -/

theorem areFresh_nil_iff (hmapping : (entries.map Prod.fst).Nodup) :
    AreFresh [] entries ↔ OneBraceKey entries := by
  constructor
  · intro hfresh v v' hmem hmem'
    have hsymm : Std.Symm fun e e' : String × Value =>
        ∀ k : RuleKey, k.IsKey e.1 → ¬ k.IsKey e'.1 := ⟨fun _ _ h k hk hk' => h k hk' hk⟩
    have hne : (RuleKey.openBrace.name, v) ≠ (RuleKey.olderOpenBrace, v') := by
      simp [RuleKey.name, RuleKey.olderOpenBrace]
    exact hfresh.apart.forall hmem hmem' hne .openBrace (.inl rfl) (.inr ⟨rfl, rfl⟩)
  · intro hone
    refine ⟨fun _ _ _ => rfl, (List.pairwise_map.1 hmapping).imp_of_mem ?_⟩
    exact fun hmem hmem' hne k hk hk' => hne (hone.key_unique hmem hmem' hk hk')

theorem validate_eq_ok_iff {r' : RuleSet} : validate r = .ok r' ↔ r.IsCoherent ∧ r = r' := by
  unfold validate
  split
  · rename_i hnest
    simp only [reduceCtorEq, false_iff]
    rintro ⟨h, -⟩
    simp only [Bool.and_eq_true, Bool.not_eq_true'] at hnest
    rw [h.nesting hnest.1] at hnest
    cases hnest.2
  · rename_i hnest
    split
    · rename_i hstrip
      simp only [reduceCtorEq, false_iff]
      rintro ⟨h, -⟩
      simp only [ne_eq, Bool.and_eq_true, decide_eq_true_eq, Bool.not_eq_true'] at hstrip
      rw [h.stripping hstrip.1] at hstrip
      cases hstrip.2
    · rename_i hstrip
      rw [Except.ok.injEq, iff_and_self]
      intro _
      exact ⟨by simpa using hnest, by simpa using hstrip⟩

theorem ofEntries_eq_ok_iff (hmapping : (entries.map Prod.fst).Nodup) :
    ofEntries entries = .ok r ↔
      AllKnown entries ∧ OneBraceKey entries ∧ r.IsTakenFrom entries ∧ r.IsCoherent := by
  have hbind : ofEntries entries = .ok r ↔
      ∃ next, setAll [] {} entries = .ok next ∧ validate next = .ok r := by
    simp only [ofEntries]
    cases setAll [] {} entries <;> simp [bind, Except.bind]
  simp only [hbind, setAll_eq_ok_iff, areFresh_nil_iff hmapping, validate_eq_ok_iff, IsTakenFrom]
  constructor
  -- the last checks refuse a rule set, but change none
  · rintro ⟨_, ⟨hknown, hone, htaken⟩, hcoherent, rfl⟩
    exact ⟨hknown, hone, htaken, hcoherent⟩
  · rintro ⟨hknown, hone, htaken, hcoherent⟩
    exact ⟨r, ⟨hknown, hone, htaken⟩, hcoherent, rfl⟩

theorem IsTakenFrom.unique {r' : RuleSet} (h : r.IsTakenFrom entries) (h' : r'.IsTakenFrom entries) :
    r = r' := by
  apply ext_setting
  intro k
  by_cases hgives : ∃ v, Gives entries k v
  · obtain ⟨v, hv⟩ := hgives
    exact (h.given k v hv).unique (h'.given k v hv)
  · rw [not_exists] at hgives
    rw [h.kept k hgives, h'.kept k hgives]

theorem gives_unique {v' : Value} (hmapping : (entries.map Prod.fst).Nodup)
    (hone : OneBraceKey entries) (h : Gives entries k v) (h' : Gives entries k v') : v = v' := by
  obtain ⟨key, hmem, hk⟩ := h
  obtain ⟨key', hmem', hk'⟩ := h'
  have hkey : key = key' := hone.key_unique hmem hmem' hk hk'
  exact (Prod.mk.inj (List.inj_on_of_nodup_map hmapping hmem hmem' hkey)).2

theorem exists_isTakenFrom (hmapping : (entries.map Prod.fst).Nodup) (hone : OneBraceKey entries)
    (hmeans : ∀ k v, Gives entries k v → ∃ x, k.Means v x) :
    ∃ r : RuleSet, r.IsTakenFrom entries := by
  have hsetting (k : RuleKey) : ∃ x : k.Setting, (∀ v, Gives entries k v → k.Means v x) ∧
      ((∀ v, ¬ Gives entries k v) → x = setting {} k) := by
    by_cases hgives : ∃ v, Gives entries k v
    · obtain ⟨v, hv⟩ := hgives
      obtain ⟨x, hx⟩ := hmeans k v hv
      refine ⟨x, ?_, fun hnot => absurd hv (hnot v)⟩
      intro v' hv'
      rwa [gives_unique hmapping hone hv' hv]
    · rw [not_exists] at hgives
      exact ⟨setting {} k, fun v hv => absurd hv (hgives v), fun _ => rfl⟩
  -- the settings of all rules at once make up the rule set
  choose f hf using hsetting
  refine ⟨ofSettings f, ?_, ?_⟩ <;> simp only [setting_ofSettings]
  · exact fun k => (hf k).1
  · exact fun k => (hf k).2

theorem exists_ofEntries_eq_ok_iff (hmapping : (entries.map Prod.fst).Nodup) :
    (∃ r, ofEntries entries = .ok r) ↔ IsAcceptable entries := by
  simp only [ofEntries_eq_ok_iff hmapping]
  constructor
  · rintro ⟨r, hknown, hone, htaken, hcoherent⟩
    refine ⟨hknown, hone, fun k v hv => ⟨_, htaken.given k v hv⟩, ?_⟩
    intro r' htaken'
    rwa [htaken'.unique htaken]
  · rintro ⟨hknown, hone, hmeans, hcoherent⟩
    obtain ⟨r, htaken⟩ := exists_isTakenFrom hmapping hone hmeans
    exact ⟨r, hknown, hone, htaken, hcoherent r htaken⟩

theorem ofEntries_eq_ok_of_perm {entries' : List (String × Value)} (hperm : entries.Perm entries')
    (hmapping : (entries.map Prod.fst).Nodup) (h : ofEntries entries = .ok r) :
    ofEntries entries' = .ok r := by
  have hgives (k : RuleKey) (v : Value) : Gives entries' k v ↔ Gives entries k v := by
    simp only [Gives, hperm.mem_iff]
  obtain ⟨hknown, hone, htaken, hcoherent⟩ := (ofEntries_eq_ok_iff hmapping).1 h
  rw [ofEntries_eq_ok_iff ((hperm.map Prod.fst).nodup_iff.1 hmapping)]
  refine ⟨?_, ?_, ⟨?_, ?_⟩, hcoherent⟩
  · exact fun key v hmem => hknown key v (hperm.mem_iff.2 hmem)
  · exact fun v v' hmem hmem' => hone v v' (hperm.mem_iff.2 hmem) (hperm.mem_iff.2 hmem')
  · exact fun k v hv => htaken.given k v ((hgives k v).1 hv)
  · exact fun k hnot => htaken.kept k fun v hv => hnot v ((hgives k v).2 hv)

/-- A setting has its default, or is what some value means. -/
theorem IsTakenFrom.means_or_default (h : r.IsTakenFrom entries) (k : RuleKey) :
    (∃ v, k.Means v (r.setting k)) ∨ r.setting k = setting {} k := by
  by_cases hgives : ∃ v, Gives entries k v
  · obtain ⟨v, hv⟩ := hgives
    exact .inl ⟨v, h.given k v hv⟩
  · exact .inr (h.kept k (not_exists.1 hgives))

theorem isNameStart_of_means_or_default {x : Option Text} {t : Text}
    (h : (∃ v : Value, ∃ t, x = some t ∧ v = .text (String.ofList t) ∧ IsNameStart t) ∨ x = none)
    (ht : some t = x) : IsNameStart t := by
  subst ht
  rcases h with ⟨v, t', ht', -, hstart⟩ | hnone
  · cases ht'
    exact hstart
  · cases hnone

theorem IsTakenFrom.isSound (h : r.IsTakenFrom entries) (hcoherent : r.IsCoherent) : r.IsSound := by
  refine ⟨hcoherent, Int.natCast_nonneg _, by cases r.lineEnding <;> simp [LineEnding.text], ?_⟩
  intro t ht
  simp only [List.mem_cons, List.not_mem_nil, or_false] at ht
  rcases ht with ht | ht | ht | ht
  · exact isNameStart_of_means_or_default (h.means_or_default .boolPrefix) ht
  · exact isNameStart_of_means_or_default (h.means_or_default .intPrefix) ht
  · exact isNameStart_of_means_or_default (h.means_or_default .floatPrefix) ht
  · exact isNameStart_of_means_or_default (h.means_or_default .globalPrefix) ht

/-- The entries of a settings file, in which no key occurs twice, are read exactly: they are used if
they are acceptable, each rule is then set to what its value means or has its default, the order of the
entries does not matter, and what was read is sound. -/
theorem ofEntries_isExact (entries : List (String × Value))
    (hmapping : (entries.map Prod.fst).Nodup) :
    ((∃ r, ofEntries entries = .ok r) ↔ IsAcceptable entries) ∧
      (∀ r, ofEntries entries = .ok r → r.IsTakenFrom entries) ∧
      (∀ entries', entries.Perm entries' →
        (∃ r, ofEntries entries = .ok r ∧ ofEntries entries' = .ok r) ∨
          ∃ e e', ofEntries entries = .error e ∧ ofEntries entries' = .error e') ∧
      ∀ r, ofEntries entries = .ok r → r.IsSound := by
  refine ⟨exists_ofEntries_eq_ok_iff hmapping, ?_, ?_, ?_⟩
  · exact fun r h => ((ofEntries_eq_ok_iff hmapping).1 h).2.2.1
  · intro entries' hperm
    cases h : ofEntries entries with
    | ok r => exact .inl ⟨r, rfl, ofEntries_eq_ok_of_perm hperm hmapping h⟩
    | error e =>
      cases h' : ofEntries entries' with
      | ok r =>
        have hmapping' := (hperm.map Prod.fst).nodup_iff.1 hmapping
        rw [ofEntries_eq_ok_of_perm hperm.symm hmapping' h'] at h
        cases h
      | error e' => exact .inr ⟨e, e', rfl, rfl⟩
  · intro r h
    obtain ⟨-, -, htaken, hcoherent⟩ := (ofEntries_eq_ok_iff hmapping).1 h
    exact htaken.isSound hcoherent

/-- The older key about opening braces, and a type prefix that is stripped. -/
theorem ofEntries_isExact_older : ∃ entries r,
    entries = [("NewLineAroundOpenBraceRule", .text "Before"),
      ("StripPrefixBeforeCase", .list [.text "Field"]), ("BoolPrefix", .text "b")] ∧
    r = { openBrace := .ownLine, boolPrefix := some ['b'], stripped := [.field] } ∧
    (entries.map Prod.fst).Nodup ∧ ofEntries entries = .ok r ∧ IsAcceptable entries ∧
    r.IsTakenFrom entries ∧ ofEntries entries.reverse = .ok r ∧ r.IsSound := by
  refine ⟨_, _, rfl, rfl, ?_⟩
  generalize hentries : [_, _, _] = entries
  have hmapping : (entries.map Prod.fst).Nodup := by
    rw [← hentries]
    decide
  have hread : ofEntries entries =
      .ok { openBrace := .ownLine, boolPrefix := some ['b'], stripped := [.field] } := by
    rw [← hentries]
    decide +kernel
  obtain ⟨hok, htaken, horder, hsound⟩ := ofEntries_isExact entries hmapping
  refine ⟨hmapping, hread, hok.1 ⟨_, hread⟩, htaken _ hread, ?_, hsound _ hread⟩
  rcases horder _ entries.reverse_perm.symm with ⟨r, h, h'⟩ | ⟨e, e', h, -⟩
  · exact h'.trans (h.symm.trans hread)
  · cases hread.symm.trans h

end RuleSet

end ShaderStyle
