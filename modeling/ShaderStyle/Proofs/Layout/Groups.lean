import ShaderStyle.Proofs.Layout.Division

/-!
# Conditional groups in the output

Conditional directives that are properly nested fall into groups (`IsNested`): a directive that opens,
any number of branches, and the directive that closes. The directives of one group all stand inside the
same number of groups, and what they enclose stands inside at least one more
(`IsNested.isLevel`, by induction on the nesting). Each directive starts a line of the formatted text
(`IsSetOut.exists_startsAt`), and a line is indented by what stands around it. So at one depth of braces
the lines of a group's directives are indented alike, and the lines between them deeper
(`restyle_isAligned`).
-/

namespace ShaderStyle.Layout

open Lexer

variable {rules : RuleSet}

/-! ## Groups -/

/-- A group of conditional directives, by their places in some content. -/
structure Group where
  opener : Nat
  branches : List Nat
  closer : Nat
  deriving DecidableEq, Repr

/-- The places of the group's own directives. -/
def Group.own (g : Group) : List Nat :=
  g.opener :: (g.branches ++ [g.closer])

/-- The place is inside the group and is none of its own directives. -/
structure Group.Encloses (g : Group) (k : Nat) : Prop where
  opened : g.opener < k
  closed : k < g.closer
  foreign : k ∉ g.own

/-- The conditional directives from one place up to another are properly nested. `branches` are the
branches there that belong to the group around them, and `groups` are the groups that are there as a
whole. -/
inductive IsNested (content : List Lexeme) : Nat → Nat → List Nat → List Group → Prop
  | nil (i : Nat) : IsNested content i i [] []
  | plain {i j : Nat} {l : Lexeme} {branches : List Nat} {groups : List Group}
      (hl : content[i]? = some l) (hrole : roleOf? l = none)
      (hmore : IsNested content (i + 1) j branches groups) : IsNested content i j branches groups
  | branch {i j : Nat} {l : Lexeme} {branches : List Nat} {groups : List Group}
      (hl : content[i]? = some l) (hrole : roleOf? l = some .branches)
      (hmore : IsNested content (i + 1) j branches groups) :
      IsNested content i j (i :: branches) groups
  | group {i k j : Nat} {first last : Lexeme} {own branches : List Nat} {inner groups : List Group}
      (hfirst : content[i]? = some first) (hopens : roleOf? first = some .opens)
      (hinner : IsNested content (i + 1) k own inner)
      (hlast : content[k]? = some last) (hcloses : roleOf? last = some .closes)
      (hmore : IsNested content (k + 1) j branches groups) :
      IsNested content i j branches (⟨i, own, k⟩ :: (inner ++ groups))

/-- All directives of the group stand inside equally many groups, and what it encloses stands inside
more. -/
def Group.IsLevel (content : List Lexeme) (g : Group) : Prop :=
  ∃ n, (∀ k ∈ g.own, ∃ l, content[k]? = some l ∧ (∃ name, l.kind = .directive name) ∧
      groupsAround (content.take k) l = n) ∧
    ∀ k, g.Encloses k → ∀ l, content[k]? = some l → n + 1 ≤ groupsAround (content.take k) l

section Nesting

variable {content : List Lexeme} {i j k : Nat} {l : Lexeme} {branches : List Nat}
  {groups : List Group}

theorem take_succ_of_getElem? (h : content[k]? = some l) :
    content.take (k + 1) = content.take k ++ [l] := by
  rw [List.take_add_one, h, Option.toList_some]

theorem openGroups_opens (h : content[k]? = some l) (hrole : roleOf? l = some .opens) :
    openGroups (content.take (k + 1)) = openGroups (content.take k) + 1 := by
  rw [take_succ_of_getElem? h, openGroups_concat, hrole]

theorem openGroups_closes (h : content[k]? = some l) (hrole : roleOf? l = some .closes) :
    openGroups (content.take (k + 1)) = openGroups (content.take k) - 1 := by
  rw [take_succ_of_getElem? h, openGroups_concat, hrole]

theorem openGroups_keeps (h : content[k]? = some l)
    (hrole : roleOf? l = none ∨ roleOf? l = some .branches) :
    openGroups (content.take (k + 1)) = openGroups (content.take k) := by
  rw [take_succ_of_getElem? h, openGroups_concat]
  rcases hrole with hrole | hrole <;> rw [hrole]

/-- Behind the directive that closes a group, those groups are open that were before it. -/
theorem openGroups_group {first last : Lexeme} (hfirst : content[i]? = some first)
    (hopens : roleOf? first = some .opens)
    (hinner : openGroups (content.take k) = openGroups (content.take (i + 1)))
    (hlast : content[k]? = some last) (hcloses : roleOf? last = some .closes) :
    openGroups (content.take (k + 1)) = openGroups (content.take i) := by
  rw [openGroups_closes hlast hcloses, hinner, openGroups_opens hfirst hopens, Nat.add_sub_cancel]

theorem groupsAround_inside (earlier : List Lexeme) (h : roleOf? l = none ∨ roleOf? l = some .opens) :
    groupsAround earlier l = openGroups earlier := by
  unfold groupsAround
  rcases h with h | h <;> rw [h]

theorem groupsAround_own (earlier : List Lexeme)
    (h : roleOf? l = some .branches ∨ roleOf? l = some .closes) :
    groupsAround earlier l = openGroups earlier - 1 := by
  unfold groupsAround
  rcases h with h | h <;> rw [h]

theorem directive_of_roleOf? {role : ConditionalRole} (h : roleOf? l = some role) :
    ∃ name, l.kind = .directive name := by
  unfold roleOf? at h
  split at h
  · rename_i name hname
    exact ⟨name, hname⟩
  · simp at h

/-- Properly nested directives leave open what was open before them. -/
theorem IsNested.openGroups_eq (h : IsNested content i j branches groups) :
    openGroups (content.take j) = openGroups (content.take i) := by
  induction h with
  | nil => rfl
  | plain hl hrole _ ih => rw [ih, openGroups_keeps hl (.inl hrole)]
  | branch hl hrole _ ih => rw [ih, openGroups_keeps hl (.inr hrole)]
  | group hfirst hopens _ hlast hcloses _ ihinner ih =>
    rw [ih, openGroups_group hfirst hopens ihinner hlast hcloses]

/-- The branches that belong to the group around are at its level. -/
theorem IsNested.branch_level (h : IsNested content i j branches groups) (hk : k ∈ branches) :
    ∃ l, content[k]? = some l ∧ roleOf? l = some .branches ∧
      openGroups (content.take k) = openGroups (content.take i) := by
  induction h with
  | nil => simp at hk
  | plain hl hrole _ ih =>
    rw [← openGroups_keeps hl (.inl hrole)]
    exact ih hk
  | @branch _ _ l _ _ hl hrole _ ih =>
    rcases List.mem_cons.1 hk with rfl | hk
    · exact ⟨l, hl, hrole, rfl⟩
    · rw [← openGroups_keeps hl (.inr hrole)]
      exact ih hk
  | group hfirst hopens hinner hlast hcloses _ _ ih =>
    rw [← openGroups_group hfirst hopens hinner.openGroups_eq hlast hcloses]
    exact ih hk

/-- Everything else stands inside all groups that are open before. -/
theorem IsNested.le_groupsAround (h : IsNested content i j branches groups) (hi : i ≤ k)
    (hj : k < j) (hk : k ∉ branches) (hl : content[k]? = some l) :
    openGroups (content.take i) ≤ groupsAround (content.take k) l := by
  induction h with
  | nil => omega
  | @plain i _ m _ _ hm hrole _ ih =>
    rcases Nat.eq_or_lt_of_le hi with rfl | hi
    · rw [hm, Option.some.injEq] at hl
      rw [groupsAround_inside _ (.inl (hl ▸ hrole))]
    · rw [← openGroups_keeps hm (.inl hrole)]
      exact ih hi hj hk
  | @branch i _ m _ _ hm hrole _ ih =>
    have hne : k ≠ i := fun heq => hk (by simp [heq])
    rw [← openGroups_keeps hm (.inr hrole)]
    exact ih (by omega) hj fun hmem => hk (by simp [hmem])
  | @group i c _ first last own _ _ _ hfirst hopens hinner hlast hcloses _ ihinner ih =>
    have hinside := openGroups_opens hfirst hopens
    rcases Nat.lt_trichotomy k c with hc | rfl | hc
    · rcases Nat.eq_or_lt_of_le hi with rfl | hi
      · rw [hfirst, Option.some.injEq] at hl
        rw [groupsAround_inside _ (.inr (hl ▸ hopens))]
      · -- a branch of this group is at its level, everything else in it is deeper
        by_cases hown : k ∈ own
        · rcases hinner.branch_level hown with ⟨m, hm, hrole, hopen⟩
          rw [hm, Option.some.injEq] at hl
          rw [groupsAround_own _ (.inl (hl ▸ hrole)), hopen]
          omega
        · have := ihinner hi hc hown
          omega
    · rw [hlast, Option.some.injEq] at hl
      rw [groupsAround_own _ (.inr (hl ▸ hcloses)), hinner.openGroups_eq]
      omega
    · rw [← openGroups_group hfirst hopens hinner.openGroups_eq hlast hcloses]
      exact ih hc hj hk

/-- The directives of each group stand inside equally many groups, and what they enclose inside more. -/
theorem IsNested.isLevel (h : IsNested content i j branches groups) :
    ∀ g ∈ groups, g.IsLevel content := by
  induction h with
  | nil => simp
  | plain _ _ _ ih => exact ih
  | branch _ _ _ ih => exact ih
  | @group i c _ first last own _ _ _ hfirst hopens hinner hlast hcloses _ ihinner ih =>
    intro g hg
    rcases List.mem_cons.1 hg with rfl | hg
    · have hinside := openGroups_opens hfirst hopens
      refine ⟨openGroups (content.take i), ?_, ?_⟩
      · intro k hk
        rw [Group.own, List.mem_cons, List.mem_append, List.mem_singleton] at hk
        rcases hk with rfl | hk | rfl
        · exact ⟨first, hfirst, directive_of_roleOf? hopens, groupsAround_inside _ (.inr hopens)⟩
        · rcases hinner.branch_level hk with ⟨l, hl, hrole, hlevel⟩
          refine ⟨l, hl, directive_of_roleOf? hrole, ?_⟩
          rw [groupsAround_own _ (.inl hrole), hlevel, hinside, Nat.add_sub_cancel]
        · refine ⟨last, hlast, directive_of_roleOf? hcloses, ?_⟩
          rw [groupsAround_own _ (.inr hcloses), hinner.openGroups_eq, hinside, Nat.add_sub_cancel]
      · intro k hk l hl
        have hforeign : k ∉ own := fun hmem => hk.foreign (by simp [Group.own, hmem])
        rw [← hinside]
        exact hinner.le_groupsAround hk.opened hk.closed hforeign hl
    · rcases List.mem_append.1 hg with hg | hg
      · exact ihinner g hg
      · exact ih g hg

end Nesting

/-! ## Lines and places -/

/-- The content of a source: its tokens without layout and the end of the file. -/
def sourceContent (tokens : List Token) : List Lexeme :=
  (tokens.map Token.toLexeme).filter fun l => !l.kind.isLayout && l.kind ≠ .eof

/-- The line holds the content of the lines from place `k` on. -/
def Line.StartsAt (lines : List Line) (k : Nat) (l : Line) : Prop :=
  ∃ before, before ++ [l] <+: lines ∧ (before.flatMap Line.content).length = k ∧ l.content ≠ []

/-- The content of the line starts with a piece that may be changed. -/
def Line.IsFree (l : Line) : Prop :=
  ∀ first ∈ l.content.head?, first.suppressed = false

/-- The lines set out some content: they hold it in order, are laid out as the rules say, and have
directives at their start only. -/
structure IsSetOut (rules : RuleSet) (items : List Piece) (lines : List Line) : Prop where
  content : lines.flatMap Line.content = items.map (withEnding rules)
  laidOut : IsLaidOut rules lines
  directive : ∀ l ∈ lines, ∀ p ∈ l.content.tail, ∀ name, p.kind ≠ .directive name

theorem exists_line_of_lt {lines : List Line} {k : Nat}
    (h : k < (lines.flatMap Line.content).length) :
    ∃ before l, before ++ [l] <+: lines ∧ (before.flatMap Line.content).length ≤ k ∧
      k < (before.flatMap Line.content).length + l.content.length := by
  induction lines generalizing k with
  | nil => simp at h
  | cons m lines ih =>
    rw [List.flatMap_cons, List.length_append] at h
    by_cases hk : k < m.content.length
    · exact ⟨[], m, by simp, by simp, by simpa using hk⟩
    · rcases ih (k := k - m.content.length) (by omega) with ⟨before, l, hpre, hle, hlt⟩
      refine ⟨m :: before, l, ?_, ?_, ?_⟩
      · simpa using hpre
      · rw [List.flatMap_cons, List.length_append]
        omega
      · rw [List.flatMap_cons, List.length_append]
        omega

section SetOut

variable {items : List Piece} {lines : List Line} {l : Line} {p : Piece} {k : Nat}

/-- What the lines up to some line hold, and the piece that stands at a place of that line. -/
theorem IsSetOut.getElem?_line (h : IsSetOut rules items lines) {before : List Line}
    (hpre : before ++ [l] <+: lines) {n : Nat} (hn : n < l.content.length) :
    before.flatMap Line.content =
        (items.take (before.flatMap Line.content).length).map (withEnding rules) ∧
      l.content[n]? = (items[(before.flatMap Line.content).length + n]?).map (withEnding rules) := by
  rcases hpre with ⟨after, rfl⟩
  have hcontent := h.content
  rw [List.flatMap_append, List.flatMap_append, List.flatMap_singleton, List.append_assoc] at hcontent
  constructor
  · rw [List.map_take, ← hcontent, List.take_left]
  · rw [← List.getElem?_map, ← hcontent, List.getElem?_append_right (by omega),
      Nat.add_sub_cancel_left, List.getElem?_append_left hn]

/-- Every directive starts a line. -/
theorem IsSetOut.exists_startsAt (h : IsSetOut rules items lines) (hp : items[k]? = some p)
    {name : Text} (hkind : p.kind = .directive name) : ∃ l, Line.StartsAt lines k l := by
  have hk : k < (lines.flatMap Line.content).length := by
    rw [h.content, List.length_map]
    exact (List.getElem?_eq_some_iff.1 hp).1
  rcases exists_line_of_lt hk with ⟨before, l, hpre, hle, hlt⟩
  obtain ⟨n, rfl⟩ := Nat.exists_eq_add_of_le hle
  have hn : n < l.content.length := by omega
  rcases h.getElem?_line hpre hn with ⟨-, hpiece⟩
  rw [hp, Option.map_some] at hpiece
  cases n with
  | zero => exact ⟨l, before, hpre, rfl, List.ne_nil_of_length_pos hn⟩
  | succ n =>
    -- a directive further on in the line is not possible
    rw [← List.getElem?_tail] at hpiece
    have hkind' : (withEnding rules p).kind = .directive name := by rw [withEnding_kind, hkind]
    exact absurd hkind' (h.directive l (hpre.mem (by simp)) _ (List.mem_of_getElem? hpiece) name)

theorem openBraces_map_withEnding (items : List Piece) :
    openBraces ((items.map (withEnding rules)).map Piece.lexeme) =
      openBraces (items.map Piece.lexeme) := by
  have hbraces (ps : List Piece) : openBraces (ps.map Piece.lexeme) = bracesAfter 0 ps :=
    openBraces_append [] ps
  rw [hbraces, hbraces, bracesAfter_withEnding]

theorem openGroups_map_withEnding (items : List Piece) :
    openGroups ((items.map (withEnding rules)).map Piece.lexeme) =
      openGroups (items.map Piece.lexeme) := by
  simp only [openGroups, stillOpen, List.foldl_map, roleOf?_withEnding]

/-- The blanks at the start of a line, by the content before it. -/
theorem IsSetOut.render_lead (h : IsSetOut rules items lines) (hl : Line.StartsAt lines k l)
    (hfree : l.IsFree) :
    ∃ p, items[k]? = some p ∧ l.content.head? = some (withEnding rules p) ∧
      Piece.render l.lead = lineIndent rules ((items.take k).map Piece.lexeme) p.lexeme := by
  rcases hl with ⟨before, hpre, rfl, hne⟩
  rcases h.getElem?_line hpre (List.length_pos_iff.2 hne) with ⟨hbefore, hpiece⟩
  rw [Nat.add_zero, ← List.head?_eq_getElem?] at hpiece
  rcases List.exists_cons_of_ne_nil hne with ⟨first, more, hcontent⟩
  have hhead : l.content.head? = some first := by rw [hcontent, List.head?_cons]
  rw [hhead, eq_comm, Option.map_eq_some_iff] at hpiece
  rcases hpiece with ⟨p, hp, rfl⟩
  refine ⟨p, hp, hhead, ?_⟩
  rw [h.laidOut.indent before l hpre _ hhead (hfree _ hhead), lineIndent_withEnding, contentLexemes]
  generalize (before.flatMap Line.content).length = k at hbefore
  rw [hbefore]
  simp only [lineIndent, lineLevel, groupsAround, openBraces_map_withEnding,
    openGroups_map_withEnding]

end SetOut

/-! ## Formatted texts -/

theorem directive_newLines {ls : List Line} (hmet : ∀ l ∈ ls, l.IsMet rules true) (st : LineState) :
    ∀ l ∈ newLines rules st ls, ∀ p ∈ l.content.tail, ∀ name, p.kind ≠ .directive name := by
  induction ls generalizing st with
  | nil => simp [newLines]
  | cons m ls ih =>
    have hm := hmet m (by simp)
    intro l hl
    rw [newLines, List.mem_append] at hl
    rcases hl with hl | hl
    · rw [newLine?] at hl
      split at hl
      · simp at hl
      · rw [Option.toList_some, List.mem_singleton] at hl
        subst hl
        intro p hp name
        rw [content_finished, content_indented st hm, ← List.map_tail] at hp
        rcases List.mem_map.1 hp with ⟨q, hq, rfl⟩
        rw [withEnding_kind]
        exact hm.directive q hq name
    · exact ih (fun l hl => hmet l (by simp [hl])) _ l hl

/-- The lines of a formatted text set out the content of its source. -/
theorem isSetOut_restyle (rules : RuleSet) {d : Dialect} {source : Text} {tokens : List Token}
    (htokens : tokenize d source = .ok tokens) :
    ∃ items, items.map Piece.lexeme = sourceContent tokens ∧
      IsSetOut rules items (Line.split (restyle rules tokens).pieces) := by
  rcases tokenize_eq_ok_iff.1 htokens with ⟨ls, hlexed, -, rfl⟩
  have hkinds := kind_ne_eof hlexed
  have hdrawn : (Page.ofLexemes false ls).DrawnBy (.ofPieces (piecesOf (place 0 .origin ls)
      (Suppression.scan (place 0 .origin ls)).format)) :=
    drawnBy_place hkinds 0 .origin false
  have hsound := soundCells_ofLexemes rules hlexed
  have htail := (Page.isRegular_ofLexemes false ls).tail
  have hmet := isMet_spacedLines hdrawn hsound htail
  refine ⟨(piecesOf (place 0 .origin ls)
    (Suppression.scan (place 0 .origin ls)).format).filter fun p => !p.isLayout, ?_, ?_⟩
  · have hsame : (fun p => !p.isLayout) = (fun l : Lexeme => !l.kind.isLayout) ∘ Piece.lexeme := rfl
    have hcontent : ∀ l ∈ ls,
        (!l.kind.isLayout && decide (l.kind ≠ .eof)) = !l.kind.isLayout := by
      intro l hl
      simp [hkinds l hl]
    rw [hsame, ← List.filter_map, Suppression.scan, map_lexeme_piecesOf hkinds, sourceContent,
      map_toLexeme_place, List.filter_append, List.filter_congr hcontent]
    simp
  · rw [restyle, format, split_formatPieces]
    refine ⟨?_, isLaidOut_newLines hmet, directive_newLines hmet {}⟩
    rw [flatMap_content_newLines hmet, flatMap_content_spacedLines hdrawn hsound htail]

/-! ## Groups in lines -/

/-- The group's directives start lines; at one depth of braces, these lines are indented alike, and the
lines inside the group that start with something else than a closing brace at least one level deeper. -/
structure Group.IsAligned (g : Group) (indentation : Indentation) (content : List Lexeme)
    (lines : List Line) : Prop where
  starts : ∀ k ∈ g.own, ∃ l, Line.StartsAt lines k l
  own : ∀ j ∈ g.own, ∀ k ∈ g.own, openBraces (content.take j) = openBraces (content.take k) →
    ∀ l m, Line.StartsAt lines j l → Line.StartsAt lines k m → l.IsFree → m.IsFree →
      Piece.render m.lead = Piece.render l.lead
  enclosed : ∀ j ∈ g.own, ∀ k, g.Encloses k →
    openBraces (content.take j) = openBraces (content.take k) →
      ∀ l m, Line.StartsAt lines j l → Line.StartsAt lines k m → l.IsFree → m.IsFree →
        (∀ first ∈ m.content.head?, first.isMark '}' = false) →
          ∃ n, Piece.render m.lead = Piece.render l.lead ++ indentation.levels (n + 1)

/-- A line that does not start with a closing brace is indented by the braces and groups around it. -/
theorem lineIndent_eq (hnests : rules.nestsConditionals = true) {earlier : List Lexeme} {first : Lexeme}
    (hmark : first.isMark '}' = false) :
    lineIndent rules earlier first =
      rules.indentation.levels (openBraces earlier + groupsAround earlier first) := by
  have hindents : rules.indentDirectives = true := (Bool.and_eq_true_iff.1 hnests).1
  have hlevel : (lineLevel rules earlier first).toNat =
      openBraces earlier + groupsAround earlier first := by
    simp only [lineLevel, hmark, hnests, Bool.false_eq_true, if_false, if_true]
    omega
  rw [← hlevel, lineIndent]
  split
  · rw [if_pos hindents]
  · rfl

/-- A level group is aligned in the lines that set out its content. -/
theorem Group.IsLevel.isAligned {items : List Piece} {lines : List Line} {g : Group}
    (hnests : rules.nestsConditionals = true) (h : IsSetOut rules items lines)
    (hg : g.IsLevel (items.map Piece.lexeme)) :
    g.IsAligned rules.indentation (items.map Piece.lexeme) lines := by
  rcases hg with ⟨n, hown, hencloses⟩
  -- how a line of the group's own directives is indented
  have hlead {k : Nat} (hk : k ∈ g.own) {l : Line} (hl : Line.StartsAt lines k l) (hfree : l.IsFree) :
      Piece.render l.lead =
        rules.indentation.levels (openBraces ((items.map Piece.lexeme).take k) + n) := by
    rcases hown k hk with ⟨first, hfirst, ⟨name, hname⟩, hlevel⟩
    rcases h.render_lead hl hfree with ⟨p, hp, -, hrender⟩
    rw [List.getElem?_map, hp, Option.map_some, Option.some.injEq] at hfirst
    have hmark : p.lexeme.isMark '}' = false := by
      rw [hfirst, Lexeme.isMark, hname]
      rfl
    rw [hrender, lineIndent_eq hnests hmark, List.map_take, hfirst, hlevel]
  refine ⟨?_, ?_, ?_⟩
  · intro k hk
    rcases hown k hk with ⟨first, hfirst, ⟨name, hname⟩, -⟩
    rw [List.getElem?_map, Option.map_eq_some_iff] at hfirst
    rcases hfirst with ⟨p, hp, rfl⟩
    exact h.exists_startsAt hp hname
  · intro j hj k hk hbraces l m hl hm hlfree hmfree
    rw [hlead hj hl hlfree, hlead hk hm hmfree, hbraces]
  · intro j hj k hk hbraces l m hl hm hlfree hmfree hclosing
    rcases h.render_lead hm hmfree with ⟨p, hp, hhead, hrender⟩
    have hmark : p.lexeme.isMark '}' = false := by
      have := hclosing _ hhead
      rwa [isMark_withEnding] at this
    have hlevel := hencloses k hk p.lexeme (by rw [List.getElem?_map, hp, Option.map_some])
    obtain ⟨more, hmore⟩ := Nat.exists_eq_add_of_le hlevel
    refine ⟨more, ?_⟩
    rw [hlead hj hl hlfree, hrender, lineIndent_eq hnests hmark, List.map_take, hmore, hbraces,
      ← Indentation.levels_add]
    congr 1
    omega

/-- In a formatted text whose conditional directives are properly nested, the directives of every group
are indented alike, and what stands between them is indented deeper. -/
theorem restyle_isAligned (rules : RuleSet) (hindent : rules.indentDirectives = true)
    (hnest : rules.nestConditionals = true) (d : Dialect) (source : Text) (tokens : List Token)
    (htokens : tokenize d source = .ok tokens) (groups : List Group)
    (hnested : IsNested (sourceContent tokens) 0 (sourceContent tokens).length [] groups) :
    ∀ g ∈ groups, g.IsAligned rules.indentation (sourceContent tokens)
      (Line.split (restyle rules tokens).pieces) := by
  have hnests : rules.nestsConditionals = true := Bool.and_eq_true_iff.2 ⟨hindent, hnest⟩
  rcases isSetOut_restyle rules htokens with ⟨items, hitems, hset⟩
  rw [← hitems] at hnested ⊢
  intro g hg
  exact (hnested.isLevel g hg).isAligned hnests hset

/-- Two groups, one inside the other, and a block that is opened in the first branch and closed in the
second. -/
theorem restyle_isAligned_branches :
    ∃ tokens, tokenize .glsl ("#if A\n#ifdef B\nx\n#endif\n".toList ++ ['{', '\n'] ++
        "#elif C\ny\n".toList ++ ['}', '\n'] ++ "#endif".toList) = .ok tokens ∧
      IsNested (sourceContent tokens) 0 (sourceContent tokens).length []
        [⟨0, [5], 8⟩, ⟨1, [], 3⟩] ∧
      ∀ g ∈ [(⟨0, [5], 8⟩ : Group), ⟨1, [], 3⟩], g.IsAligned .tab (sourceContent tokens)
        (Line.split (restyle { indentation := .tab, indentDirectives := true, nestConditionals := true }
          tokens).pieces) := by
  have htokens : tokenize .glsl ("#if A\n#ifdef B\nx\n#endif\n".toList ++ ['{', '\n'] ++
      "#elif C\ny\n".toList ++ ['}', '\n'] ++ "#endif".toList) = .ok _ :=
    tokenize_eq_ok_iff.2 ⟨[⟨.directive "if".toList, "#if A".toList⟩, ⟨.lineBreak, ['\n']⟩,
      ⟨.directive "ifdef".toList, "#ifdef B".toList⟩, ⟨.lineBreak, ['\n']⟩,
      ⟨.word .identifier, ['x']⟩, ⟨.lineBreak, ['\n']⟩,
      ⟨.directive "endif".toList, "#endif".toList⟩, ⟨.lineBreak, ['\n']⟩,
      ⟨.punctuation, ['{']⟩, ⟨.lineBreak, ['\n']⟩,
      ⟨.directive "elif".toList, "#elif C".toList⟩, ⟨.lineBreak, ['\n']⟩,
      ⟨.word .identifier, ['y']⟩, ⟨.lineBreak, ['\n']⟩,
      ⟨.punctuation, ['}']⟩, ⟨.lineBreak, ['\n']⟩,
      ⟨.directive "endif".toList, "#endif".toList⟩], by decide +kernel, by decide +kernel, rfl⟩
  refine ⟨_, htokens, ?_⟩
  suffices hnested : IsNested _ 0 _ [] [⟨0, [5], 8⟩, ⟨1, [], 3⟩] from
    ⟨hnested, restyle_isAligned
      { indentation := .tab, indentDirectives := true, nestConditionals := true } rfl rfl .glsl _ _
      htokens _ hnested⟩
  exact .group rfl rfl (.group rfl rfl (.plain rfl rfl (.nil 3)) rfl rfl
    (.plain rfl rfl (.branch rfl rfl (.plain rfl rfl (.plain rfl rfl (.nil 8)))))) rfl rfl (.nil 9)

end ShaderStyle.Layout
