import Mathlib.Data.List.TakeWhile
import ShaderStyle.Proofs.Declaration.Places
import ShaderStyle.Proofs.Token.Locality

/-!
# The scan for declarations ends

The scan by places goes on wherever a statement tells it to, and a group makes it search for a brace
with no bound. It ends nevertheless, whatever the tokens are. Each of its loops is followed along the
last sites that it has before it: a statement leaves some behind its first site (`statement?_ends`), so
the scan has fewer each time (`declarations_ends`).

* `scanPlaces_ends`: behind the name of a group a brace stands, at which the search stops; a statement
  makes the scan go on behind its first site; the scan ends, and no site is missing.
* `scanPlaces_of_tokenize`: of the tokens of a text it finds what `scanDeclarations` finds.
-/

namespace ShaderStyle.Scan.Sites

variable {d : Dialect} {ss xs rest : List Site} {s : Site} {k : Nat}

/-! ## Where the scan goes on -/

/-- The scan goes on at a place behind which some last sites stand, and no parenthesis opens there. -/
structure ResumesAt (ss xs : List Site) (k : Nat) (rest : List Site) : Prop where
  place_eq : k = place ss rest
  suffix : rest <:+ xs
  not_round : rest.head?.any (·.isMark '(') = false

theorem ResumesAt.of_suffix {ys : List Site} (h : ResumesAt ss ys k rest) (hys : ys <:+ xs) :
    ResumesAt ss xs k rest :=
  ⟨h.place_eq, h.suffix.trans hys, h.not_round⟩

/-- What a statement is found to declare by its place: the scan goes on among some last sites, and where
punctuation is single marks, it is what is found in the sites themselves. -/
def Agrees (ss xs : List Site) (found : Option Scan.Found) : Option Found → Prop
  | none => AreSingle ss → found = none
  | some f => ∃ rest, ResumesAt ss xs f.resume rest ∧
      (AreSingle ss → found = some ⟨f.declarations, f.opens, rest⟩)

theorem agrees_none : Agrees ss xs none none :=
  fun _ => rfl

theorem Agrees.of_suffix {ys : List Site} {found : Option Scan.Found} {r : Option Found}
    (h : Agrees ss ys found r) (hys : ys <:+ xs) : Agrees ss xs found r := by
  cases r with
  | none => exact h
  | some f =>
    rcases h with ⟨rest, hresume, hsame⟩
    exact ⟨rest, hresume.of_suffix hys, hsame⟩

/-! ## Groups and functions -/

/-- Behind the name of a group the search for a brace ends at one. -/
theorem exists_openBrace (h : rest <:+ ss) (hheader : Scan.isGroupHeader rest = true) :
    ∃ name after brace more, rest = name :: after ∧ brace :: more <:+ after ∧
      after.dropWhile (fun s => !s.isMark '{') = brace :: more ∧ brace.isMark '{' = true ∧
      openBrace ss (place ss rest + 1) = some (place ss (brace :: more)) := by
  rcases exists_brace_of_isGroupHeader hheader with ⟨name, after, rfl, hbrace⟩
  have hopen := openBrace_place (suffix_of_cons h) hbrace
  have hfound : after.dropWhile (fun s => !s.isMark '{') ≠ [] := by
    rcases hbrace with ⟨s, hs, hmark⟩
    intro hnil
    have hno := List.dropWhile_eq_nil_iff.1 hnil s hs
    simp [hmark] at hno
  have hmark := List.head_dropWhile_not _ hfound
  rcases List.exists_cons_of_ne_nil hfound with ⟨brace, more, hafter⟩
  simp only [hafter, List.head_cons, Bool.not_eq_false'] at hmark
  rw [hafter, ← place_cons h] at hopen
  exact ⟨name, after, brace, more, rfl, hafter ▸ List.dropWhile_suffix _, hafter, hmark, hopen⟩

theorem group_ends (h : rest <:+ ss) (hheader : Scan.isGroupHeader rest = true) (depth start : Nat) :
    Ends (some <$> group ss depth start (place ss rest))
      (Agrees ss rest.tail (group? depth start rest)) := by
  rcases exists_openBrace h hheader with ⟨name, after, brace, more, rfl, hsuffix, hafter, hmark, hopen⟩
  rw [group, siteAt_place h, pure_bind, hopen, group?, hafter]
  exact ⟨_, rfl, brace :: more, ⟨rfl, hsuffix, Site.isMark_of_isMark hmark (by decide)⟩, fun _ => rfl⟩

theorem markAt_afterSemantic (h : xs <:+ ss) (c : Char) :
    markAt ss (afterSemantic ss (place ss xs)) c =
      (Scan.afterSemantic xs).head?.any (·.isMark c) := by
  rw [afterSemantic, markAt_place h, Scan.afterSemantic]
  split
  · rw [markAt, getElem?_place_add h, List.head?_drop]
  · exact markAt_place h c

/-- Where a mark stands behind the semantic, its place is the one behind the semantic. -/
theorem afterSemantic_place (h : xs <:+ ss) {c : Char}
    (hmark : (Scan.afterSemantic xs).head?.any (·.isMark c) = true) :
    afterSemantic ss (place ss xs) = place ss (Scan.afterSemantic xs) := by
  rw [afterSemantic, markAt_place h]
  rw [Scan.afterSemantic] at hmark ⊢
  split
  · rename_i hcolon
    rw [if_pos hcolon] at hmark
    rcases xs with _ | ⟨colon, _ | ⟨semantic, more⟩⟩
    · simp at hmark
    · simp at hmark
    · exact place_cons_cons h
  · rfl

theorem resumesAt_afterSemantic (h : xs <:+ ss) {c : Char} (hc : c ≠ '(')
    (hmark : (Scan.afterSemantic xs).head?.any (·.isMark c) = true) :
    ResumesAt ss xs (afterSemantic ss (place ss xs)) (Scan.afterSemantic xs) := by
  refine ⟨afterSemantic_place h hmark, afterSemantic_suffix xs, ?_⟩
  cases hbehind : Scan.afterSemantic xs with
  | nil => rfl
  | cons s more =>
    rw [hbehind] at hmark
    exact Site.isMark_of_isMark hmark hc

variable {type name next : Site} {j : Nat}

theorem function?_ends (h : name :: next :: rest <:+ ss) (hnext : next.isMark '(' = true)
    (htype : ss[j]? = some type) (start : Nat) :
    Ends (function? ss start j (place ss (name :: next :: rest)))
      (Agrees ss rest (Scan.function? type name start rest)) := by
  have hopen := suffix_of_cons h
  have hrest := suffix_of_cons hopen
  rw [function?, place_cons h, closing_open ')' hopen hnext, pure_bind, Scan.function?]
  cases hsplit : splitClosing '(' ')' 0 rest with
  | none => exact ⟨none, rfl, agrees_none⟩
  | some found =>
    rcases found with ⟨inside, after⟩
    have hafter := splitClosing_suffix hsplit
    have hbehind := place_of_splitClosing hsplit hrest
    -- the parameters are read at the places between the parentheses
    have hinside : Holds ss (List.range' (place ss rest) inside.length) inside := by
      rcases exists_of_splitClosing hsplit with ⟨close, rfl⟩
      exact holds_range' inside hrest
    rcases segments_ends hinside 0 with ⟨parts, hparts, xss, hholds, hsame⟩
    simp only [Option.map_some, siteAt_of_getElem? htype, siteAt_place h, pure_bind,
      place_cons_cons h, hbehind, Nat.add_sub_cancel_left, hparts, parameters_holds hholds,
      markAt_afterSemantic (hafter.trans hrest)]
    split
    · rename_i hbrace
      have hresume := resumesAt_afterSemantic (hafter.trans hrest) (by decide) hbrace
      refine ⟨_, rfl, Scan.afterSemantic after, hresume.of_suffix hafter, ?_⟩
      intro hsingle
      rw [hsame hsingle]
    split
    · rename_i hsemicolon
      have hresume := resumesAt_afterSemantic (hafter.trans hrest) (by decide) hsemicolon
      refine ⟨_, rfl, Scan.afterSemantic after, hresume.of_suffix hafter, ?_⟩
      intro hsingle
      rw [hsame hsingle]
    · exact ⟨none, rfl, agrees_none⟩

/-! ## Variables -/

theorem declarator_place (h : s :: rest <:+ ss) :
    declarator ss (place ss (s :: rest)) = pure (s, rest.head?.any (·.isMark '[')) := by
  rw [declarator, siteAt_place h, pure_bind, place_cons h, markAt_place (suffix_of_cons h)]

/-- What a comma declares by the sites behind it. -/
def listedAhead? : List Site → Option (Site × Bool)
  | name :: next :: _ =>
    if name.isIdentifier && next.followsVariable then some (name, next.isMark '[') else none
  | _ => none

theorem listed?_place (h : s :: rest <:+ ss) :
    listed? ss (place ss (s :: rest)) = pure (listedAhead? rest) := by
  have hrest := suffix_of_cons h
  rw [listed?, getElem?_place_add h, getElem?_place_add h, place_cons h]
  rcases rest with _ | ⟨name, _ | ⟨next, more⟩⟩
  · simp [listedAhead?]
  · simp [listedAhead?]
  · rw [declarator_place hrest]
    by_cases hnamed : (name.isIdentifier && next.followsVariable) = true
    · simp [listedAhead?, hnamed]
    · simp [listedAhead?, hnamed]

theorem isClosing_of_isOpening (h : s.isOpening = true) : s.isClosing = false := by
  rw [isOpening_eq] at h
  rcases Option.isSome_iff_exists.1 h with ⟨c, hc⟩
  exact isClosing_of_closer? hc

/-- The list of declarators site by site, its end asked for bracket by bracket. -/
theorem declarators_cons (hs : IsSingle s) (level : Nat) (rest : List Site) :
    Scan.declarators level (s :: rest) =
      if s.isDirective || (level = 0 && s.endsStatement) then ([], s :: rest)
      else if isOpening s then Scan.declarators (level + 1) rest
      else if isClosing s then
        if level = 0 then ([], s :: rest) else Scan.declarators (level - 1) rest
      else if s.isMark ',' && level = 0 then
        ((listedAhead? rest).toList ++ (Scan.declarators level rest).1,
          (Scan.declarators level rest).2)
      else Scan.declarators level rest := by
  rw [Scan.declarators.eq_def, isOpening_of_isSingle hs, isClosing_of_isSingle hs]
  simp only
  cases hopening : s.isOpening with
  | true => simp [isClosing_of_isOpening hopening]
  | false =>
    cases hclosing : s.isClosing with
    | false =>
      -- what the comma declares is read off the two sites behind it
      rcases rest with _ | ⟨name, _ | ⟨next, more⟩⟩
      · simp [listedAhead?]
      · simp [listedAhead?]
      · by_cases hnamed : (name.isIdentifier && next.followsVariable) = true
        · simp [listedAhead?, hnamed]
        · simp [listedAhead?, hnamed]
    | true =>
      by_cases hlevel : level = 0
      · simp [hlevel]
      · simp [hlevel]

/-- The list of declarators ends at a directive, at the end of the statement or at a bracket that closes,
or with the sites. -/
theorem declarators_ends (h : xs <:+ ss) (level : Nat) :
    Ends (declarators ss level (place ss xs)) fun r => ∃ rest, ResumesAt ss xs r.2 rest ∧
      (AreSingle ss → Scan.declarators level xs = (r.1, rest)) := by
  -- on the sites that are left: each test of the loop either ends it here or passes over one site
  induction xs generalizing level with
  | nil =>
    rw [declarators, if_neg not_place_nil_lt]
    exact ⟨_, rfl, [], ⟨rfl, List.suffix_rfl, rfl⟩, fun _ => rfl⟩
  | cons s rest ih =>
    have hsuffix := List.suffix_cons s rest
    have hrest := hsuffix.trans h
    have hs (hsingle : AreSingle ss) := hsingle s (h.subset List.mem_cons_self)
    rw [declarators, if_pos (place_lt h), siteAt_place h, pure_bind, place_cons h]
    split
    · rename_i hends
      have hmark : s.isMark '(' = false := by
        rw [← Bool.not_eq_true]
        intro hmark
        simp [Site.isDirective_of_isMark hmark, Site.endsStatement, Site.isMark_of_isMark hmark] at hends
      refine ⟨_, rfl, s :: rest, ⟨rfl, List.suffix_rfl, hmark⟩, ?_⟩
      intro hsingle
      rw [declarators_cons (hs hsingle), if_pos hends]
    rename_i hends
    split
    · rename_i hopening
      rcases ih hrest (level + 1) with ⟨r, hr, behind, hresume, hsame⟩
      refine ⟨r, hr, behind, hresume.of_suffix hsuffix, ?_⟩
      intro hsingle
      rw [declarators_cons (hs hsingle), if_neg hends, if_pos hopening, hsame hsingle]
    rename_i hopening
    split
    · rename_i hclosing
      split
      · rename_i hlevel
        have hmark : s.isMark '(' = false := by
          rw [← Bool.not_eq_true]
          exact fun hmark => hopening (isOpening_of_isMark hmark)
        refine ⟨_, rfl, s :: rest, ⟨rfl, List.suffix_rfl, hmark⟩, ?_⟩
        intro hsingle
        rw [declarators_cons (hs hsingle), if_neg hends, if_neg hopening, if_pos hclosing, if_pos hlevel]
      · rename_i hlevel
        rcases ih hrest (level - 1) with ⟨r, hr, behind, hresume, hsame⟩
        refine ⟨r, hr, behind, hresume.of_suffix hsuffix, ?_⟩
        intro hsingle
        rw [declarators_cons (hs hsingle), if_neg hends, if_neg hopening, if_pos hclosing, if_neg hlevel,
          hsame hsingle]
    rename_i hclosing
    rcases ih hrest level with ⟨r, hr, behind, hresume, hsame⟩
    split
    · rename_i hcomma
      rw [listed?_place h, pure_bind, hr]
      refine ⟨_, rfl, behind, hresume.of_suffix hsuffix, ?_⟩
      intro hsingle
      rw [declarators_cons (hs hsingle), if_neg hends, if_neg hopening, if_neg hclosing, if_pos hcomma,
        hsame hsingle]
    · rename_i hcomma
      refine ⟨r, hr, behind, hresume.of_suffix hsuffix, ?_⟩
      intro hsingle
      rw [declarators_cons (hs hsingle), if_neg hends, if_neg hopening, if_neg hclosing, if_neg hcomma,
        hsame hsingle]

theorem variableList_ends (h : name :: rest <:+ ss) (kind : DeclarationKind) (depth start : Nat) :
    Ends (some <$> variableList ss kind depth type start (place ss (name :: rest)))
      (Agrees ss rest (some (Scan.variableList kind depth type name start rest))) := by
  have hrest := suffix_of_cons h
  rcases declarators_ends hrest 0 with ⟨r, hr, behind, hresume, hsame⟩
  rw [variableList, declarator_place h, pure_bind, place_cons h, hr]
  refine ⟨_, rfl, behind, hresume, ?_⟩
  intro hsingle
  rw [Scan.variableList, hsame hsingle]

/-! ## Statements -/

theorem typed?_ends (h : xs <:+ ss) (scopes : List Scope) (start : Nat) :
    Ends (typed? ss scopes start (place ss xs)) (Agrees ss xs.tail (Scan.typed? scopes start xs)) := by
  rw [typed?, getElem?_place h]
  cases xs with
  | nil => exact ⟨none, rfl, agrees_none⟩
  | cons type rest =>
    have hrest := suffix_of_cons h
    rw [List.head?_cons, List.tail_cons, Scan.typed?]
    simp only
    split
    · rw [place_cons h, afterType_place hrest, pure_bind]
      cases hafter : Scan.afterType rest with
      | none => exact ⟨none, rfl, agrees_none⟩
      | some behind =>
        have hsuffix := afterType_suffix hafter
        have hbehind := hsuffix.trans hrest
        simp only [Option.map_some, getElem?_place hbehind, getElem?_place_add hbehind]
        rcases behind with _ | ⟨name, _ | ⟨next, more⟩⟩
        · exact ⟨none, rfl, agrees_none⟩
        · exact ⟨none, rfl, agrees_none⟩
        · have hmore := (List.suffix_append [name, next] more).trans hsuffix
          simp only [List.head?_cons, List.getElem?_cons_succ, List.getElem?_cons_zero]
          split
          · split
            · rename_i hround
              have hnext := (Bool.and_eq_true_iff.1 hround).1
              exact (function?_ends hbehind hnext (getElem?_place h) start).imp
                fun _ hagrees => hagrees.of_suffix hmore
            split
            · exact (variableList_ends hbehind _ scopes.length start).imp
                fun _ hagrees => hagrees.of_suffix ((List.suffix_cons name _).trans hsuffix)
            · exact ⟨none, rfl, agrees_none⟩
          · exact ⟨none, rfl, agrees_none⟩
    · exact ⟨none, rfl, agrees_none⟩

theorem tail_suffix_of_suffix_cons (h : xs <:+ s :: rest) : xs.tail <:+ rest := by
  rcases List.suffix_cons_iff.1 h with rfl | h
  · exact List.suffix_rfl
  · exact (List.tail_suffix xs).trans h

/-- A statement ends, and the scan goes on behind its first site. -/
theorem statement?_ends (h : s :: rest <:+ ss) (scopes : List Scope) :
    Ends (statement? d ss scopes (place ss (s :: rest)))
      (Agrees ss rest (Scan.statement? d scopes (s :: rest))) := by
  rw [statement?, siteAt_place h, pure_bind, head_place h, pure_bind, Scan.statement?]
  cases hhead : Scan.head d (s :: rest) with
  | none => exact ⟨none, rfl, agrees_none⟩
  | some found =>
    have hsuffix := head_suffix hhead
    have hbehind := tail_suffix_of_suffix_cons hsuffix
    cases found with
    | group behind =>
      exact (group_ends (hsuffix.trans h) (isGroupHeader_of_head hhead) scopes.length s.index).imp
        fun _ hagrees => hagrees.of_suffix hbehind
    | plain behind =>
      exact (typed?_ends (hsuffix.trans h) scopes s.index).imp
        fun _ hagrees => hagrees.of_suffix hbehind

/-! ## The scan -/

theorem afterFor_place (h : s :: rest <:+ ss) :
    afterFor ss (place ss rest) = decide (s.text = ['f', 'o', 'r']) := by
  rw [← place_cons h, afterFor, getElem?_place h]
  rfl

theorem afterFor_of_isMark (h : s :: rest <:+ ss) {c : Char} (hs : s.isMark c = true) :
    afterFor ss (place ss rest) = false := by
  have htext : s.text = [c] := of_decide_eq_true (Bool.and_eq_true_iff.1 hs).2
  rw [afterFor_place h, htext]
  simp

theorem start?_ends (h : s :: rest <:+ ss) (st : State) :
    Ends (if st.atStart then statement? d ss st.scopes (place ss (s :: rest)) else pure none)
      (Agrees ss rest (if st.atStart then Scan.statement? d st.scopes (s :: rest) else none)) := by
  split
  · exact statement?_ends h st.scopes
  · exact ⟨none, rfl, agrees_none⟩

/-- The scan ends. Where a parenthesis opens it is asked whether the word `for` stands before it. -/
theorem declarations_ends (h : xs <:+ ss) (st : State) :
    Ends (declarations d ss st.scopes st.pending st.atStart (place ss xs)) fun r =>
      AreSingle ss →
      (xs.head?.any (·.isMark '(') = true → st.afterFor = afterFor ss (place ss xs)) →
      r = Scan.declarations d st xs := by
  -- on the number of sites that are left, since a statement passes over many at once
  induction hsize : xs.length using Nat.strongRecOn generalizing st xs with
  | ind size ih =>
    subst hsize
    cases xs with
    | nil =>
      rw [declarations, if_neg not_place_nil_lt, Scan.declarations]
      exact ⟨[], rfl, fun _ _ => rfl⟩
    | cons s rest =>
      have hrest := suffix_of_cons h
      have hnext (st : State) := ih rest.length (by simp) hrest st rfl
      rw [declarations, if_pos (place_lt h), siteAt_place h, pure_bind, place_cons h]
      split
      · rename_i hdirective
        refine (hnext { st with atStart := true, afterFor := s.text = ['f', 'o', 'r'] }).imp ?_
        intro r hsame hsingle _
        rw [declarations_cons, if_pos hdirective]
        exact hsame hsingle fun _ => (afterFor_place h).symm
      rename_i hdirective
      split
      · rename_i hopen
        refine (hnext { scopes := st.pending :: st.scopes }).imp ?_
        intro r hsame hsingle _
        rw [declarations_cons, if_neg hdirective, if_pos hopen]
        exact hsame hsingle fun _ => (afterFor_of_isMark h hopen).symm
      rename_i hopen
      split
      · rename_i hclose
        refine (hnext { scopes := st.scopes.tail, pending := st.pending }).imp ?_
        intro r hsame hsingle _
        rw [declarations_cons, if_neg hdirective, if_neg hopen, if_pos hclose]
        exact hsame hsingle fun _ => (afterFor_of_isMark h hclose).symm
      rename_i hclose
      split
      · rename_i hsemicolon
        refine (hnext { scopes := st.scopes }).imp ?_
        intro r hsame hsingle _
        rw [declarations_cons, if_neg hdirective, if_neg hopen, if_neg hclose, if_pos hsemicolon]
        exact hsame hsingle fun _ => (afterFor_of_isMark h hsemicolon).symm
      rename_i hsemicolon
      rcases start?_ends h st with ⟨found, hfound, hagrees⟩
      rw [hfound, pure_bind]
      cases found with
      | none =>
        refine (hnext
          { st with
            atStart := s.isMark '(' && afterFor ss (place ss (s :: rest))
            afterFor := s.text = ['f', 'o', 'r'] }).imp ?_
        intro r hsame hsingle hfor
        have hstart : (s.isMark '(' && st.afterFor) =
            (s.isMark '(' && afterFor ss (place ss (s :: rest))) := by
          cases hround : s.isMark '(' with
          | true => rw [hfor (by simpa using hround)]
          | false => rfl
        rw [declarations_cons, if_neg hdirective, if_neg hopen, if_neg hclose, if_neg hsemicolon,
          hagrees hsingle, Option.elim_none, hstart]
        exact hsame hsingle fun _ => (afterFor_place h).symm
      | some found =>
        -- no parenthesis opens behind a statement, so the word before it does not matter
        rcases hagrees with ⟨behind, hresume, hscan⟩
        have hshorter : behind.length < (s :: rest).length :=
          Nat.lt_succ_of_le hresume.suffix.length_le
        rcases ih behind.length hshorter (hresume.suffix.trans hrest)
            { scopes := st.scopes, pending := found.opens.getD st.pending, atStart := false } rfl with
          ⟨more, hmore, hsame⟩
        simp only [hresume.place_eq, hmore, pure_bind]
        refine ⟨_, rfl, ?_⟩
        intro hsingle _
        rw [declarations_cons, if_neg hdirective, if_neg hopen, if_neg hclose, if_neg hsemicolon,
          hscan hsingle, Option.elim_some, hsame hsingle (by simp [hresume.not_round])]

/-! ## All places -/

theorem exists_suffix_at (h : k < ss.length) :
    ∃ s rest, s :: rest <:+ ss ∧ place ss (s :: rest) = k := by
  refine ⟨ss[k], ss.drop (k + 1), ?_, ?_⟩
  · rw [← List.drop_eq_getElem_cons h]
    exact List.drop_suffix k ss
  · simp only [place, List.length_cons, List.length_drop]
    omega

theorem eq_of_pure_eq_pure {α : Type} {a b : α} (h : (pure a : Run α) = pure b) : a = b :=
  Except.ok.inj (Option.some.inj h)

/-- Where a group is found, a brace stands behind its name, and the search for it stops there. -/
theorem exists_brace_of_head {name : Nat} (hhead : head d ss k = pure (some (.group name))) :
    ∃ brace, name < brace ∧ brace < ss.length ∧ markAt ss brace '{' = true ∧
      openBrace ss (name + 1) = some brace := by
  have hk : k < ss.length := by
    rw [← Nat.not_le]
    intro hk
    rw [head, List.getElem?_eq_none hk] at hhead
    exact Option.some_ne_none _ (eq_of_pure_eq_pure hhead).symm
  rcases exists_suffix_at hk with ⟨s, rest, h, rfl⟩
  rw [head_place h] at hhead
  rcases Option.map_eq_some_iff.1 (eq_of_pure_eq_pure hhead) with ⟨found, hfound, hat⟩
  have hsuffix := (head_suffix hfound).trans h
  cases found with
  | plain behind => exact Head.noConfusion hat
  | group behind =>
    obtain rfl : place ss behind = name := Head.group.inj hat
    rcases exists_openBrace hsuffix (isGroupHeader_of_head hfound) with
      ⟨name, after, brace, more, rfl, hbrace, -, hmark, hopen⟩
    have hbehind := hbrace.trans (suffix_of_cons hsuffix)
    refine ⟨place ss (brace :: more), place_lt_place hsuffix hbrace, place_lt hbehind, ?_, hopen⟩
    rw [markAt_place hbehind]
    exact hmark

theorem statement?_resumes (hk : k < ss.length) (scopes : List Scope) :
    Ends (statement? d ss scopes k) fun r =>
      ∀ found ∈ r, k < found.resume ∧ found.resume ≤ ss.length := by
  rcases exists_suffix_at hk with ⟨s, rest, h, rfl⟩
  refine (statement?_ends h scopes).imp ?_
  rintro r hagrees found rfl
  rcases hagrees with ⟨behind, hresume, -⟩
  rw [hresume.place_eq]
  exact ⟨place_lt_place h hresume.suffix, Nat.sub_le _ _⟩

/-- The scan finds its declarations from the first place on. -/
theorem scanPlaces_finds (d : Dialect) (tokens : List Token) :
    Ends (scanPlaces d tokens) fun found =>
      AreSingle (sites tokens) → found = scanDeclarations d tokens := by
  have hstart := declarations_ends (d := d) (List.suffix_refl (sites tokens)) {}
  rw [place, Nat.sub_self] at hstart
  refine hstart.imp ?_
  intro found hfound hsingle
  exact hfound hsingle fun _ => rfl

end Sites

/-- The scan by places comes to an end: behind the name of a group the search for a brace stops at one, a
statement makes the scan go on behind its first site, and no site is missing where one has to be. Where
punctuation is single marks, it finds what the scan finds that hands on the sites. -/
structure ScanEnds (d : Dialect) (tokens : List Token) : Prop where
  group : ∀ k name, Sites.head d (sites tokens) k = pure (some (.group name)) →
    ∃ brace, name < brace ∧ brace < (sites tokens).length ∧
      Sites.markAt (sites tokens) brace '{' = true ∧
      Sites.openBrace (sites tokens) (name + 1) = some brace
  statement : ∀ scopes k, k < (sites tokens).length →
    Ends (Sites.statement? d (sites tokens) scopes k) fun r =>
      ∀ found ∈ r, k < found.resume ∧ found.resume ≤ (sites tokens).length
  scan : Ends (scanPlaces d tokens) fun found =>
    Sites.AreSingle (sites tokens) → found = scanDeclarations d tokens

theorem scanPlaces_ends (d : Dialect) (tokens : List Token) : ScanEnds d tokens where
  group _ _ := Sites.exists_brace_of_head
  statement scopes _ hk := Sites.statement?_resumes hk scopes
  scan := Sites.scanPlaces_finds d tokens

/-! ## The tokens of a text -/

theorem areSingle_of_tokenize {d : Dialect} {t : Text} {tokens : List Token}
    (h : tokenize d t = .ok tokens) : Sites.AreSingle (sites tokens) := by
  rcases Lexer.tokenize_eq_ok_iff.1 h with ⟨ls, hlexed, -, rfl⟩
  intro s hs hkind
  rcases exists_token_of_mem_sites hs with ⟨token, hget, hlexeme, -⟩
  have hmem : s.toLexeme ∈ ls ++ [⟨.eof, []⟩] := by
    rw [← Lexer.map_toLexeme_place 0 .origin ls, ← hlexeme]
    exact List.mem_map_of_mem (List.mem_of_getElem? hget)
  rcases List.mem_append.1 hmem with hmem | hmem
  · rcases Lexer.exists_reads_of_mem hlexed hmem with ⟨b, rest, hreads⟩
    exact hreads.length_of_punctuation hkind
  · rw [List.mem_singleton.1 hmem] at hkind
    exact TokenKind.noConfusion hkind

/-- Of the tokens of a text, the scan by places finds what the scan finds that hands on the sites. -/
theorem scanPlaces_of_tokenize {d d' : Dialect} {t : Text} {tokens : List Token}
    (h : tokenize d' t = .ok tokens) : scanPlaces d tokens = pure (scanDeclarations d tokens) := by
  rcases Sites.scanPlaces_finds d tokens with ⟨found, hfound, hsame⟩
  rw [hfound, hsame (areSingle_of_tokenize h)]

end ShaderStyle.Scan
