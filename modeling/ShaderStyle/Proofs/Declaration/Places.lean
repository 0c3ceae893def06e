import Mathlib.Data.List.Forall2
import ShaderStyle.Proofs.Declaration.Loops
import ShaderStyle.Proofs.Declaration.Names

/-!
# Places of what is left

A place of a list stands for the sites from there on (`place`). A loop of the scan by places that starts
at such a place is the recursion over those sites: for each loop there is one lemma that says so. Where
the loop is given the places of some sites instead of a start, the two lists go side by side (`Holds`).

Punctuation need not be a single mark here. Where it is (`IsSingle`), both ways to ask for a bracket are
the same.
-/

namespace ShaderStyle.Scan.Sites

variable {d : Dialect} {ss xs rest : List Site} {s : Site}

/-! ## Places of what is left -/

/-- The place from which on some last sites of a list stand. -/
def place (ss xs : List Site) : Nat :=
  ss.length - xs.length

theorem getElem?_place_add (h : xs <:+ ss) (n : Nat) : ss[place ss xs + n]? = xs[n]? := by
  rcases h with ⟨before, rfl⟩
  rw [place, List.length_append, Nat.add_sub_cancel, List.getElem?_append_right (by omega),
    Nat.add_sub_cancel_left]

theorem getElem?_place (h : xs <:+ ss) : ss[place ss xs]? = xs.head? := by
  rw [List.head?_eq_getElem?]
  exact getElem?_place_add h 0

theorem place_cons (h : s :: rest <:+ ss) : place ss (s :: rest) + 1 = place ss rest := by
  have hlen := h.length_le
  simp only [place, List.length_cons] at hlen ⊢
  omega

theorem place_cons_cons {next : Site} (h : s :: next :: rest <:+ ss) :
    place ss (s :: next :: rest) + 2 = place ss rest := by
  have hlen := h.length_le
  simp only [place, List.length_cons] at hlen ⊢
  omega

theorem place_append (h : xs ++ rest <:+ ss) : place ss (xs ++ rest) + xs.length = place ss rest := by
  have hlen := h.length_le
  simp only [place, List.length_append] at hlen ⊢
  omega

theorem place_lt (h : s :: rest <:+ ss) : place ss (s :: rest) < ss.length := by
  have hlen := h.length_le
  simp only [place, List.length_cons] at hlen ⊢
  omega

theorem place_lt_place {ys : List Site} (h : s :: rest <:+ ss) (hys : ys <:+ rest) :
    place ss (s :: rest) < place ss ys := by
  have hlen := h.length_le
  have hshorter := hys.length_le
  simp only [place, List.length_cons] at hlen ⊢
  omega

theorem not_place_nil_lt : ¬ place ss [] < ss.length := by
  simp [place]

theorem suffix_of_cons (h : s :: rest <:+ ss) : rest <:+ ss :=
  (List.suffix_cons s rest).trans h

theorem siteAt_place (h : s :: rest <:+ ss) : siteAt ss (place ss (s :: rest)) = pure s := by
  rw [siteAt, getElem?_place h]
  rfl

theorem markAt_place (h : xs <:+ ss) (c : Char) :
    markAt ss (place ss xs) c = xs.head?.any (·.isMark c) := by
  rw [markAt, getElem?_place h]

/-! ## Brackets and template arguments -/

theorem closing_place (opener closer : Char) (h : xs <:+ ss) (depth : Nat) :
    closing ss opener closer (depth + 1) (place ss xs) =
      pure ((splitClosing opener closer depth xs).map fun p => place ss xs + p.1.length) := by
  induction xs generalizing depth with
  | nil =>
    rw [closing, if_neg not_place_nil_lt]
    rfl
  | cons s rest ih =>
    -- a site that is passed over belongs to what the brackets enclose
    have hpass (depth : Nat) : closing ss opener closer (depth + 1) (place ss (s :: rest) + 1) =
        pure (((splitClosing opener closer depth rest).map fun p => (s :: p.1, p.2)).map
          fun p => place ss (s :: rest) + p.1.length) := by
      rw [place_cons h, ih (suffix_of_cons h) depth, Option.map_map]
      congr 2
      funext p
      simp only [Function.comp_apply, List.length_cons, ← place_cons h]
      omega
    rw [closing, if_pos (place_lt h), siteAt_place h, pure_bind]
    simp only [splitClosing]
    split
    · exact_mod_cast hpass (depth + 1)
    split
    · cases depth with
      | zero => rfl
      | succ depth =>
        rw [if_neg (by omega), show ((depth + 1 : Nat) : Int) + 1 - 1 = depth + 1 by omega]
        exact hpass depth
    · exact hpass depth

/-- From an opening bracket on, the place of the one that closes it is found. -/
theorem closing_open {opener : Char} (closer : Char) (h : s :: rest <:+ ss)
    (hs : s.isMark opener = true) :
    closing ss opener closer 0 (place ss (s :: rest)) =
      pure ((splitClosing opener closer 0 rest).map fun p => place ss rest + p.1.length) := by
  rw [closing, if_pos (place_lt h), siteAt_place h, pure_bind, if_pos hs, place_cons h]
  exact closing_place opener closer (suffix_of_cons h) 0

/-- What brackets enclose stands before their closing one, and that before what is left. -/
theorem exists_of_splitClosing {opening closing : Char} {depth : Nat} {inside : List Site}
    (h : splitClosing opening closing depth xs = some (inside, rest)) :
    ∃ s, xs = inside ++ s :: rest := by
  induction xs generalizing depth inside with
  | nil => simp [splitClosing] at h
  | cons s more ih =>
    have hkept {depth : Nat}
        (h : (splitClosing opening closing depth more).map (fun p => (s :: p.1, p.2)) =
          some (inside, rest)) : ∃ t, s :: more = inside ++ t :: rest := by
      rcases Option.map_eq_some_iff.1 h with ⟨⟨a, b⟩, hsplit, heq⟩
      rcases Prod.mk.inj heq with ⟨rfl, rfl⟩
      rcases ih hsplit with ⟨t, rfl⟩
      exact ⟨t, rfl⟩
    simp only [splitClosing] at h
    split at h
    · exact hkept h
    · split at h
      · cases depth with
        | zero =>
          rw [Option.some.injEq, Prod.mk.injEq] at h
          exact ⟨s, by rw [← h.1, h.2]; rfl⟩
        | succ depth => exact hkept h
      · exact hkept h

theorem templateEnd_place (h : xs <:+ ss) (depth : Nat) :
    templateEnd ss depth (place ss xs) =
      pure ((afterTemplate depth xs).map fun rest => place ss rest - 1) := by
  induction xs generalizing depth with
  | nil =>
    rw [templateEnd, if_neg not_place_nil_lt]
    rfl
  | cons s rest ih =>
    have hrest := ih (suffix_of_cons h)
    rw [templateEnd, if_pos (place_lt h), siteAt_place h, pure_bind, afterTemplate, place_cons h]
    split
    · exact_mod_cast hrest (depth + 1)
    split
    · by_cases hlast : depth ≤ s.text.length
      · rw [if_pos (by omega), if_pos hlast, Option.map_some, ← place_cons h]
        rfl
      · rw [if_neg (by omega), if_neg hlast, ← hrest, Int.ofNat_sub (by omega)]
    split
    · rfl
    · exact hrest depth

theorem afterType_place (h : xs <:+ ss) :
    afterType ss (place ss xs) = pure ((Scan.afterType xs).map (place ss)) := by
  rw [afterType, getElem?_place h, Scan.afterType]
  split
  · rename_i hangle
    cases xs with
    | nil => simp at hangle
    | cons s rest =>
      have hs : s.isOperator ['<'] = true := by simpa using hangle
      have hopen : afterTemplate 0 (s :: rest) = afterTemplate 1 rest := by
        rw [afterTemplate, if_pos hs]
      have hend := templateEnd_place h 0
      rw [hopen] at hend
      rw [List.tail_cons, show (0 : Int) = ((0 : Nat) : Int) from rfl, hend, pure_bind,
        Option.map_map]
      congr 1
      -- the sites that are left stand behind the closing angle bracket
      cases hafter : afterTemplate 1 rest with
      | none => rfl
      | some after =>
        have hshorter := length_afterTemplate hafter
        have hlen := h.length_le
        simp only [Option.map_some, Function.comp_apply, place, List.length_cons] at hlen ⊢
        congr 1
        omega
  · rfl

/-! ## Groups of fields -/

theorem bodyAhead_place (h : xs <:+ ss) :
    bodyAhead ss (place ss xs) = pure (Scan.bodyAhead xs) := by
  induction xs with
  | nil =>
    rw [bodyAhead, if_neg not_place_nil_lt]
    rfl
  | cons s rest ih =>
    rw [bodyAhead, if_pos (place_lt h), siteAt_place h, pure_bind, Scan.bodyAhead]
    split
    · rfl
    split
    · rfl
    · rw [place_cons h]
      exact ih (suffix_of_cons h)

theorem isGroupHeader_place (h : xs <:+ ss) :
    isGroupHeader ss (place ss xs) = pure (Scan.isGroupHeader xs) := by
  rw [isGroupHeader, getElem?_place h]
  rcases xs with _ | ⟨name, _ | ⟨next, more⟩⟩
  · rfl
  · have hnext : ss[place ss [name] + 1]? = none := getElem?_place_add h 1
    simp [Scan.isGroupHeader, markAt, hnext]
  · have hmark (c : Char) : markAt ss (place ss (name :: next :: more) + 1) c = next.isMark c := by
      rw [place_cons h, markAt_place (suffix_of_cons h)]
      rfl
    rw [hmark, hmark, place_cons h, bodyAhead_place (suffix_of_cons h)]
    cases hname : name.isIdentifier with
    | false => simp [Scan.isGroupHeader, hname]
    | true =>
      by_cases hbrace : next.isMark '{' = true
      · simp [Scan.isGroupHeader, hname, hbrace]
      · by_cases hcolon : next.isMark ':' = true
        · -- the look for a brace starts at the colon, which does not end it
          have hsemicolon := Site.isMark_of_isMark hcolon (show ':' ≠ ';' by decide)
          have hclose := Site.isMark_of_isMark hcolon (show ':' ≠ '}' by decide)
          simp [Scan.isGroupHeader, Scan.bodyAhead, hname, hbrace, hcolon, hsemicolon, hclose]
        · simp [Scan.isGroupHeader, hname, hbrace, hcolon]

theorem exists_brace_of_bodyAhead (h : Scan.bodyAhead xs = true) : ∃ s ∈ xs, s.isMark '{' = true := by
  induction xs with
  | nil => simp [Scan.bodyAhead] at h
  | cons s rest ih =>
    rw [Scan.bodyAhead] at h
    split at h
    · rename_i hs
      exact ⟨s, List.mem_cons_self, hs⟩
    split at h
    · simp at h
    · rcases ih h with ⟨t, ht, hbrace⟩
      exact ⟨t, List.mem_cons_of_mem s ht, hbrace⟩

/-- A brace stands behind the name of a group. -/
theorem exists_brace_of_isGroupHeader (h : Scan.isGroupHeader xs = true) :
    ∃ name after, xs = name :: after ∧ ∃ s ∈ after, s.isMark '{' = true := by
  unfold Scan.isGroupHeader at h
  split at h
  · rename_i name next more
    rcases Bool.and_eq_true_iff.1 h with ⟨-, hbody⟩
    refine ⟨name, next :: more, rfl, ?_⟩
    rcases Bool.or_eq_true_iff.1 hbody with hbrace | hlater
    · exact ⟨next, List.mem_cons_self, hbrace⟩
    · rcases exists_brace_of_bodyAhead (Bool.and_eq_true_iff.1 hlater).2 with ⟨s, hs, hbrace⟩
      exact ⟨s, List.mem_cons_of_mem next hs, hbrace⟩
  · simp at h

/-- The search for a brace ends where one is left. -/
theorem openBrace_place (h : xs <:+ ss) (hbrace : ∃ s ∈ xs, s.isMark '{' = true) :
    openBrace ss (place ss xs) = some (place ss (xs.dropWhile fun s => !s.isMark '{')) := by
  induction xs with
  | nil => simp at hbrace
  | cons s rest ih =>
    rw [openBrace, markAt_place h, List.head?_cons, Option.any_some]
    by_cases hs : s.isMark '{' = true
    · rw [if_pos hs, List.dropWhile_cons_of_neg (by simp [hs])]
    · rw [if_neg hs, List.dropWhile_cons_of_pos (by simp [hs]), place_cons h]
      apply ih (suffix_of_cons h)
      rcases hbrace with ⟨t, ht, hmark⟩
      rcases List.mem_cons.1 ht with rfl | ht
      · exact absurd hmark hs
      · exact ⟨t, ht, hmark⟩

/-! ## The start of a statement -/

/-- What stands behind attributes and qualifiers, by its place. -/
def Head.at (ss : List Site) : Scan.Head → Head
  | .group rest => .group (place ss rest)
  | .plain rest => .plain (place ss rest)

theorem place_of_splitClosing {opening closing : Char} {depth : Nat} {inside : List Site}
    (hsplit : splitClosing opening closing depth xs = some (inside, rest)) (h : xs <:+ ss) :
    place ss xs + inside.length + 1 = place ss rest := by
  rcases exists_of_splitClosing hsplit with ⟨t, rfl⟩
  rw [place_append h, place_cons ((List.suffix_append inside _).trans h)]

/-- A parenthesis opens behind the word of a layout qualifier. -/
theorem exists_open_of_layout (h : (isLayoutWord s && rest.head?.any (·.isMark '(')) = true) :
    ∃ opening more, rest = opening :: more ∧ opening.isMark '(' = true := by
  cases rest with
  | nil => simp at h
  | cons opening more => exact ⟨opening, more, rfl, (Bool.and_eq_true_iff.1 h).2⟩

theorem groupWord_place (h : rest <:+ ss) :
    (if d.isGroupWord s.text then isGroupHeader ss (place ss rest) else pure false) =
      pure (d.isGroupWord s.text && Scan.isGroupHeader rest) := by
  rw [isGroupHeader_place h]
  cases d.isGroupWord s.text <;> rfl

theorem head_place (h : xs <:+ ss) :
    head d ss (place ss xs) = pure ((Scan.head d xs).map (Head.at ss)) := by
  fun_induction Scan.head d xs with
  | case1 =>
    rw [head, getElem?_place h]
    rfl
  | case2 s rest hs hsplit =>
    rw [head, getElem?_place h, List.head?_cons]
    simp only [hs, if_true, closing_open ']' h hs, hsplit]
    rfl
  | case3 s rest hs inside after hsplit ih =>
    have hrest := suffix_of_cons h
    rw [head, getElem?_place h, List.head?_cons]
    simp only [hs, if_true, closing_open ']' h hs, hsplit, Option.map_some, pure_bind]
    rw [place_of_splitClosing hsplit hrest]
    exact ih ((splitClosing_suffix hsplit).trans hrest)
  | case4 s rest hs hlayout hsplit =>
    rcases exists_open_of_layout hlayout with ⟨opening, more, rfl, hopening⟩
    have hrest := suffix_of_cons h
    rw [head, getElem?_place h, List.head?_cons]
    simp only [hs, place_cons h, markAt_place hrest, hlayout, if_true, closing_open ')' hrest hopening]
    rw [List.tail_cons] at hsplit
    rw [hsplit]
    rfl
  | case5 s rest hs hlayout inside after hsplit ih =>
    rcases exists_open_of_layout hlayout with ⟨opening, more, rfl, hopening⟩
    have hrest := suffix_of_cons h
    have hmore := suffix_of_cons hrest
    rw [List.tail_cons] at hsplit
    rw [head, getElem?_place h, List.head?_cons]
    simp only [hs, place_cons h, markAt_place hrest, hlayout, if_true, closing_open ')' hrest hopening,
      hsplit, Option.map_some, pure_bind]
    rw [place_of_splitClosing hsplit hmore]
    exact ih ((splitClosing_suffix hsplit).trans hmore)
  | case6 s rest hs hlayout hgroup =>
    have hrest := suffix_of_cons h
    rw [head, getElem?_place h, List.head?_cons]
    simp only [hs, place_cons h, markAt_place hrest, hlayout, groupWord_place hrest, hgroup, pure_bind]
    rfl
  | case7 s rest hs hlayout hgroup hqualifier ih =>
    have hrest := suffix_of_cons h
    rw [head, getElem?_place h, List.head?_cons]
    simp only [hs, place_cons h, markAt_place hrest, hlayout, groupWord_place hrest, hgroup, pure_bind,
      hqualifier, if_true]
    exact ih hrest
  | case8 s rest hs hlayout hgroup hqualifier =>
    have hrest := suffix_of_cons h
    rw [head, getElem?_place h, List.head?_cons]
    simp only [hs, place_cons h, markAt_place hrest, hlayout, groupWord_place hrest, hgroup, pure_bind,
      hqualifier]
    rfl

/-! ## Brackets of all forms -/

/-- Punctuation is one mark, as lexing cuts it off. -/
def IsSingle (s : Site) : Prop :=
  s.kind = .punctuation → s.text.length = 1

/-- Punctuation is single marks throughout. -/
def AreSingle (ss : List Site) : Prop :=
  ∀ s ∈ ss, IsSingle s

theorem isPiece_of_isSingle (h : IsSingle s) (marks : Text) :
    isPiece s marks = marks.any (s.isMark ·) := by
  by_cases hkind : s.kind = .punctuation
  · rcases List.length_eq_one_iff.1 (h hkind) with ⟨c, hc⟩
    rw [Bool.eq_iff_iff, List.any_eq_true]
    simp [isPiece, Lexeme.isMark, hkind, hc, List.singleton_infix_iff]
  · simp [isPiece, Lexeme.isMark, hkind]

theorem isOpening_of_isSingle (h : IsSingle s) : isOpening s = s.isOpening := by
  rw [isOpening, isPiece_of_isSingle h]
  simp [Site.isOpening, Bool.or_assoc]

theorem isClosing_of_isSingle (h : IsSingle s) : isClosing s = s.isClosing := by
  rw [isClosing, isPiece_of_isSingle h]
  simp [Site.isClosing, Bool.or_assoc]

theorem levelStep_of_isSingle (h : IsSingle s) : levelStep s = Scan.levelStep s := by
  rw [levelStep, isOpening_of_isSingle h, isClosing_of_isSingle h, Scan.levelStep]

theorem isOpening_of_isMark (h : s.isMark '(' = true) : isOpening s = true := by
  rcases Bool.and_eq_true_iff.1 h with ⟨hkind, htext⟩
  rw [isOpening, isPiece, hkind, of_decide_eq_true htext]
  decide

/-! ## Parameters -/

/-- The sites at some places. -/
def Holds (ss : List Site) (ks : List Nat) (xs : List Site) : Prop :=
  List.Forall₂ (fun k s => ss[k]? = some s) ks xs

variable {ks : List Nat} {k : Nat}

theorem siteAt_of_getElem? (h : ss[k]? = some s) : siteAt ss k = pure s := by
  rw [siteAt, h]

theorem holds_range' (inside : List Site) (h : inside ++ rest <:+ ss) :
    Holds ss (List.range' (place ss (inside ++ rest)) inside.length) inside := by
  induction inside with
  | nil => exact .nil
  | cons s inside ih =>
    rw [List.cons_append] at h ⊢
    rw [List.length_cons, List.range'_succ, place_cons h]
    exact .cons (getElem?_place h) (ih (suffix_of_cons h))

/-- A place put in front of the first part holds what the site put in front of it is. -/
theorem forall₂_modifyHead {parts : List (List Nat)} {xss : List (List Site)} (hk : ss[k]? = some s)
    (h : List.Forall₂ (Holds ss) parts xss) :
    List.Forall₂ (Holds ss) (parts.modifyHead (k :: ·)) (xss.modifyHead (s :: ·)) := by
  cases h with
  | nil => exact .nil
  | cons hpart hmore => exact .cons (.cons hk hpart) hmore

theorem segments_ends (h : Holds ss ks xs) (level : Int) :
    Ends (segments ss level ks) fun parts => ∃ xss, List.Forall₂ (Holds ss) parts xss ∧
      (AreSingle ss → xss = Scan.segments level xs) := by
  induction h generalizing level with
  | nil => exact ⟨[[]], rfl, [[]], .cons .nil .nil, fun _ => rfl⟩
  | @cons k s ks xs hk _ ih =>
    rw [segments, siteAt_of_getElem? hk, pure_bind]
    split
    · rename_i hcomma
      rcases ih level with ⟨parts, hparts, xss, hholds, hsame⟩
      rw [hparts]
      refine ⟨[] :: parts, rfl, [] :: xss, .cons .nil hholds, ?_⟩
      intro hsingle
      rw [hsame hsingle, Scan.segments, if_pos hcomma]
    · rename_i hcomma
      rcases ih (level + levelStep s) with ⟨parts, hparts, xss, hholds, hsame⟩
      rw [hparts]
      refine ⟨_, rfl, _, forall₂_modifyHead hk hholds, ?_⟩
      intro hsingle
      rw [hsame hsingle, Scan.segments, if_neg hcomma,
        levelStep_of_isSingle (hsingle s (List.mem_of_getElem? hk))]

theorem parameterHead_holds (h : Holds ss ks xs) :
    parameterHead ss ks =
      pure (ks.take (xs.takeWhile fun s => !endsParameterHead s).length) := by
  induction h with
  | nil => rfl
  | @cons k s ks xs hk _ ih =>
    rw [parameterHead, siteAt_of_getElem? hk, pure_bind]
    split
    · rename_i hs
      rw [List.takeWhile_cons_of_neg (by simp [hs])]
      rfl
    · rename_i hs
      rw [List.takeWhile_cons_of_pos (by simp [hs]), ih]
      rfl

theorem typeBefore_holds (h : Holds ss ks xs) (level : Int) :
    typeBefore ss level ks = pure (Scan.typeBefore level xs) := by
  induction h generalizing level with
  | nil => rfl
  | @cons k s ks xs hk _ ih =>
    rw [typeBefore, siteAt_of_getElem? hk, pure_bind, Scan.typeBefore]
    split
    · exact ih _
    split
    · exact ih _
    split
    · rfl
    · exact ih _

theorem Holds.getLast (h : Holds ss ks xs) (hks : ks ≠ []) (hxs : xs ≠ []) :
    ss[ks.getLast hks]? = some (xs.getLast hxs) := by
  have hlen := h.length_eq
  rw [List.getLast_eq_getElem, List.getLast_eq_getElem]
  simp only [← hlen]
  exact h.get _ _

theorem Holds.any_markAt (h : Holds ss ks xs) (c : Char) :
    (ks.head?.any fun k => markAt ss k c) = xs.head?.any (·.isMark c) := by
  cases h with
  | nil => rfl
  | cons hk _ => rw [List.head?_cons, List.head?_cons, Option.any_some, markAt, hk]

theorem parameter?_holds (h : Holds ss ks xs) : parameter? ss ks = pure (Scan.parameter? xs) := by
  -- the places of the type and the name are those of the sites up to the suffix
  have hsplit := h
  rw [← List.takeWhile_append_dropWhile (p := fun s => !endsParameterHead s) (l := xs)] at hsplit
  have hfront := List.forall₂_take_append ks _ _ hsplit
  have hback : Holds ss _ _ := List.forall₂_drop_append ks _ _ hsplit
  have hreverse := List.rel_reverse hfront
  rw [parameter?, parameterHead_holds h, pure_bind, Scan.parameter?]
  simp only [hfront.length_eq, hback.any_markAt]
  generalize (ks.take _).reverse = before at hreverse ⊢
  generalize (xs.takeWhile _).reverse = sites at hreverse ⊢
  cases hreverse with
  | nil => rfl
  | cons hname hreverse =>
    cases hreverse with
    | nil => rfl
    | cons hfirst hreverse =>
      have htype : Holds ss _ _ := .cons hfirst hreverse
      simp only [hname]
      split
      · rw [typeBefore_holds htype, pure_bind,
          siteAt_of_getElem? (htype.getLast (by simp) (by simp)), pure_bind]
      · rfl

theorem parameters_holds {parts : List (List Nat)} {xss : List (List Site)}
    (h : List.Forall₂ (Holds ss) parts xss) :
    parameters ss parts = pure (xss.filterMap Scan.parameter?) := by
  induction h with
  | nil => rfl
  | @cons ks xs parts xss hpart _ ih =>
    rw [parameters, parameter?_holds hpart, pure_bind, ih, pure_bind, List.filterMap_cons]
    cases Scan.parameter? xs <;> rfl

end ShaderStyle.Scan.Sites
