import ShaderStyle.Proofs.Declaration.Renaming

/-!
# Written declarations

How declarations are written, told apart from how the scan finds them. The brackets of some sites
balance if each closes the one opened last (`closes`); template arguments balance in angle brackets
(`isTemplate`); a name may have a suffix whose commas are inside brackets (`isSuffix`); and a
statement starts with qualifiers (`Qualifiers`). Each recogniser of the scan passes over what is
written for it, and finds what stands behind.
-/

namespace ShaderStyle

namespace Site

/-- A word of any class. -/
def isWord (s : Site) : Bool :=
  match s.kind with
  | .word _ => true
  | _ => false

variable {s : Site}

theorem kind_of_isWord (h : s.isWord = true) : ∃ cls, s.kind = .word cls := by
  unfold isWord at h
  split at h
  · exact ⟨_, by assumption⟩
  · simp at h

theorem isWord_of_isType (h : s.isType = true) : s.isWord = true := by
  unfold isType at h
  split at h <;> simp_all [isWord]

theorem isWord_of_isIdentifier (h : s.isIdentifier = true) : s.isWord = true := by
  have hkind : s.kind = .word .identifier := of_decide_eq_true h
  simp [isWord, hkind]

theorem isMark_of_isWord (h : s.isWord = true) (c : Char) : s.isMark c = false := by
  rcases kind_of_isWord h with ⟨cls, hkind⟩
  simp [Lexeme.isMark, hkind]

theorem isOperator_of_isWord (h : s.isWord = true) (op : Text) : s.isOperator op = false := by
  rcases kind_of_isWord h with ⟨cls, hkind⟩
  simp [Lexeme.isOperator, hkind]

theorem isDirective_of_isWord (h : s.isWord = true) : s.isDirective = false := by
  rcases kind_of_isWord h with ⟨cls, hkind⟩
  simp [isDirective, hkind]

theorem isDirective_of_isMark {c : Char} (h : s.isMark c = true) : s.isDirective = false := by
  have hkind : s.kind = .punctuation := of_decide_eq_true (Bool.and_eq_true_iff.1 h).1
  simp [isDirective, hkind]

theorem isIdentifier_of_isMark {c : Char} (h : s.isMark c = true) : s.isIdentifier = false := by
  have hkind : s.kind = .punctuation := of_decide_eq_true (Bool.and_eq_true_iff.1 h).1
  simp [Lexeme.isIdentifier, hkind]

theorem eq_of_isMark {a b : Char} (ha : s.isMark a = true) (hb : s.isMark b = true) : a = b := by
  have hta : s.text = [a] := of_decide_eq_true (Bool.and_eq_true_iff.1 ha).2
  have htb : s.text = [b] := of_decide_eq_true (Bool.and_eq_true_iff.1 hb).2
  simpa using hta.symm.trans htb

theorem isMark_of_isMark {a b : Char} (h : s.isMark a = true) (hne : a ≠ b) : s.isMark b = false := by
  rw [← Bool.not_eq_true]
  intro hb
  exact hne (eq_of_isMark h hb)

theorem isMark_of_isOperator {op : Text} (h : s.isOperator op = true) (c : Char) :
    s.isMark c = false := by
  have hkind : s.kind = .operator := of_decide_eq_true (Bool.and_eq_true_iff.1 h).1
  simp [Lexeme.isMark, hkind]

end Site

namespace Scan

/-! ## Brackets -/

/-- The opening and the closing marks of the three forms of brackets. -/
def brackets : List (Char × Char) := [('(', ')'), ('[', ']'), ('{', '}')]

/-- The mark that closes a bracket; none if no bracket opens here. -/
def closer? (s : Site) : Option Char :=
  (brackets.find? fun b => s.isMark b.1).map Prod.snd

/-- The brackets balance: every one that opens is closed by one of its form, and so are those already
open, of which `stack` holds the closing marks, innermost first. -/
def closes (stack : List Char) : List Site → Bool
  | [] => stack.isEmpty
  | s :: rest =>
    match closer? s with
    | some c => closes (c :: stack) rest
    | none =>
      if s.isClosing then
        match stack with
        | [] => false
        | c :: stack => s.isMark c && closes stack rest
      else closes stack rest

/-- The number of open brackets behind a site. -/
def levelAfter (level : Nat) (s : Site) : Nat :=
  if s.isOpening then level + 1 else if s.isClosing then level - 1 else level

/-- The sites from the first one on that is outside all brackets and of which `p` holds; `level` counts
the brackets already open. A bracket is outside itself. -/
def fromOuter (p : Site → Bool) (level : Nat) : List Site → List Site
  | [] => []
  | s :: rest =>
    if level = 0 && p s then s :: rest else fromOuter p (levelAfter level s) rest

/-- Brackets of different forms share no mark. -/
theorem brackets_apart :
    ∀ a ∈ brackets, ∀ b ∈ brackets, (a.1 = b.1 ↔ a.2 = b.2) ∧ a.1 ≠ b.2 := by
  decide

theorem closer?_eq_some_iff {s : Site} {c : Char} :
    closer? s = some c ↔ ∃ o, (o, c) ∈ brackets ∧ s.isMark o = true := by
  unfold closer?
  rw [Option.map_eq_some_iff]
  constructor
  · rintro ⟨⟨o, c'⟩, hfind, rfl⟩
    have hmark := List.find?_some hfind
    exact ⟨o, List.mem_of_find?_eq_some hfind, hmark⟩
  · rintro ⟨o, hmem, hmark⟩
    -- the bracket found first has the same opening mark, hence the same form
    cases hfind : brackets.find? fun b => s.isMark b.1 with
    | none => exact absurd hmark (List.find?_eq_none.1 hfind _ hmem)
    | some b =>
      have hfound := List.find?_some hfind
      have hopening : b.1 = o := Site.eq_of_isMark hfound hmark
      exact ⟨b, rfl, ((brackets_apart b (List.mem_of_find?_eq_some hfind) _ hmem).1).1 hopening⟩

theorem isOpening_eq (s : Site) : s.isOpening = (closer? s).isSome := by
  rw [closer?, Option.isSome_map, List.isSome_find?]
  simp [Site.isOpening, brackets, Bool.or_assoc]

theorem isMark_opening_iff {opening closing : Char} (hb : (opening, closing) ∈ brackets) {s : Site} :
    s.isMark opening = true ↔ closer? s = some closing := by
  rw [closer?_eq_some_iff]
  constructor
  · intro h
    exact ⟨opening, hb, h⟩
  · rintro ⟨o, hmem, h⟩
    have hopening : o = opening := ((brackets_apart _ hmem _ hb).1).2 rfl
    rwa [hopening] at h

theorem not_isMark_closing {opening closing : Char} (hb : (opening, closing) ∈ brackets) {s : Site}
    {c : Char} (h : closer? s = some c) : s.isMark closing = false := by
  rcases closer?_eq_some_iff.1 h with ⟨o, hmem, hmark⟩
  rw [← Bool.not_eq_true]
  intro hclosing
  exact (brackets_apart _ hmem _ hb).2 (Site.eq_of_isMark hmark hclosing)

theorem isClosing_of_isMark {opening closing : Char} (hb : (opening, closing) ∈ brackets) {s : Site}
    (h : s.isMark closing = true) : s.isClosing = true := by
  have hmem : closing ∈ brackets.map Prod.snd := List.mem_map_of_mem hb
  simp only [brackets, List.map_cons, List.map_nil, List.mem_cons, List.not_mem_nil, or_false] at hmem
  rcases hmem with rfl | rfl | rfl <;> simp [Site.isClosing, h]

/-- A site in sites that balance opens a bracket, closes the innermost one or is no bracket. -/
theorem closes_cons {stack : List Char} {s : Site} {rest : List Site}
    (h : closes stack (s :: rest) = true) :
    (∃ c, closer? s = some c ∧ closes (c :: stack) rest = true) ∨
    (∃ c outer, stack = c :: outer ∧ closer? s = none ∧ s.isClosing = true ∧ s.isMark c = true ∧
      closes outer rest = true) ∨
    (closer? s = none ∧ s.isClosing = false ∧ closes stack rest = true) := by
  simp only [closes] at h
  split at h
  · exact .inl ⟨_, by assumption, h⟩
  · rename_i hnone
    split at h
    · rename_i hclosing
      cases stack with
      | nil => simp at h
      | cons c outer =>
        rcases Bool.and_eq_true_iff.1 h with ⟨hmark, hrest⟩
        exact .inr (.inl ⟨c, outer, rfl, hnone, hclosing, hmark, hrest⟩)
    · rename_i hclosing
      exact .inr (.inr ⟨hnone, by simpa using hclosing, h⟩)

theorem isClosing_of_closer? {s : Site} {c : Char} (h : closer? s = some c) : s.isClosing = false := by
  have hround : ('(', ')') ∈ brackets := by decide
  have hsquare : ('[', ']') ∈ brackets := by decide
  have hbrace : ('{', '}') ∈ brackets := by decide
  simp [Site.isClosing, not_isMark_closing hround h, not_isMark_closing hsquare h,
    not_isMark_closing hbrace h]

/-- The number of open brackets behind a site of sites that balance; none closes that is not open. -/
theorem closes_behind {stack : List Char} {s : Site} {rest : List Site}
    (h : closes stack (s :: rest) = true) :
    ∃ stack', closes stack' rest = true ∧ stack'.length = levelAfter stack.length s ∧
      (stack.length = 0 → s.isClosing = false) := by
  rcases closes_cons h with ⟨c, hs, h⟩ | ⟨c, outer, rfl, hs, hclosing, -, h⟩ | ⟨hs, hno, h⟩
  · exact ⟨c :: stack, h, by simp [levelAfter, isOpening_eq, hs], fun _ => isClosing_of_closer? hs⟩
  · exact ⟨outer, h, by simp [levelAfter, isOpening_eq, hs, hclosing], by simp⟩
  · exact ⟨stack, h, by simp [levelAfter, isOpening_eq, hs, hno], fun _ => hno⟩

theorem levelAfter_of_isWord {s : Site} (h : s.isWord = true) (level : Nat) :
    levelAfter level s = level := by
  simp [levelAfter, Site.isOpening, Site.isClosing, Site.isMark_of_isWord h]

theorem closes_word_cons {s : Site} (h : s.isWord = true) (stack : List Char) (rest : List Site) :
    closes stack (s :: rest) = closes stack rest := by
  simp [closes, closer?, brackets, Site.isClosing, Site.isMark_of_isWord h]

theorem closes_words {ws : List Site} (h : ∀ s ∈ ws, s.isWord = true) : closes [] ws = true := by
  induction ws with
  | nil => rfl
  | cons s ws ih =>
    rw [closes_word_cons (h s List.mem_cons_self)]
    exact ih fun t ht => h t (List.mem_cons_of_mem _ ht)

theorem fromOuter_words {ws : List Site} (h : ∀ s ∈ ws, s.isWord = true) (c : Char) :
    fromOuter (·.isMark c) 0 ws = [] := by
  induction ws with
  | nil => rfl
  | cons s ws ih =>
    have hs (c : Char) := Site.isMark_of_isWord (h s List.mem_cons_self) c
    simp [fromOuter, levelAfter_of_isWord (h s List.mem_cons_self), hs,
      ih fun t ht => h t (List.mem_cons_of_mem _ ht)]

theorem closes_append {stack : List Char} {xs ys : List Site} (hx : closes stack xs = true)
    (hy : closes [] ys = true) : closes stack (xs ++ ys) = true := by
  induction xs generalizing stack with
  | nil =>
    rw [closes, List.isEmpty_iff] at hx
    rw [hx]
    exact hy
  | cons s rest ih =>
    rcases closes_cons hx with ⟨c, hs, h⟩ | ⟨c, outer, rfl, hs, hclosing, hmark, h⟩ | ⟨hs, hno, h⟩
    · simp [closes, hs, ih h]
    · simp [closes, hs, hclosing, hmark, ih h]
    · simp [closes, hs, hno, ih h]

/-! ## Passing over brackets -/

/-- A bracket that is open is closed behind sites that balance. -/
theorem splitClosing_append {opening closing : Char} (hb : (opening, closing) ∈ brackets)
    {stack : List Char} {xs : List Site} (h : closes stack xs = true) (depth : Nat)
    (rest : List Site) :
    splitClosing opening closing (depth + stack.count closing) (xs ++ rest) =
      (splitClosing opening closing depth rest).map fun x => (xs ++ x.1, x.2) := by
  induction xs generalizing stack with
  | nil =>
    rw [closes, List.isEmpty_iff] at h
    subst h
    cases hrest : splitClosing opening closing depth rest <;> simp [hrest]
  | cons s xs ih =>
    have hkept {stack : List Char} (h : closes stack xs = true) :
        (splitClosing opening closing (depth + stack.count closing) (xs ++ rest)).map
            (fun x => (s :: x.1, x.2)) =
          (splitClosing opening closing depth rest).map fun x => (s :: (xs ++ x.1), x.2) := by
      rw [ih h, Option.map_map]
      rfl
    simp only [List.cons_append, splitClosing]
    rcases closes_cons h with ⟨c, hs, h⟩ | ⟨c, outer, rfl, hs, hclosing, hmark, h⟩ | ⟨hs, hno, h⟩
    · -- a bracket opens; one of the form that is looked for has to be closed first
      have hother : ¬s.isMark closing = true := by simp [not_isMark_closing hb hs]
      by_cases hc : c = closing
      · subst hc
        have hkept := hkept h
        rw [List.count_cons_self] at hkept
        rw [if_pos ((isMark_opening_iff hb).2 hs)]
        exact hkept
      · have hopening : ¬s.isMark opening = true := by
          rw [isMark_opening_iff hb, hs]
          simpa using hc
        rw [if_neg hopening, if_neg hother, ← hkept h, List.count_cons_of_ne hc]
    · -- the innermost bracket closes; if it is of that form, it was counted
      have hopening : ¬s.isMark opening = true := by simp [isMark_opening_iff hb, hs]
      by_cases hc : c = closing
      · subst hc
        rw [if_neg hopening, if_pos hmark, List.count_cons_self]
        exact hkept h
      · have hother : ¬s.isMark closing = true := fun hm => hc (Site.eq_of_isMark hmark hm)
        rw [if_neg hopening, if_neg hother, List.count_cons_of_ne hc]
        exact hkept h
    · have hopening : ¬s.isMark opening = true := by simp [isMark_opening_iff hb, hs]
      have hother : ¬s.isMark closing = true := by
        intro hm
        rw [isClosing_of_isMark hb hm] at hno
        exact Bool.noConfusion hno
      rw [if_neg hopening, if_neg hother]
      exact hkept h

/-- The bracket that closes the sites which balance before it. -/
theorem splitClosing_closes {opening closing : Char} (hb : (opening, closing) ∈ brackets)
    {xs : List Site} (h : closes [] xs = true) {c : Site} (hc : c.isMark closing = true)
    (rest : List Site) : splitClosing opening closing 0 (xs ++ c :: rest) = some (xs, rest) := by
  have hopening : ¬c.isMark opening = true := by
    rw [isMark_opening_iff hb]
    intro hs
    rw [not_isMark_closing hb hs] at hc
    exact Bool.noConfusion hc
  have hsplit := splitClosing_append hb h 0 (c :: rest)
  simp only [splitClosing, if_neg hopening, if_pos hc] at hsplit
  simpa using hsplit

/-! ## Template arguments -/

/-- The angle brackets balance: the last of the sites closes the last of `depth` open ones. -/
def closesAngles : Nat → List Site → Bool
  | 0, ss => ss.isEmpty
  | _ + 1, [] => false
  | depth + 1, s :: rest =>
    if s.isOperator ['<'] then closesAngles (depth + 2) rest
    else if s.isOperator ['>'] then closesAngles depth rest
    else if s.isOperator ['>', '>'] then 0 < depth && closesAngles (depth - 1) rest
    else !s.endsStatement && closesAngles (depth + 1) rest

/-- Template arguments in angle brackets, or none. -/
def isTemplate : List Site → Bool
  | [] => true
  | s :: rest => s.isOperator ['<'] && closesAngles 1 rest

theorem closesAngles_cons {depth : Nat} {s : Site} {rest : List Site}
    (h : closesAngles (depth + 1) (s :: rest) = true) :
    (s.isOperator ['<'] = true ∧ closesAngles (depth + 2) rest = true) ∨
    (s.isOperator ['>'] = true ∧ closesAngles depth rest = true) ∨
    (s.isOperator ['>', '>'] = true ∧ ∃ d, depth = d + 1 ∧ closesAngles d rest = true) ∨
    (s.isOperator ['<'] = false ∧ s.isOperator ['>'] = false ∧ s.isOperator ['>', '>'] = false ∧
      s.endsStatement = false ∧ closesAngles (depth + 1) rest = true) := by
  simp only [closesAngles] at h
  split at h
  · exact .inl ⟨by assumption, h⟩
  split at h
  · exact .inr (.inl ⟨by assumption, h⟩)
  split at h
  · rcases Bool.and_eq_true_iff.1 h with ⟨hpos, h⟩
    have hpos : 0 < depth := of_decide_eq_true hpos
    exact .inr (.inr (.inl ⟨by assumption, depth - 1, by omega, h⟩))
  · rcases Bool.and_eq_true_iff.1 h with ⟨hends, h⟩
    simp only [Bool.not_eq_true] at *
    exact .inr (.inr (.inr ⟨by assumption, by assumption, by assumption, by simpa using hends, h⟩))

theorem text_of_isOperator {s : Site} {op : Text} (h : s.isOperator op = true) : s.text = op :=
  of_decide_eq_true (Bool.and_eq_true_iff.1 h).2

theorem isOperator_of_isOperator {s : Site} {a b : Text} (h : s.isOperator a = true) (hne : a ≠ b) :
    s.isOperator b = false := by
  simp [Lexeme.isOperator, text_of_isOperator h, hne]

/-- The search for the end of template arguments ends behind them. -/
theorem afterTemplate_append {depth : Nat} {xs : List Site} (h : closesAngles (depth + 1) xs = true)
    (rest : List Site) : afterTemplate (depth + 1) (xs ++ rest) = some rest := by
  induction xs generalizing depth with
  | nil => simp [closesAngles] at h
  | cons s xs ih =>
    rw [List.cons_append, afterTemplate]
    rcases closesAngles_cons h with ⟨hs, hxs⟩ | ⟨hs, hxs⟩ | ⟨hs, d, rfl, hxs⟩ |
      ⟨hl, hr, hrr, hends, hxs⟩
    · rw [if_pos hs]
      exact ih hxs
    · rw [if_neg (by simp [isOperator_of_isOperator hs]), if_pos (by simp [hs]),
        text_of_isOperator hs]
      cases depth with
      | zero =>
        rw [closesAngles, List.isEmpty_iff] at hxs
        simp [hxs]
      | succ n =>
        rw [if_neg (by simp)]
        exact ih hxs
    · rw [if_neg (by simp [isOperator_of_isOperator hs]), if_pos (by simp [hs]),
        text_of_isOperator hs]
      cases d with
      | zero =>
        rw [closesAngles, List.isEmpty_iff] at hxs
        simp [hxs]
      | succ n =>
        rw [if_neg (by simp)]
        exact ih hxs
    · rw [if_neg (by simp [hl]), if_neg (by simp [hr, hrr]), if_neg (by simp [hends])]
      exact ih hxs

/-- The name of a declaration is found behind its type and the template arguments. -/
theorem afterType_append {xs rest : List Site} (h : isTemplate xs = true)
    (hrest : rest.head?.any (·.isOperator ['<']) = false) : afterType (xs ++ rest) = some rest := by
  cases xs with
  | nil => simp [afterType, hrest]
  | cons s xs =>
    rcases Bool.and_eq_true_iff.1 h with ⟨hs, h⟩
    simp [afterType, hs, afterTemplate_append h]

/-- The search for a type, from right to left, passes over what closes angle brackets and is then as
many brackets deep. -/
theorem typeBefore_reverse_append {depth : Nat} {xs : List Site} (h : closesAngles depth xs = true)
    (before : List Site) : typeBefore 0 (xs.reverse ++ before) = typeBefore depth before := by
  induction xs generalizing depth before with
  | nil =>
    cases depth with
    | zero => rfl
    | succ n => simp [closesAngles] at h
  | cons s xs ih =>
    cases depth with
    | zero => simp [closesAngles] at h
    | succ n =>
      rw [List.reverse_cons, List.append_assoc, List.singleton_append]
      rcases closesAngles_cons h with ⟨hs, hxs⟩ | ⟨hs, hxs⟩ | ⟨hs, d, rfl, hxs⟩ |
        ⟨hl, hr, hrr, -, hxs⟩
      · rw [ih hxs, typeBefore, if_neg (by simp [isOperator_of_isOperator hs]), if_pos hs]
        congr 1
        omega
      · rw [ih hxs, typeBefore, if_pos (by simp [hs]), text_of_isOperator hs]
        rfl
      · rw [ih hxs, typeBefore, if_pos (by simp [hs]), text_of_isOperator hs]
        rfl
      · -- an angle bracket is open, so no type counts here
        rw [ih hxs, typeBefore, if_neg (by simp [hr, hrr]), if_neg (by simp [hl]), if_neg]
        simp only [Bool.and_eq_true, decide_eq_true_eq]
        omega

/-- The type nearest before a name is found through its template arguments. -/
theorem typeBefore_template {xs : List Site} (h : isTemplate xs = true) {type : Site}
    (htype : type.isType = true) (before : List Site) :
    typeBefore 0 (xs.reverse ++ type :: before) = some type := by
  have hword := Site.isWord_of_isType htype
  have hfound : typeBefore 0 (type :: before) = some type := by
    simp [typeBefore, Site.isOperator_of_isWord hword, htype]
  cases xs with
  | nil => exact hfound
  | cons s xs =>
    rcases Bool.and_eq_true_iff.1 h with ⟨hs, h⟩
    rw [List.reverse_cons, List.append_assoc, List.singleton_append, typeBefore_reverse_append h,
      typeBefore, if_neg (by simp [isOperator_of_isOperator hs]), if_pos hs]
    exact hfound

/-! ## Qualifiers -/

/-- What may stand before the type of a declaration: qualifying keywords, attributes in square brackets
and layout qualifiers. -/
inductive Qualifiers (d : Dialect) : List Site → Prop
  | none : Qualifiers d []
  | keyword {s : Site} {rest : List Site} (hkind : s.kind = .word .keyword)
      (hword : d.isQualifier s.text = true) (hrest : Qualifiers d rest) : Qualifiers d (s :: rest)
  | bracketed {o c : Site} {inside rest : List Site} (ho : o.isMark '[' = true)
      (hinside : closes [] inside = true) (hc : c.isMark ']' = true) (hrest : Qualifiers d rest) :
      Qualifiers d (o :: (inside ++ c :: rest))
  | layout {w o c : Site} {inside rest : List Site} (hw : w.isWord = true)
      (hlayout : isLayoutWord w = true) (ho : o.isMark '(' = true) (hinside : closes [] inside = true)
      (hc : c.isMark ')' = true) (hrest : Qualifiers d rest) :
      Qualifiers d (w :: o :: (inside ++ c :: rest))

variable {d : Dialect} {qs : List Site}

theorem isGroupHeader_append (h : Qualifiers d qs) {rest : List Site}
    (hrest : isGroupHeader rest = false) : isGroupHeader (qs ++ rest) = false := by
  cases h with
  | none => exact hrest
  | @keyword s more hkind =>
    have hs : s.isIdentifier = false := by simp [Lexeme.isIdentifier, hkind]
    rw [List.cons_append]
    cases more ++ rest <;> simp [isGroupHeader, hs]
  | @bracketed o c inside more ho =>
    rw [List.cons_append]
    cases inside ++ c :: more ++ rest <;> simp [isGroupHeader, Site.isIdentifier_of_isMark ho]
  | layout hw hlayout ho =>
    simp [isGroupHeader, Site.isMark_of_isMark ho]

theorem isQualifier_layout (d : Dialect) : d.isQualifier ['l', 'a', 'y', 'o', 'u', 't'] = false := by
  cases d <;> decide +kernel

/-- Qualifiers are passed over. -/
theorem head_append (h : Qualifiers d qs) {rest : List Site} (hrest : isGroupHeader rest = false) :
    head d (qs ++ rest) = head d rest := by
  induction h with
  | none => rfl
  | @keyword s more hkind hword hmore ih =>
    have hs : s.isWord = true := by simp [Site.isWord, hkind]
    have hlayout : isLayoutWord s = false := by
      rw [← Bool.not_eq_true]
      intro hl
      rw [of_decide_eq_true hl, isQualifier_layout] at hword
      exact Bool.noConfusion hword
    -- a qualifier that may also open a group does not, for no header follows
    rw [List.cons_append, head_cons, if_neg (by simp [Site.isMark_of_isWord hs]),
      if_neg (by simp [hlayout]), if_neg (by simp [isGroupHeader_append hmore hrest]),
      if_pos (by simp [hkind, hword]), ih]
  | bracketed ho hinside hc _ ih =>
    rw [List.cons_append, List.append_assoc, List.cons_append, head_cons, if_pos ho,
      splitClosing_closes (by decide) hinside hc, Option.bind_some, ih]
  | layout hw hlayout ho hinside hc _ ih =>
    rw [List.cons_append, List.cons_append, List.append_assoc, List.cons_append, head_cons,
      if_neg (by simp [Site.isMark_of_isWord hw]), if_pos (by simp [hlayout, ho]), List.tail_cons,
      splitClosing_closes (by decide) hinside hc, Option.bind_some, ih]

theorem headD_mem (xs : List Site) (s : Site) : xs.headD s ∈ xs ++ [s] := by
  cases xs <;> simp

/-- The first site of qualifiers and a type starts a statement. -/
theorem starts_append (h : Qualifiers d qs) {type : Site} (htype : type.isType = true)
    (rest : List Site) : ∃ first more, qs ++ type :: rest = first :: more ∧ qs.headD type = first ∧
      first.isDirective = false ∧ first.endsStatement = false := by
  have hword {s : Site} (hs : s.isWord = true) : s.isDirective = false ∧ s.endsStatement = false := by
    simp [Site.isDirective_of_isWord hs, Site.endsStatement, Site.isMark_of_isWord hs]
  cases h with
  | none => exact ⟨type, rest, rfl, rfl, hword (Site.isWord_of_isType htype)⟩
  | @keyword s more hkind => exact ⟨s, _, rfl, rfl, hword (by simp [Site.isWord, hkind])⟩
  | @bracketed o c inside more ho =>
    refine ⟨o, _, rfl, rfl, Site.isDirective_of_isMark ho, ?_⟩
    simp [Site.endsStatement, Site.isMark_of_isMark ho]
  | @layout w o c inside more hw => exact ⟨w, _, rfl, rfl, hword hw⟩

/-- A statement of qualifiers and a declaration that starts with a type. -/
theorem declarations_qualified (h : Qualifiers d qs) {type next : Site} {more : List Site}
    {found : Found} (htype : type.isType = true) (hnext : next.isMark '(' = false)
    (hheader : isGroupHeader (type :: next :: more) = false)
    (hgroup : (d.isGroupWord type.text && isGroupHeader (next :: more)) = false)
    (hfound : typed? [] (qs.headD type).index (type :: next :: more) = some found) :
    declarations d {} (qs ++ type :: next :: more) =
      found.declarations ++
        declarations d { pending := found.opens.getD .block, atStart := false } found.rest := by
  have hword := Site.isWord_of_isType htype
  have hkind : ¬type.kind = .word .keyword := by
    unfold Site.isType at htype
    split at htype <;> simp_all
  have hplain : head d (qs ++ type :: next :: more) = some (.plain (type :: next :: more)) := by
    rw [head_append h hheader, head_cons, if_neg (by simp [Site.isMark_of_isWord hword]),
      if_neg (by simp [hnext]), if_neg (by simp [hgroup]), if_neg (by simp [hkind])]
  rcases starts_append h htype (next :: more) with ⟨first, rest, hsites, hfirst, hdirective, hends⟩
  rw [hfirst] at hfound
  simp only [Site.endsStatement, Bool.or_eq_false_iff] at hends
  rw [hsites] at hplain ⊢
  rw [declarations_cons, if_neg (by simp [hdirective]), if_neg (by simp [hends]),
    if_neg (by simp [hends]), if_neg (by simp [hends]), if_pos rfl]
  simp [statement?, hplain, hfound]

/-! ## Lists -/

/-- What may stand behind a declared name: nothing, or an array suffix, a semantic or a value and more.
Brackets balance and commas are inside them. -/
def isSuffix (ss : List Site) : Bool :=
  ss.head?.all endsParameterHead && closes [] ss && (fromOuter (·.isMark ',') 0 ss).isEmpty

theorem isSuffix_iff {ss : List Site} :
    isSuffix ss = true ↔ ss.head?.all endsParameterHead = true ∧ closes [] ss = true ∧
      fromOuter (·.isMark ',') 0 ss = [] := by
  simp only [isSuffix, Bool.and_eq_true, List.isEmpty_iff, and_assoc]

/-- Some things written one after the other, with commas between them. -/
inductive Separated {α : Type} (written : α → List Site) : List α → List Site → Prop
  | none : Separated written [] []
  | last (a : α) : Separated written [a] (written a)
  | more {a b : α} {as : List α} {comma : Site} {ss : List Site} (hcomma : comma.isMark ',' = true)
      (hmore : Separated written (b :: as) ss) :
      Separated written (a :: b :: as) (written a ++ comma :: ss)

/-! ## Places -/

/-- No two sites have the same place. -/
theorem nodup_index_sites (tokens : List Token) : ((sites tokens).map Site.index).Nodup := by
  have hsublist : ((sites tokens).map Site.index).Sublist (tokens.zipIdx.map Prod.snd) := by
    rw [sites, List.map_map]
    exact List.filter_sublist.map _
  refine hsublist.nodup ?_
  rw [List.zipIdx_map_snd]
  exact List.nodup_range'

theorem index_ne_of_nodup {xs ys : List Site} (h : ((xs ++ ys).map Site.index).Nodup) {s t : Site}
    (hs : s ∈ xs) (ht : t ∈ ys) : s.index ≠ t.index := by
  rw [List.map_append, List.nodup_append] at h
  exact h.2.2 _ (List.mem_map_of_mem hs) _ (List.mem_map_of_mem ht)

end Scan

end ShaderStyle
