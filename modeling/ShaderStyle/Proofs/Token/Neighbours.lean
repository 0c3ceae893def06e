import Mathlib.Data.List.Chain
import Mathlib.Data.List.Induction
import ShaderStyle.Proofs.Token.DirectiveEnd

/-!
# What stands next to a token

Formatting looks at the tokens next to a token and takes for granted how lexing arranges them
(`IsArranged`):

* no two tokens of blanks stand side by side;
* a line break or the end of the file stands right behind a line comment;
* a token is a directive exactly if it starts with a hash sign and only blanks stand before it on its
  line;
* behind a directive, and blanks maybe, a line break, a line comment or the end of the file stands.

Lexing has one bit of memory, whether only blanks stand before the next lexeme on its line. It can be
read off the kinds of the lexemes so far (`lineStartBehind_eq_true_iff`); everything else depends on
one lexeme and the text behind it (`exists_reads_of_place`).
-/

namespace ShaderStyle

/-- A line starts behind the tokens: going back over blanks, one comes to a line break or to the start
of the text. -/
def StartsLine (before : List Token) : Prop :=
  ∃ lines blanks, before = lines ++ blanks ∧ (∀ k ∈ lines.getLast?, k.kind = .lineBreak) ∧
    ∀ k ∈ blanks, k.kind = .whitespace

/-- The token is a line break, a line comment or the end of the file. -/
def Token.EndsCode (k : Token) : Prop :=
  k.kind = .lineBreak ∨ (∃ doc, k.kind = .lineComment doc) ∨ k.kind = .eof

/-- The tokens stand next to each other as lexing arranges them. -/
structure IsArranged (tokens : List Token) : Prop where
  blanks : tokens.IsChain fun k next => ¬(k.kind = .whitespace ∧ next.kind = .whitespace)
  lineComment : ∀ before k after doc, tokens = before ++ k :: after → k.kind = .lineComment doc →
    ∃ next more, after = next :: more ∧ (next.kind = .lineBreak ∨ next.kind = .eof)
  hash : ∀ before k after, tokens = before ++ k :: after →
    ((∃ name, k.kind = .directive name) ↔ k.text.head? = some '#' ∧ StartsLine before)
  directive : ∀ before k after name, tokens = before ++ k :: after → k.kind = .directive name →
    ∃ blanks next more, after = blanks ++ next :: more ∧ blanks.length ≤ 1 ∧
      (∀ b ∈ blanks, b.kind = .whitespace) ∧ next.EndsCode

namespace Lexer

variable {d : Dialect} {b : Bool}

/-! ## Starts of lines -/

/-- Whether lexing is at the start of a line behind some tokens. -/
def lineStartBehind (b : Bool) (before : List Token) : Bool :=
  before.foldl (fun b k => lineStartAfter b k.kind) b

/-- Lexing knows whether only blanks stand before a place on its line. -/
theorem lineStartBehind_eq_true_iff (before : List Token) :
    lineStartBehind true before = true ↔ StartsLine before := by
  induction before using List.reverseRecOn with
  | nil => exact ⟨fun _ => ⟨[], [], rfl, by simp, by simp⟩, fun _ => rfl⟩
  | append_singleton before k ih =>
    have hstep : lineStartBehind true (before ++ [k]) =
        lineStartAfter (lineStartBehind true before) k.kind := by
      simp [lineStartBehind]
    rw [hstep]
    constructor
    · intro hstart
      cases hk : k.kind with
      | whitespace =>
        rw [hk] at hstart
        rcases ih.1 hstart with ⟨lines, blanks, rfl, hlines, hblanks⟩
        refine ⟨lines, blanks ++ [k], by simp, hlines, ?_⟩
        intro x hx
        rcases List.mem_append.1 hx with hx | hx
        · exact hblanks x hx
        · rw [List.mem_singleton.1 hx]
          exact hk
      | lineBreak => exact ⟨before ++ [k], [], by simp, by simp [hk], by simp⟩
      | _ => simp [hk, lineStartAfter] at hstart
    · rintro ⟨lines, blanks, hsplit, hlines, hblanks⟩
      -- the last token is the last of the blanks, or the line break before them
      rcases List.eq_nil_or_concat blanks with rfl | ⟨blanks, x, rfl⟩
      · rw [List.append_nil] at hsplit
        rw [hlines k (by rw [← hsplit]; simp)]
        rfl
      · rw [List.concat_eq_append, ← List.append_assoc] at hsplit
        rcases List.append_inj' hsplit rfl with ⟨rfl, hx⟩
        rw [List.cons.injEq] at hx
        have hk : k.kind = .whitespace := hx.1 ▸ hblanks x (by simp)
        rw [hk]
        exact ih.2 ⟨lines, blanks, rfl, hlines, fun y hy => hblanks y (by simp [hy])⟩

/-! ## Reading a token -/

/-- A token other than the end of the file was read from where lexing stood behind the tokens before
it, in front of the text of those behind it. -/
theorem exists_reads_of_place {ls : List Lexeme} (h : IsLexed d b ls) {offset : Nat}
    {position : Position} {before after : List Token} {k : Token}
    (hplace : place offset position ls = before ++ k :: after) :
    (k.kind = .eof ∧ k.text = []) ∨
      ∃ rest offset' position', Reads d (lineStartBehind b before) k.toLexeme (textOf rest) ∧
        IsLexed d (lineStartAfter (lineStartBehind b before) k.kind) rest ∧
        after = place offset' position' rest := by
  induction ls generalizing b offset position before with
  | nil =>
    have hmem : k ∈ place offset position [] := hplace ▸ by simp
    rw [place, List.mem_singleton] at hmem
    rw [hmem]
    exact .inl ⟨rfl, rfl⟩
  | cons l ls ih =>
    rcases isLexed_cons.1 h with ⟨hread, hmore⟩
    rw [place] at hplace
    cases before with
    | nil =>
      rcases List.cons.inj hplace with ⟨rfl, rfl⟩
      exact .inr ⟨ls, _, _, hread, hmore, rfl⟩
    | cons x before =>
      rw [List.cons_append] at hplace
      rcases List.cons.inj hplace with ⟨rfl, hrest⟩
      exact ih hmore hrest

theorem Reads.kind_eq_whitespace {l : Lexeme} {t : Text} (h : Reads d b l t) {c : Char}
    (hc : (l.text ++ t).head? = some c) (hpad : Text.isPad c = true) : l.kind = .whitespace := by
  rcases h with ⟨z, u, htext, hscan⟩
  rw [htext, List.cons_append, List.head?_cons, Option.some.injEq] at hc
  subst hc
  simp only [scan, hpad, if_true, Except.ok.injEq, Prod.mk.injEq] at hscan
  exact hscan.1.symm

theorem Reads.kind_eq_lineBreak {l : Lexeme} {t : Text} (h : Reads d b l t) {c : Char}
    (hc : (l.text ++ t).head? = some c) (hbreak : Text.isBreak c = true) : l.kind = .lineBreak := by
  rcases h with ⟨z, u, htext, hscan⟩
  rw [htext, List.cons_append, List.head?_cons, Option.some.injEq] at hc
  subst hc
  simp only [scan, not_isPad_of_isBreak hbreak, hbreak, if_true, Bool.false_eq_true, if_false,
    Except.ok.injEq, Prod.mk.injEq] at hscan
  exact hscan.1.symm

/-- What starts with a hash sign is a directive exactly if a line starts there. -/
theorem Reads.directive_iff {l : Lexeme} {t : Text} (h : Reads d b l t) :
    (∃ name, l.kind = .directive name) ↔ l.text.head? = some '#' ∧ b = true := by
  constructor
  · rintro ⟨name, hk⟩
    have hl : l = ⟨.directive name, l.text⟩ := by rw [← hk]
    rw [hl] at h
    rcases h.exists_hash with ⟨hb, x, hx⟩
    exact ⟨by rw [hx]; rfl, hb⟩
  · rintro ⟨hhash, rfl⟩
    rcases h with ⟨z, u, htext, hscan⟩
    rw [htext, List.head?_cons, Option.some.injEq] at hhash
    subst hhash
    have hdirective : scan d true '#' (u ++ t) = scanDirective (u ++ t) := rfl
    rw [hdirective, scanDirective] at hscan
    split at hscan
    · simp at hscan
    · rw [Except.ok.injEq, Prod.mk.injEq] at hscan
      exact ⟨_, hscan.1.symm⟩

/-! ## The token behind -/

/-- In front of a line break or at the end of the text, a line break or the end of the file comes
next. -/
theorem exists_lineBreak_or_eof {ls : List Lexeme} (h : IsLexed d b ls)
    (hbreak : ∀ c ∈ (textOf ls).head?, Text.isBreak c = true) (offset : Nat) (position : Position) :
    ∃ next more, place offset position ls = next :: more ∧
      (next.kind = .lineBreak ∨ next.kind = .eof) := by
  cases ls with
  | nil => exact ⟨_, _, rfl, .inr rfl⟩
  | cons l ls =>
    refine ⟨_, _, rfl, .inl ?_⟩
    rcases isLexed_cons.1 h with ⟨hread, -⟩
    rcases hread with ⟨c, u, htext, hscan⟩
    have hhead : (l.text ++ textOf ls).head? = some c := by simp [htext]
    exact Reads.kind_eq_lineBreak ⟨c, u, htext, hscan⟩ hhead (hbreak c hhead)

/-- Where a directive ends, a line break, a line comment or the end of the file comes next. -/
theorem exists_endsCode {ls : List Lexeme} (h : IsLexed d b ls) (hends : EndsDirective (textOf ls))
    (offset : Nat) (position : Position) :
    ∃ next more, place offset position ls = next :: more ∧ next.EndsCode := by
  rcases hends with hnil | ⟨c, t, hbreak, hc⟩ | ⟨t, hslashes⟩
  · rcases exists_lineBreak_or_eof h (by simp [hnil]) offset position with
      ⟨next, more, hplace, hnext⟩
    exact ⟨next, more, hplace, hnext.imp_right .inr⟩
  · rcases exists_lineBreak_or_eof h (by simpa [hbreak] using hc) offset position with
      ⟨next, more, hplace, hnext⟩
    exact ⟨next, more, hplace, hnext.imp_right .inr⟩
  · cases ls with
    | nil => simp at hslashes
    | cons l ls =>
      rcases lineComment_of_slashes (isLexed_cons.1 h).1 hslashes with ⟨doc, -, hdoc, -⟩
      exact ⟨_, _, rfl, .inr (.inl ⟨doc, hdoc⟩)⟩

/-- Behind a directive, one token of blanks may stand before what ends its line. -/
theorem exists_behind_directive {ls : List Lexeme} {name x : Text}
    (hread : Reads d b ⟨.directive name, x⟩ (textOf ls)) {b' : Bool} (h : IsLexed d b' ls)
    (offset : Nat) (position : Position) :
    ∃ blanks next more, place offset position ls = blanks ++ next :: more ∧ blanks.length ≤ 1 ∧
      (∀ k ∈ blanks, k.kind = .whitespace) ∧ next.EndsCode := by
  rcases hread.exists_hash with ⟨-, x, rfl⟩
  rcases exists_pads (textOf ls) with ⟨w, r, hsplit, hw, hr⟩
  have hends : EndsDirective r := by
    rw [hsplit] at hread
    exact ((reads_directive_iff hw hr).1 hread).2.2.2.1
  cases w with
  | nil =>
    rw [List.nil_append] at hsplit
    rw [← hsplit] at hends
    rcases exists_endsCode h hends offset position with ⟨next, more, hplace, hnext⟩
    exact ⟨[], next, more, hplace, by simp, by simp, hnext⟩
  | cons c w =>
    cases ls with
    | nil => simp at hsplit
    | cons l ls =>
      rcases isLexed_cons.1 h with ⟨hread', hmore⟩
      have hk : l.kind = .whitespace :=
        hread'.kind_eq_whitespace (c := c) (by rw [← textOf_cons, hsplit]; rfl) (hw c (by simp))
      have hl : l = ⟨.whitespace, l.text⟩ := by rw [← hk]
      rw [hl] at hread'
      -- the blanks are one lexeme, so what ends the directive comes right behind it
      rcases reads_whitespace_iff.1 hread' with ⟨-, hpads, hnext⟩
      rcases pads_append_inj hpads hw hnext hr hsplit with ⟨-, hrest⟩
      rw [← hrest] at hends
      rcases exists_endsCode hmore hends (offset + l.text.length) (position.advance l.text) with
        ⟨next, more, hplace, hends⟩
      refine ⟨[⟨l, offset, ⟨position, position.advance l.text⟩⟩], next, more, ?_, by simp, ?_, hends⟩
      · rw [place, hplace]
        rfl
      · simpa using hk

/-! ## All tokens -/

theorem isChain_blanks {ls : List Lexeme} (h : IsLexed d b ls) (offset : Nat) (position : Position) :
    (place offset position ls).IsChain
      fun k next => ¬(k.kind = .whitespace ∧ next.kind = .whitespace) := by
  induction ls generalizing b offset position with
  | nil => exact .singleton _
  | cons l ls ih =>
    rcases isLexed_cons.1 h with ⟨hread, hmore⟩
    have htail := ih hmore (offset + l.text.length) (position.advance l.text)
    rw [place]
    cases ls with
    | nil => exact .cons_cons (by simp) htail
    | cons l' ls =>
      refine .cons_cons ?_ htail
      rintro ⟨hk, hk'⟩
      simp only at hk hk'
      -- blanks are not followed by a blank
      have hl : l = ⟨.whitespace, l.text⟩ := by rw [← hk]
      have hl' : l' = ⟨.whitespace, l'.text⟩ := by rw [← hk']
      rw [hl] at hread
      have hread' := (isLexed_cons.1 hmore).1
      rw [hl'] at hread'
      rcases reads_whitespace_iff.1 hread' with ⟨hne, hpads, -⟩
      rcases List.exists_cons_of_ne_nil hne with ⟨c, u, htext⟩
      have hnot := (reads_whitespace_iff.1 hread).2.2 c (by rw [textOf_cons, htext]; rfl)
      rw [hpads c (by rw [htext]; simp)] at hnot
      exact absurd hnot (by decide)

end Lexer

/-- The tokens of every text are arranged as formatting takes for granted. -/
theorem tokenize_isArranged (d : Dialect) (t : Text) (tokens : List Token)
    (h : tokenize d t = .ok tokens) : IsArranged tokens := by
  rcases Lexer.tokenize_eq_ok_iff.1 h with ⟨ls, hlexed, rfl, rfl⟩
  refine ⟨Lexer.isChain_blanks hlexed 0 .origin, ?_, ?_, ?_⟩
  · intro before k after doc hsplit hk
    rcases Lexer.exists_reads_of_place hlexed hsplit with
      ⟨heof, -⟩ | ⟨rest, offset, position, hread, hmore, rfl⟩
    · simp [hk] at heof
    · have hl : k.toLexeme = ⟨.lineComment doc, k.text⟩ := by rw [← hk]
      rw [hl] at hread
      exact Lexer.exists_lineBreak_or_eof hmore (Lexer.reads_lineComment_iff.1 hread).2.2 _ _
  · intro before k after hsplit
    rw [← Lexer.lineStartBehind_eq_true_iff]
    rcases Lexer.exists_reads_of_place hlexed hsplit with
      ⟨heof, htext⟩ | ⟨rest, offset, position, hread, -, -⟩
    · simp [heof, htext]
    · exact hread.directive_iff
  · intro before k after name hsplit hk
    rcases Lexer.exists_reads_of_place hlexed hsplit with
      ⟨heof, -⟩ | ⟨rest, offset, position, hread, hmore, rfl⟩
    · simp [hk] at heof
    · have hl : k.toLexeme = ⟨.directive name, k.text⟩ := by rw [← hk]
      rw [hl] at hread
      exact Lexer.exists_behind_directive hread hmore offset position

/-- A directive with a blank and a line comment behind it, and a hash sign that starts no line. -/
theorem tokenize_isArranged_hashes :
    ∃ tokens, tokenize .hlsl ['#', 'a', ' ', '/', '/', '\r', '\n', ' ', 'x', '#'] = .ok tokens ∧
      IsArranged tokens ∧
      tokens.map (·.kind) = [.directive ['a'], .whitespace, .lineComment false, .lineBreak,
        .whitespace, .word .identifier, .punctuation, .eof] := by
  have htokens : tokenize .hlsl ['#', 'a', ' ', '/', '/', '\r', '\n', ' ', 'x', '#'] = .ok _ :=
    Lexer.tokenize_eq_ok_iff.2 ⟨[⟨.directive ['a'], ['#', 'a']⟩, ⟨.whitespace, [' ']⟩,
      ⟨.lineComment false, ['/', '/']⟩, ⟨.lineBreak, ['\r', '\n']⟩, ⟨.whitespace, [' ']⟩,
      ⟨.word .identifier, ['x']⟩, ⟨.punctuation, ['#']⟩], by decide +kernel, rfl, rfl⟩
  exact ⟨_, htokens, tokenize_isArranged .hlsl _ _ htokens, rfl⟩

end ShaderStyle
