import Mathlib.Data.List.Chain
import ShaderStyle.Proofs.Token.Locality

/-!
# Lexing loses nothing

The tokens of a text are a cut of it (`IsCutOf`): one behind the other they are the text, each covers
the characters from its offset on, none is empty but the end of the file. This holds since the scanner
takes at least one character and never more than there are, whatever it reads.

Where a number or a word starts, its expression matches: what the scanner cuts off is a numeral
(`IsNumeral`) or a name (`IsName`). Both are said here without the lengths that the scanner measures.
-/

namespace ShaderStyle

/-! ## Names and numerals -/

/-- A letter or underscore, and then letters, digits and underscores. -/
def IsName (t : Text) : Prop :=
  ∃ c u, t = c :: u ∧ Text.isNameStart c = true ∧ ∀ x ∈ u, Text.isNameChar x = true

/-- Decimal digits of any script, maybe none. -/
def IsDigits (t : Text) : Prop :=
  ∀ c ∈ t, Text.isDigit c = true

/-- Zero, the letter `x`, hexadecimal digits and a suffix. -/
def IsHexNumeral (t : Text) : Prop :=
  ∃ x digits suffix, t = '0' :: x :: (digits ++ suffix) ∧ (x = 'x' ∨ x = 'X') ∧ digits ≠ [] ∧
    (∀ c ∈ digits, Lexer.isHexDigit c = true) ∧ ∀ c ∈ suffix, Lexer.isIntegerSuffix c = true

/-- Digits, with digits on one side of a point at least. -/
def IsMantissa (t : Text) : Prop :=
  (IsDigits t ∧ t ≠ []) ∨
    ∃ whole fraction, t = whole ++ '.' :: fraction ∧ IsDigits whole ∧ IsDigits fraction ∧
      (whole ≠ [] ∨ fraction ≠ [])

/-- Nothing, or the letter `e`, maybe a sign, and digits. -/
def IsExponent (t : Text) : Prop :=
  t = [] ∨ ∃ e sign digits, t = e :: (sign ++ digits) ∧ (e = 'e' ∨ e = 'E') ∧
    (sign = [] ∨ sign = ['+'] ∨ sign = ['-']) ∧ IsDigits digits ∧ digits ≠ []

/-- A mantissa, an exponent and a suffix. -/
def IsDecimalNumeral (t : Text) : Prop :=
  ∃ mantissa exponent suffix, t = mantissa ++ (exponent ++ suffix) ∧ IsMantissa mantissa ∧
    IsExponent exponent ∧ ∀ c ∈ suffix, Lexer.isNumberSuffix c = true

/-- A hexadecimal or a decimal number. -/
def IsNumeral (t : Text) : Prop :=
  IsHexNumeral t ∨ IsDecimalNumeral t

namespace Lexer

theorem take_leading (p : Char → Bool) (t : Text) : t.take (Text.leading p t) = t.takeWhile p := by
  exact (List.prefix_iff_eq_take.1 (List.takeWhile_prefix p)).symm

theorem of_mem_take_leading {p : Char → Bool} {t : Text} {c : Char}
    (h : c ∈ t.take (Text.leading p t)) : p c = true := by
  rw [take_leading] at h
  exact List.all_eq_true.1 List.all_takeWhile c h

theorem take_leading_ne_nil {p : Char → Bool} {t : Text} (h : Text.leading p t ≠ 0) :
    t.take (Text.leading p t) ≠ [] := by
  intro hnil
  rw [take_leading] at hnil
  exact h (by rw [Text.leading, hnil]; rfl)

theorem isDigit_of_ascii {c : Char} (h : c.isDigit = true) : Text.isDigit c = true := by
  have hlt : c.toNat < 128 := by
    simp only [Char.isDigit, Bool.and_eq_true, decide_eq_true_eq] at h
    have hle := h.2
    rw [UInt32.le_iff_toNat_le] at hle
    exact Nat.lt_of_le_of_lt hle (by decide)
  rw [Text.isDigit, if_pos hlt, h]

theorem isName_take {c : Char} (hc : Text.isNameStart c = true) (rest : Text) :
    IsName (c :: rest.take (Text.leading Text.isNameChar rest)) :=
  ⟨c, _, rfl, hc, fun _ => of_mem_take_leading⟩

theorem isHexNumeral_of_hexLength {c : Char} {rest : Text} {n : Nat}
    (h : hexLength? c rest = some n) : IsHexNumeral (c :: rest.take n) := by
  unfold hexLength? at h
  split at h
  · rename_i x more
    simp only at h
    split at h
    · rename_i hhex
      simp only [Bool.and_eq_true, Bool.or_eq_true, decide_eq_true_eq] at hhex
      rcases hhex with ⟨⟨rfl, hx⟩, hdigits⟩
      simp only [Option.some.injEq] at h
      subst h
      rw [Nat.add_assoc, Nat.add_comm 1, List.take_succ_cons, List.take_add]
      exact ⟨x, _, _, rfl, hx, take_leading_ne_nil (by omega), fun _ => of_mem_take_leading,
        fun _ => of_mem_take_leading⟩
    · simp at h
  · simp at h

theorem isMantissa_take {c : Char} {rest : Text} (h : startsNumber c rest = true) :
    IsMantissa (c :: rest.take (mantissaLength c rest)) := by
  simp only [startsNumber, Bool.or_eq_true, Bool.and_eq_true, decide_eq_true_eq] at h
  by_cases hpoint : c = '.'
  · -- a digit follows the point, so there is a fraction
    subst hpoint
    have hdigit : rest.head?.any Char.isDigit = true := by simpa using h
    refine .inr ⟨[], _, rfl, by simp [IsDigits], fun _ => of_mem_take_leading, .inr ?_⟩
    apply take_leading_ne_nil
    cases rest with
    | nil => simp at hdigit
    | cons x rest => simp [Text.leading, isDigit_of_ascii (by simpa using hdigit)]
  · have hc : Text.isDigit c = true := isDigit_of_ascii (by simpa [hpoint] using h)
    have hwhole : IsDigits (c :: rest.take (Text.leading Text.isDigit rest)) := by
      intro x hx
      rcases List.mem_cons.1 hx with rfl | hx
      · exact hc
      · exact of_mem_take_leading hx
    simp only [mantissaLength, if_neg hpoint]
    split
    · rename_i more hmore
      refine .inr ⟨_, more.take (Text.leading Text.isDigit more), ?_, hwhole,
        fun _ => of_mem_take_leading, .inl (by simp)⟩
      rw [Nat.add_assoc, List.take_add, hmore, Nat.add_comm 1, List.take_succ_cons,
        List.cons_append]
    · exact .inl ⟨hwhole, by simp⟩

theorem take_signLength (t : Text) :
    t.take (signLength t) = [] ∨ t.take (signLength t) = ['+'] ∨ t.take (signLength t) = ['-'] := by
  unfold signLength
  split
  · exact .inr (.inl rfl)
  · exact .inr (.inr rfl)
  · exact .inl rfl

theorem isExponent_take (t : Text) : IsExponent (t.take (exponentLength t)) := by
  unfold exponentLength
  split
  · exact .inl rfl
  · rename_i e rest
    simp only
    split
    · rename_i he
      simp only [Bool.or_eq_true, decide_eq_true_eq] at he
      split
      · exact .inl rfl
      · rename_i hdigits
        refine .inr ⟨e, rest.take (signLength rest), _, ?_, he, take_signLength rest,
          fun _ => of_mem_take_leading, take_leading_ne_nil hdigits⟩
        rw [Nat.add_assoc, Nat.add_comm 1, List.take_succ_cons, List.take_add]
    · exact .inl rfl

/-- Where a number starts, a numeral is cut off. -/
theorem isNumeral_take {c : Char} {rest : Text} (h : startsNumber c rest = true) :
    IsNumeral (c :: rest.take (numberLength c rest)) := by
  unfold numberLength
  cases hhex : hexLength? c rest with
  | some n => exact .inl (isHexNumeral_of_hexLength hhex)
  | none =>
    simp only [Option.getD_none, decimalLength]
    rw [Nat.add_assoc, List.take_add, List.take_add, List.drop_drop, ← List.cons_append]
    exact .inr ⟨_, _, _, rfl, isMantissa_take h, isExponent_take _, fun _ => of_mem_take_leading⟩

/-! ## One step -/

/-- What holds of every lexeme that the scanner cuts off: it has a character at least and no more than
there are, and it is what its kind says, if that is a number or a word. -/
structure IsStep (c : Char) (rest : Text) (k : TokenKind) (n : Nat) : Prop where
  within : n ≤ rest.length
  advances : (rest.drop n).length < (c :: rest).length
  numeral : k = .number → IsNumeral (c :: rest.take n)
  name : ∀ w, k = .word w → IsName (c :: rest.take n)

theorem isStep_of_scan {d : Dialect} {b : Bool} {c : Char} {rest : Text} {k : TokenKind} {n : Nat}
    (h : scan d b c rest = .ok (k, n)) : IsStep c rest k n := by
  have hle := scan_le h
  have hlt : (rest.drop n).length < (c :: rest).length := by
    rw [List.length_drop, List.length_cons]
    omega
  have hsymbol : (scanSymbol c rest).1 ≠ .number ∧ ∀ w, (scanSymbol c rest).1 ≠ .word w := by
    unfold scanSymbol
    split
    · simp
    · split <;> simp
  refine ⟨hle, hlt, ?_, ?_⟩
  · rintro rfl
    cases cut_of_scan h with
    | plain _ hplain =>
      unfold scanPlain at hplain
      split at hplain
      · rename_i hnumber
        rw [← (Prod.mk.inj hplain).2]
        exact isNumeral_take hnumber
      · split at hplain
        · simp at hplain
        · exact absurd (congrArg Prod.fst hplain) hsymbol.1
  · rintro w rfl
    cases cut_of_scan h with
    | plain _ hplain =>
      unfold scanPlain at hplain
      split at hplain
      · simp at hplain
      · split at hplain
        · rename_i hname
          rw [← (Prod.mk.inj hplain).2]
          exact isName_take hname rest
        · exact absurd (congrArg Prod.fst hplain) (hsymbol.2 w)

/-! ## All tokens -/

/-- The tokens are a cut of the text. -/
structure IsCutOf (tokens : List Token) (t : Text) : Prop where
  texts : (tokens.flatMap fun k => k.text) = t
  starts : ∀ k ∈ tokens.head?, k.offset = 0
  adjacent : tokens.IsChain fun k k' => k.stop = k'.offset
  covers : ∀ k ∈ tokens, (t.take k.stop).drop k.offset = k.text
  content : ∀ k ∈ tokens.dropLast, k.text ≠ [] ∧ k.kind ≠ .eof
  last : ∃ k, tokens.getLast? = some k ∧ k.kind = .eof ∧ k.text = [] ∧ k.offset = t.length

theorem exists_place_eq_cons (offset : Nat) (position : Position) (ls : List Lexeme) :
    ∃ k ks, place offset position ls = k :: ks ∧ k.offset = offset := by
  cases ls with
  | nil => exact ⟨_, _, rfl, rfl⟩
  | cons l ls => exact ⟨_, _, rfl, rfl⟩

theorem isChain_place (offset : Nat) (position : Position) (ls : List Lexeme) :
    (place offset position ls).IsChain fun k k' => k.stop = k'.offset := by
  induction ls generalizing offset position with
  | nil => exact .singleton _
  | cons l ls ih =>
    have hmore := ih (offset + l.text.length) (position.advance l.text)
    rcases exists_place_eq_cons (offset + l.text.length) (position.advance l.text) ls with
      ⟨k, ks, hplace, hoffset⟩
    rw [place]
    rw [hplace] at hmore ⊢
    exact .cons_cons hoffset.symm hmore

/-- A placed token covers its part of the text. -/
theorem covers_place (pre : Text) {ls : List Lexeme} {position : Position} {k : Token}
    (h : k ∈ place pre.length position ls) :
    ((pre ++ textOf ls).take k.stop).drop k.offset = k.text := by
  induction ls generalizing pre position with
  | nil =>
    rw [place, List.mem_singleton] at h
    subst h
    simp [Token.stop]
  | cons l ls ih =>
    rw [place] at h
    rcases List.mem_cons.1 h with rfl | h
    · rw [Token.stop, List.take_length_add_append, List.drop_left, textOf_cons, List.take_left]
    · rw [← List.length_append] at h
      rw [textOf_cons, ← List.append_assoc]
      exact ih _ h

theorem getLast?_place (offset : Nat) (position : Position) (ls : List Lexeme) :
    ∃ k, (place offset position ls).getLast? = some k ∧ k.kind = .eof ∧ k.text = [] ∧
      k.offset = offset + (textOf ls).length := by
  induction ls generalizing offset position with
  | nil => exact ⟨_, rfl, rfl, rfl, rfl⟩
  | cons l ls ih =>
    rcases ih (offset + l.text.length) (position.advance l.text) with
      ⟨k, hlast, hkind, htext, hoffset⟩
    refine ⟨k, ?_, hkind, htext, ?_⟩
    · rw [place, List.getLast?_cons, hlast]
      rfl
    · rw [hoffset, textOf_cons, List.length_append, Nat.add_assoc]

theorem isCutOf_place {d : Dialect} {b : Bool} {ls : List Lexeme} (h : IsLexed d b ls) :
    IsCutOf (place 0 .origin ls) (textOf ls) := by
  have hlexemes := map_toLexeme_place 0 .origin ls
  refine ⟨?_, ?_, isChain_place 0 .origin ls, ?_, ?_, ?_⟩
  · have htexts : (place 0 .origin ls).flatMap (fun k => k.text) =
        textOf ((place 0 .origin ls).map Token.toLexeme) := by
      rw [textOf, List.flatMap_map]
    rw [htexts, hlexemes]
    simp
  · rcases exists_place_eq_cons 0 .origin ls with ⟨k, ks, hplace, hoffset⟩
    rw [hplace]
    simpa using hoffset
  · intro k hk
    exact covers_place [] hk
  · intro k hk
    have hmem : k.toLexeme ∈ ls := by
      have := List.mem_map_of_mem (f := Token.toLexeme) hk
      rwa [List.map_dropLast, hlexemes, List.dropLast_concat] at this
    rcases exists_reads_of_mem h hmem with ⟨b, t, hread⟩
    refine ⟨?_, hread.kind_ne_eof⟩
    rcases hread with ⟨c, u, htext, -⟩
    simp [htext]
  · simpa using getLast?_place 0 .origin ls

/-- Lexing fails, or it gives a cut of the text. Every step of it takes characters of the text, and
where a number or a word starts its expression matches. -/
theorem tokenize_isCutOf (d : Dialect) (t : Text) :
    ((∃ fault, tokenize d t = .error fault) ∨
        ∃ tokens, tokenize d t = .ok tokens ∧ IsCutOf tokens t) ∧
      (∀ b c rest k n, scan d b c rest = .ok (k, n) → IsStep c rest k n) ∧
      (∀ c rest, startsNumber c rest = true → ∃ u v, c :: rest = u ++ v ∧ IsNumeral u) ∧
      ∀ c rest, Text.isNameStart c = true → ∃ u v, c :: rest = u ++ v ∧ IsName u := by
  refine ⟨?_, fun b c rest k n => isStep_of_scan, ?_, ?_⟩
  · cases htokens : tokenize d t with
    | error fault => exact .inl ⟨fault, rfl⟩
    | ok tokens =>
      rcases tokenize_eq_ok_iff.1 htokens with ⟨ls, hlexed, rfl, rfl⟩
      exact .inr ⟨_, rfl, isCutOf_place hlexed⟩
  · intro c rest hnumber
    refine ⟨_, rest.drop (numberLength c rest), ?_, isNumeral_take hnumber⟩
    rw [List.cons_append, List.take_append_drop]
  · intro c rest hname
    refine ⟨_, rest.drop (Text.leading Text.isNameChar rest), ?_, isName_take hname rest⟩
    rw [List.cons_append, List.take_append_drop]

end Lexer

end ShaderStyle
