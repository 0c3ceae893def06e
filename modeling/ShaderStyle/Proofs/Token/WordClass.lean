import Mathlib.Data.List.Forall2
import ShaderStyle.Suppression
import ShaderStyle.Token.Lexer

/-!
# The classes of words

A dialect says which words are keywords and which name types, and lexing asks it for nothing else.
`unclassed` forgets the class of a word. Two dialects give the same tokens once the classes are
forgotten, or the same fault (`tokenize_unclassed`). Markers stand in comments, so what they switch
off does not depend on classes either (`scan_unclassed`).
-/

namespace ShaderStyle

namespace TokenKind

/-- The two kinds are equal, or both are kinds of words. -/
def SameButForClass (k k' : TokenKind) : Prop :=
  k = k' ∨ ∃ cls cls', k = .word cls ∧ k' = .word cls'

/-- The kind without the class of a word. -/
def unclassed : TokenKind → TokenKind
  | word _ => word .identifier
  | k => k

theorem unclassed_eq_iff {k k' : TokenKind} :
    k.unclassed = k'.unclassed ↔ k.SameButForClass k' := by
  constructor
  · intro h
    cases k with
    | word cls =>
      cases k' with
      | word cls' => exact .inr ⟨cls, cls', rfl, rfl⟩
      | _ => simp [unclassed] at h
    | _ =>
      left
      cases k' <;> simp_all [unclassed]
  · rintro (rfl | ⟨cls, cls', rfl, rfl⟩)
    · rfl
    · rfl

end TokenKind

namespace Lexeme

/-- The lexeme without the class of a word. -/
def unclassed (l : Lexeme) : Lexeme :=
  { l with kind := l.kind.unclassed }

theorem unclassed_of_isComment {l : Lexeme} (h : l.kind.isComment = true) : l.unclassed = l := by
  rcases l with ⟨kind, text⟩
  cases kind <;> simp [TokenKind.isComment] at h <;> rfl

theorem isComment_unclassed (l : Lexeme) : l.unclassed.kind.isComment = l.kind.isComment := by
  rcases l with ⟨kind, text⟩
  cases kind <;> rfl

end Lexeme

namespace Token

/-- The token without the class of a word. -/
def unclassed (t : Token) : Token :=
  { t with toLexeme := t.toLexeme.unclassed }

/-- The two tokens have one text and one place, and one kind but for the class of a word. -/
structure SameButForClass (t t' : Token) : Prop where
  text : t.text = t'.text
  offset : t.offset = t'.offset
  span : t.span = t'.span
  kind : t.kind.SameButForClass t'.kind

theorem sameButForClass_of_unclassed {t t' : Token} (h : t.unclassed = t'.unclassed) :
    t.SameButForClass t' where
  text := by simpa [unclassed, Lexeme.unclassed] using congrArg (fun t : Token => t.text) h
  offset := by simpa [unclassed] using congrArg Token.offset h
  span := by simpa [unclassed] using congrArg Token.span h
  kind := TokenKind.unclassed_eq_iff.1 (congrArg (fun t : Token => t.kind) h)

theorem forall₂_sameButForClass {ts ts' : List Token}
    (h : ts.map unclassed = ts'.map unclassed) : List.Forall₂ SameButForClass ts ts' := by
  have heq : List.Forall₂ (· = ·) (ts.map unclassed) (ts'.map unclassed) := by
    rw [h]
    exact List.forall₂_same.2 fun _ _ => rfl
  rw [List.forall₂_map_left_iff, List.forall₂_map_right_iff] at heq
  exact heq.imp fun _ _ => sameButForClass_of_unclassed

end Token

namespace Lexer

variable (d d' : Dialect)

/-! ## Lexing in two dialects -/

/-- Two runs that come to the same after a map have one fault, or results that the map makes equal. -/
theorem error_or_ok_of_map_eq {α β : Type} {f : α → β} {x y : Except Failure α}
    (h : x.map f = y.map f) :
    (∃ e, x = .error e ∧ y = .error e) ∨ ∃ a b, x = .ok a ∧ y = .ok b ∧ f a = f b := by
  cases x with
  | error e =>
    cases y with
    | error e' =>
      have he : e = e' := by simpa [Except.map] using h
      exact .inl ⟨e, rfl, by rw [he]⟩
    | ok b => simp [Except.map] at h
  | ok a =>
    cases y with
    | error e' => simp [Except.map] at h
    | ok b => exact .inr ⟨a, b, rfl, rfl, by simpa [Except.map] using h⟩

/-- The next piece is cut off alike in all dialects, and its kind is the same but for a class. -/
theorem scan_map_unclassed (lineStart : Bool) (c : Char) (rest : Text) :
    (scan d lineStart c rest).map (Prod.map TokenKind.unclassed id) =
      (scan d' lineStart c rest).map (Prod.map TokenKind.unclassed id) := by
  unfold scan
  -- only the branch for words looks at the dialect, and there the class is forgotten
  simp only [apply_ite (Except.map _)]
  rfl

theorem scan_eq_error {lineStart : Bool} {c : Char} {rest : Text} {f : Failure}
    (h : scan d lineStart c rest = .error f) : scan d' lineStart c rest = .error f := by
  rcases error_or_ok_of_map_eq (scan_map_unclassed d d' lineStart c rest) with
    ⟨g, hg, hg'⟩ | ⟨kn, -, hkn, -⟩
  · rw [hg', ← hg, h]
  · simp [hkn] at h

theorem exists_scan_ok {lineStart : Bool} {c : Char} {rest : Text} {k : TokenKind} {n : Nat}
    (h : scan d lineStart c rest = .ok (k, n)) :
    ∃ k', scan d' lineStart c rest = .ok (k', n) ∧ k.unclassed = k'.unclassed := by
  rcases error_or_ok_of_map_eq (scan_map_unclassed d d' lineStart c rest) with
    ⟨g, hg, -⟩ | ⟨kn, ⟨k', n'⟩, hkn, hkn', hsame⟩
  · simp [hg] at h
  · rw [h, Except.ok.injEq] at hkn
    subst hkn
    rcases Prod.mk.inj hsame with ⟨hkind, rfl⟩
    exact ⟨k', hkn', hkind⟩

theorem lineStartAfter_unclassed {k k' : TokenKind} (h : k.unclassed = k'.unclassed)
    (lineStart : Bool) : lineStartAfter lineStart k = lineStartAfter lineStart k' := by
  rcases TokenKind.unclassed_eq_iff.1 h with rfl | ⟨cls, cls', rfl, rfl⟩
  · rfl
  · rfl

/-- The pieces of a text are the same in all dialects but for the classes of words. -/
theorem lexemes_unclassed (lineStart : Bool) (t : Text) :
    (lexemes d lineStart t).map (List.map Lexeme.unclassed) =
      (lexemes d' lineStart t).map (List.map Lexeme.unclassed) := by
  fun_induction lexemes d lineStart t with
  | case1 => simp only [lexemes]
  | case2 lineStart c rest f hscan => simp only [lexemes, scan_eq_error d d' hscan]
  | case3 lineStart c rest k n hscan f hmore ih =>
    rcases exists_scan_ok d d' hscan with ⟨k', hk', hkind⟩
    rw [hmore, lineStartAfter_unclassed hkind] at ih
    -- the rest fails in the other dialect too
    rcases error_or_ok_of_map_eq ih with ⟨e, he, he'⟩ | ⟨ls, -, hls, -⟩
    · rw [Except.error.injEq] at he
      simp only [lexemes, hk', he', he]
    · simp at hls
  | case4 lineStart c rest k n hscan ls hmore ih =>
    rcases exists_scan_ok d d' hscan with ⟨k', hk', hkind⟩
    rw [hmore, lineStartAfter_unclassed hkind] at ih
    rcases error_or_ok_of_map_eq ih with ⟨e, he, -⟩ | ⟨ls₁, ls', hls, hls', hsame⟩
    · simp at he
    · rw [Except.ok.injEq] at hls
      simp only [lexemes, hk', hls', Except.map, List.map_cons, hls, hsame, Lexeme.unclassed, hkind]

theorem place_unclassed (offset : Nat) (position : Position) (ls : List Lexeme) :
    (place offset position ls).map Token.unclassed =
      place offset position (ls.map Lexeme.unclassed) := by
  induction ls generalizing offset position with
  | nil => rfl
  | cons l ls ih =>
    simp only [place, List.map_cons]
    rw [ih]
    rfl

end Lexer

/-- Lexing fails alike in all dialects, or gives the same tokens but for the classes of words. -/
theorem tokenize_unclassed (d d' : Dialect) (t : Text) :
    (∃ fault, tokenize d t = .error fault ∧ tokenize d' t = .error fault) ∨
    ∃ ts ts', tokenize d t = .ok ts ∧ tokenize d' t = .ok ts' ∧
      ts.map Token.unclassed = ts'.map Token.unclassed := by
  unfold tokenize
  rcases Lexer.error_or_ok_of_map_eq (Lexer.lexemes_unclassed d d' true t) with
    ⟨f, hf, hf'⟩ | ⟨ls, ls', hls, hls', hsame⟩
  · rw [hf, hf']
    exact .inl ⟨_, rfl, rfl⟩
  · rw [hls, hls']
    refine .inr ⟨_, _, rfl, rfl, ?_⟩
    rw [Lexer.place_unclassed, Lexer.place_unclassed, hsame]

/-! ## Markers -/

namespace Marker

theorem of?_unclassed (l : Lexeme) : of? l.unclassed = of? l := by
  by_cases h : l.kind.isComment = true
  · rw [Lexeme.unclassed_of_isComment h]
  · simp [of?, Lexeme.isComment_unclassed, h]

theorem unclassed_of_of? {t : Token} {m : Marker} (h : of? t.toLexeme = some m) :
    t.unclassed = t := by
  unfold of? at h
  split at h
  · rename_i hcomment
    simp only [Token.unclassed, Lexeme.unclassed_of_isComment hcomment]
  · simp at h

end Marker

namespace Suppression

theorem regionFlags_unclassed (aspect : Aspect) (inside : Bool) (ts : List Token) :
    regionFlags aspect inside (ts.map Token.unclassed) = regionFlags aspect inside ts := by
  induction ts generalizing inside with
  | nil => rfl
  | cons t ts ih => simp only [List.map_cons, regionFlags, Token.unclassed, Marker.of?_unclassed, ih]

/-- The token that opened a region is a comment, so it has no class to forget. -/
theorem openRegion_unclassed (aspect : Aspect) (opener : Option Token) (ts : List Token) :
    openRegion aspect opener (ts.map Token.unclassed) = openRegion aspect opener ts := by
  induction ts generalizing opener with
  | nil => rfl
  | cons t ts ih =>
    have hmarker : Marker.of? t.unclassed.toLexeme = Marker.of? t.toLexeme :=
      Marker.of?_unclassed t.toLexeme
    simp only [List.map_cons, openRegion, hmarker, ih]
    split
    · rename_i hopens
      rw [Marker.unclassed_of_of? hopens]
    · rfl

theorem regionDiagnostics_unclassed (aspect : Aspect) (ts : List Token) :
    regionDiagnostics aspect (ts.map Token.unclassed) = regionDiagnostics aspect ts := by
  have hmarker (t : Token) : Marker.of? t.unclassed.toLexeme = Marker.of? t.toLexeme :=
    Marker.of?_unclassed t.toLexeme
  unfold regionDiagnostics
  simp only [regionFlags_unclassed, openRegion_unclassed, List.zip_map_left, List.filter_map,
    List.map_map]
  congr 2
  simp only [Function.comp_def, Prod.map_fst, Prod.map_snd, hmarker, id_eq]

/-- What markers switch off, and the findings about them, do not depend on the classes of words. -/
theorem scan_unclassed (ts : List Token) : scan (ts.map Token.unclassed) = scan ts := by
  have hlines : markedLines (ts.map Token.unclassed) = markedLines ts := by
    unfold markedLines
    rw [List.filter_map, List.map_map]
    simp only [Function.comp_def, Token.unclassed, Marker.of?_unclassed]
    rfl
  simp only [scan, regionFlags_unclassed, regionDiagnostics_unclassed, hlines, List.zip_map_left,
    List.map_map]
  rfl

end Suppression

end ShaderStyle
