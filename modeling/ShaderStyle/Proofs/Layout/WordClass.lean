import ShaderStyle.Proofs.Layout.Passes
import ShaderStyle.Proofs.Token.WordClass

/-!
# Formatting and the classes of words

Formatting asks of a word only that it is one, and which one it is. So each pass gives the same
findings for pieces whose classes are forgotten, and the same pieces with their classes forgotten
(`formatPieces_unclassed`). Hence the formatted text and the findings about it are the same in all
dialects (`restyle_dialect_irrelevant`); only the checks can tell dialects apart.
-/

namespace ShaderStyle

namespace Piece

/-- The piece without the class of a word. -/
def unclassed (p : Piece) : Piece :=
  { p with kind := p.kind.unclassed }

variable (p : Piece)

@[simp] theorem text_unclassed : p.unclassed.text = p.text := rfl

@[simp] theorem span_unclassed : p.unclassed.span = p.span := rfl

@[simp] theorem suppressed_unclassed : p.unclassed.suppressed = p.suppressed := rfl

@[simp] theorem isLayout_unclassed : p.unclassed.isLayout = p.isLayout := by
  rcases p with ⟨kind, text, span, suppressed⟩
  cases kind <;> rfl

@[simp] theorem isNewline_unclassed : p.unclassed.isNewline = p.isNewline := by
  rcases p with ⟨kind, text, span, suppressed⟩
  cases kind <;> rfl

@[simp] theorem isMark_unclassed (c : Char) : p.unclassed.isMark c = p.isMark c := by
  rcases p with ⟨kind, text, span, suppressed⟩
  cases kind <;> rfl

theorem unclassed_of_punctuation {p : Piece} (h : p.kind = .punctuation) : p.unclassed = p := by
  rcases p with ⟨kind, text, span, suppressed⟩
  cases h
  rfl

theorem punctuation_unclassed_iff : p.unclassed.kind = .punctuation ↔ p.kind = .punctuation := by
  rcases p with ⟨kind, text, span, suppressed⟩
  cases kind <;> simp [unclassed, TokenKind.unclassed]

@[simp] theorem render_unclassed (ps : List Piece) : render (ps.map unclassed) = render ps := by
  simp [render, List.flatMap_map]

@[simp] theorem firstSpan_unclassed (ps : List Piece) :
    firstSpan (ps.map unclassed) = firstSpan ps := by
  simp [firstSpan, List.findSome?_map, Function.comp_def]

end Piece

/-- The slot without the classes of words. -/
def Slot.unclassed (s : Slot) : Slot :=
  ⟨s.gap.map Piece.unclassed, s.item.unclassed⟩

namespace Layout

open Piece

/-! ## Content and gaps -/

theorem ofPieces_unclassed (ps : List Piece) :
    Sheet.ofPieces (ps.map unclassed) =
      ⟨(Sheet.ofPieces ps).slots.map Slot.unclassed, (Sheet.ofPieces ps).tail.map unclassed⟩ := by
  induction ps with
  | nil => rfl
  | cons p ps ih =>
    rw [List.map_cons, Sheet.ofPieces, ih, Sheet.ofPieces]
    by_cases hp : p.isLayout = true
    · cases hslots : (Sheet.ofPieces ps).slots <;>
        simp [Sheet.cons, hp, hslots, Slot.unclassed]
    · simp [Sheet.cons, hp, Slot.unclassed]

theorem flatMap_pieces_unclassed (slots : List Slot) :
    (slots.map Slot.unclassed).flatMap Slot.pieces = (slots.flatMap Slot.pieces).map unclassed := by
  rw [List.flatMap_map, List.map_flatMap]
  congr 1
  funext s
  simp [Slot.unclassed, Slot.pieces]

/-! ## Braces -/

theorem endsHeader_unclassed (p : Piece) : endsHeader p.unclassed = endsHeader p := by
  rcases p with ⟨kind, text, span, suppressed⟩
  cases kind <;> rfl

theorem movesBrace_unclassed (rules : RuleSet) (header : Option Piece) (s : Slot) :
    movesBrace rules (header.map unclassed) s.unclassed = movesBrace rules header s := by
  have hgap : braceGapFits rules.openBrace (s.gap.map unclassed) =
      braceGapFits rules.openBrace s.gap := by
    cases rules.openBrace with
    | sameLine =>
      match s.gap with
      | [] => rfl
      | [_] => rfl
      | _ :: _ :: _ => rfl
    | ownLine => simp [braceGapFits, List.countP_map, Function.comp_def]
  simp [movesBrace, placesBrace, Slot.unclassed, hgap, Option.any_map, endsHeader_unclassed,
    Function.comp_def]

theorem braceGap_unclassed (rules : RuleSet) : (braceGap rules).map unclassed = braceGap rules := by
  unfold braceGap
  cases rules.openBrace <;> rfl

theorem placeBraces_unclassed (rules : RuleSet) (header : Option Piece) (slots : List Slot) :
    placeBraces rules (header.map unclassed) (slots.map Slot.unclassed) =
      (placeBraces rules header slots).map Slot.unclassed := by
  induction slots generalizing header with
  | nil => rfl
  | cons s slots ih =>
    rw [List.map_cons, placeBraces, placeBraces, List.map_cons, movesBrace_unclassed]
    have hmore := ih (some s.item)
    rw [Option.map_some] at hmore
    rw [show s.unclassed.item = s.item.unclassed from rfl, hmore]
    congr 1
    split
    · simp [Slot.unclassed, braceGap_unclassed]
    · rfl

theorem braceDiagnostics_unclassed (rules : RuleSet) (header : Option Piece) (slots : List Slot) :
    braceDiagnostics rules (header.map unclassed) (slots.map Slot.unclassed) =
      braceDiagnostics rules header slots := by
  induction slots generalizing header with
  | nil => rfl
  | cons s slots ih =>
    have hmore := ih (some s.item)
    rw [Option.map_some] at hmore
    rw [List.map_cons, braceDiagnostics, braceDiagnostics, movesBrace_unclassed,
      show s.unclassed.item = s.item.unclassed from rfl, hmore]
    rfl

/-! ## Brackets -/

/-- A bracket is no word, so the pairs are the very same. -/
theorem bracketPairs_unclassed (stack : List (Nat × Piece)) (i : Nat) (ps : List Piece) :
    bracketPairs stack i (ps.map unclassed) = bracketPairs stack i ps := by
  induction ps generalizing stack i with
  | nil => rfl
  | cons p ps ih =>
    rw [List.map_cons, bracketPairs.eq_def, bracketPairs.eq_def]
    by_cases hp : p.kind = .punctuation
    · simp only [unclassed_of_punctuation hp, ih]
    · have hp' : ¬ p.unclassed.kind = .punctuation := mt (punctuation_unclassed_iff p).1 hp
      simp only [if_neg hp, if_neg hp', ih]

theorem livePairs_unclassed (slots : List Slot) :
    livePairs (slots.map Slot.unclassed) = livePairs slots := by
  have hitems : (slots.map Slot.unclassed).map Slot.item = (slots.map Slot.item).map unclassed := by
    simp [Slot.unclassed, Function.comp_def]
  rw [livePairs, hitems, bracketPairs_unclassed, livePairs]

theorem gapDiffers_unclassed (wanted : Option Text) (gap : List Piece) :
    gapDiffers wanted (gap.map unclassed) = gapDiffers wanted gap := by
  cases wanted with
  | none => rfl
  | some t => simp [gapDiffers, List.any_map, Function.comp_def]

theorem gapOf_unclassed (t : Text) : (gapOf t).map unclassed = gapOf t := by
  cases t <;> rfl

theorem spaceBrackets_unclassed (rules : RuleSet) (pairs : List BracketPair) (i : Nat)
    (slots : List Slot) :
    spaceBrackets rules pairs i (slots.map Slot.unclassed) =
      (spaceBrackets rules pairs i slots).map Slot.unclassed := by
  induction slots generalizing i with
  | nil => rfl
  | cons s slots ih =>
    have hgap : gapDiffers (edgeBlanks rules pairs i) s.unclassed.gap =
        gapDiffers (edgeBlanks rules pairs i) s.gap := gapDiffers_unclassed _ _
    rw [List.map_cons, spaceBrackets, spaceBrackets, List.map_cons, ih, hgap]
    congr 1
    split
    · simp [Slot.unclassed, gapOf_unclassed]
    · rfl

theorem bracketDiagnostics_unclassed (rules : RuleSet) (pairs : List BracketPair)
    (slots : List Slot) :
    bracketDiagnostics rules pairs (slots.map Slot.unclassed) =
      bracketDiagnostics rules pairs slots := by
  have hedge (i : Nat) : edgeDiffers rules pairs (slots.map Slot.unclassed) i =
      edgeDiffers rules pairs slots i := by
    unfold edgeDiffers
    rw [List.getElem?_map]
    cases slots[i]? with
    | none => rfl
    | some s => exact gapDiffers_unclassed _ _
  simp only [bracketDiagnostics, hedge]

/-! ## Lines -/

/-- The line without the classes of words. -/
def Line.unclassed (l : Line) : Line :=
  ⟨l.body.map Piece.unclassed, l.ending.map Piece.unclassed⟩

theorem split_unclassed (ps : List Piece) :
    Line.split (ps.map unclassed) = (Line.split ps).map Line.unclassed := by
  induction ps with
  | nil => rfl
  | cons p ps ih =>
    rw [List.map_cons, Line.split, Line.split, isNewline_unclassed, ih]
    split
    · rfl
    · cases Line.split ps <;> rfl

theorem pieces_unclassed (l : Line) : l.unclassed.pieces = l.pieces.map unclassed := by
  rcases l with ⟨body, ending⟩
  cases ending <;> simp [Line.pieces, Line.unclassed]

theorem content_unclassed (l : Line) : l.unclassed.content = l.content.map unclassed := by
  simp [Line.content, Line.unclassed, List.filter_map, Function.comp_def]

theorem indentFor_unclassed (rules : RuleSet) (st : LineState) (first : Piece) :
    indentFor rules st first.unclassed = indentFor rules st first := by
  rcases first with ⟨kind, text, span, suppressed⟩
  cases kind <;> rfl

theorem bracesAfter_unclassed (braces : Nat) (ps : List Piece) :
    bracesAfter braces (ps.map unclassed) = bracesAfter braces ps := by
  simp [bracesAfter, List.foldl_map]

theorem dropWhile_isLayout_unclassed (body : List Piece) :
    (body.map unclassed).dropWhile isLayout = (body.dropWhile isLayout).map unclassed := by
  simp [List.dropWhile_map, Function.comp_def]

theorem indentDiffers_unclassed (indent : Text) (body : List Piece) :
    indentDiffers indent (body.map unclassed) = indentDiffers indent body := by
  have htake : (body.map unclassed).takeWhile isLayout =
      (body.takeWhile isLayout).map unclassed := by
    simp [List.takeWhile_map, Function.comp_def]
  unfold indentDiffers
  rw [htake, dropWhile_isLayout_unclassed]
  simp [List.any_map, Option.any_map, Function.comp_def]

theorem reindent_unclassed (indent : Text) (body : List Piece) :
    reindent indent (body.map unclassed) = (reindent indent body).map unclassed := by
  unfold reindent
  rw [dropWhile_isLayout_unclassed]
  split
  · rfl
  · rfl

theorem isStripped_comp_unclassed : isStripped ∘ unclassed = isStripped := by
  funext p
  simp [isStripped]

theorem stripEnd_unclassed (body : List Piece) :
    stripEnd (body.map unclassed) = (stripEnd body).map unclassed := by
  simp [stripEnd, ← List.map_reverse, List.dropWhile_map, isStripped_comp_unclassed]

theorem stripDiagnostics_unclassed (l : Line) :
    stripDiagnostics l.unclassed = stripDiagnostics l := by
  have hend : strippedEnd l.unclassed.body = (strippedEnd l.body).map unclassed := by
    simp only [strippedEnd, Line.unclassed, ← List.map_reverse, List.takeWhile_map, List.filter_map,
      isStripped_comp_unclassed]
    rfl
  unfold stripDiagnostics
  rw [hend, pieces_unclassed, firstSpan_unclassed]
  cases strippedEnd l.body <;> rfl

theorem withEnding_unclassed (rules : RuleSet) (p : Piece) :
    withEnding rules p.unclassed = (withEnding rules p).unclassed := by
  rcases p with ⟨kind, text, span, suppressed⟩
  cases suppressed with
  | true => rfl
  | false =>
    cases span with
    | none => rfl
    | some _ => cases kind <;> rfl

theorem firstOtherEnding_unclassed (rules : RuleSet) (ps : List Piece) :
    firstOtherEnding rules (ps.map unclassed) = (firstOtherEnding rules ps).map unclassed := by
  have hother : (fun p => (withEnding rules p).text ≠ p.text : Piece → Bool) ∘ unclassed =
      fun p => (withEnding rules p).text ≠ p.text := by
    funext p
    simp [withEnding_unclassed]
  rw [firstOtherEnding, List.find?_map, hother]
  rfl

theorem endingDiagnostics_unclassed (rules : RuleSet) (reported : Bool) (ps : List Piece) :
    endingDiagnostics rules reported (ps.map unclassed) = endingDiagnostics rules reported ps := by
  unfold endingDiagnostics
  rw [firstOtherEnding_unclassed]
  cases firstOtherEnding rules ps <;> rfl

/-! ## One line -/

/-- The result without the classes of words. -/
def LineResult.unclassed (r : LineResult) : LineResult :=
  { r with pieces := r.pieces.map Piece.unclassed }

theorem finishLine_unclassed (rules : RuleSet) (st : LineState) (l : Line) :
    finishLine rules st l.unclassed = LineResult.unclassed (finishLine rules st l) := by
  have hkept : stripEnd l.unclassed.body ++ l.unclassed.ending.toList =
      (stripEnd l.body ++ l.ending.toList).map unclassed := by
    rcases l with ⟨body, ending⟩
    cases ending <;> simp [Line.unclassed, stripEnd_unclassed]
  simp only [finishLine, LineResult.unclassed, hkept, firstOtherEnding_unclassed, Option.isSome_map,
    stripDiagnostics_unclassed, endingDiagnostics_unclassed, List.map_map, Function.comp_def,
    withEnding_unclassed]

theorem emptyLine_unclassed (rules : RuleSet) (st : LineState) (l : Line) :
    emptyLine rules st l.unclassed = LineResult.unclassed (emptyLine rules st l) := by
  have hany : (l.pieces.map unclassed).any Piece.suppressed = l.pieces.any Piece.suppressed := by
    simp [List.any_map, Function.comp_def]
  simp only [emptyLine, pieces_unclassed, hany, firstSpan_unclassed, finishLine_unclassed]
  split
  · rfl
  · rfl

theorem contentLine_unclassed (rules : RuleSet) (st : LineState) (first : Piece) (l : Line) :
    contentLine rules st first.unclassed l.unclassed =
      LineResult.unclassed (contentLine rules st first l) := by
  have hbody (indent : Text) :
      ({ l.unclassed with
          body := if indentDiffers indent l.body then reindent indent (l.body.map unclassed)
            else l.body.map unclassed } : Line) =
        Line.unclassed { l with
          body := if indentDiffers indent l.body then reindent indent l.body else l.body } := by
    split
    · simp [Line.unclassed, reindent_unclassed]
    · rfl
  have hdiagnostic (indent : Indent) :
      indentDiagnostic indent l.unclassed = indentDiagnostic indent l := by
    simp only [indentDiagnostic, content_unclassed, firstSpan_unclassed]
  simp only [contentLine, indentFor_unclassed, content_unclassed, bracesAfter_unclassed,
    hdiagnostic]
  simp only [show l.unclassed.body = l.body.map unclassed from rfl, indentDiffers_unclassed,
    hbody, finishLine_unclassed]
  rfl

theorem formatLine_unclassed (rules : RuleSet) (st : LineState) (l : Line) :
    formatLine rules st l.unclassed = LineResult.unclassed (formatLine rules st l) := by
  unfold formatLine
  rw [content_unclassed]
  cases l.content with
  | nil => exact emptyLine_unclassed rules st l
  | cons first more => exact contentLine_unclassed rules st first l

theorem formatLines_unclassed (rules : RuleSet) (st : LineState) (lines : List Line) :
    formatLines rules st (lines.map Line.unclassed) =
      ((formatLines rules st lines).1.map unclassed, (formatLines rules st lines).2) := by
  induction lines generalizing st with
  | nil => rfl
  | cons l lines ih =>
    simp only [List.map_cons, formatLines, formatLine_unclassed, LineResult.unclassed, ih,
      List.map_append]

/-! ## All passes -/

/-- Formatting gives the same findings, and the same pieces but for the classes of words. -/
theorem formatPieces_unclassed (rules : RuleSet) (ps : List Piece) :
    formatPieces rules (ps.map unclassed) =
      { formatPieces rules ps with pieces := (formatPieces rules ps).pieces.map unclassed } := by
  have hbraced := placeBraces_unclassed rules none (Sheet.ofPieces ps).slots
  have hfindings := braceDiagnostics_unclassed rules none (Sheet.ofPieces ps).slots
  rw [Option.map_none] at hbraced hfindings
  simp only [formatPieces, ofPieces_unclassed, hbraced, hfindings, livePairs_unclassed,
    spaceBrackets_unclassed, bracketDiagnostics_unclassed, Sheet.pieces, flatMap_pieces_unclassed,
    ← List.map_append, split_unclassed, formatLines_unclassed]

theorem piecesOf_unclassed (ts : List Token) (suppressed : List Bool) :
    piecesOf (ts.map Token.unclassed) suppressed = (piecesOf ts suppressed).map unclassed := by
  have hkind (t : Token) : t.unclassed.kind ≠ .eof ↔ t.kind ≠ .eof := by
    rcases t with ⟨⟨kind, text⟩, offset, span⟩
    cases kind <;> simp [Token.unclassed, Lexeme.unclassed, TokenKind.unclassed]
  unfold piecesOf
  rw [List.zip_map_left, List.filter_map, List.map_map, List.map_map]
  simp only [Function.comp_def, Prod.map_fst, Prod.map_snd, hkind, id_eq]
  rfl

theorem restyle_unclassed (rules : RuleSet) (ts : List Token) :
    (restyle rules (ts.map Token.unclassed)).text = (restyle rules ts).text ∧
      (restyle rules (ts.map Token.unclassed)).diagnostics = (restyle rules ts).diagnostics := by
  simp only [restyle, format, Suppression.scan_unclassed, piecesOf_unclassed,
    formatPieces_unclassed, Formatted.text, render_unclassed, and_self]

/-- Lexing fails alike in two dialects, or it gives tokens that are the same but for the classes of
words; and then the same regions are switched off, with the same findings about the markers, and
formatting gives the same text and the same findings. -/
theorem restyle_dialect_irrelevant (d d' : Dialect) (source : Text) :
    (∃ fault, tokenize d source = .error fault ∧ tokenize d' source = .error fault) ∨
    ∃ tokens tokens', tokenize d source = .ok tokens ∧ tokenize d' source = .ok tokens' ∧
      List.Forall₂ Token.SameButForClass tokens tokens' ∧
      Suppression.scan tokens = Suppression.scan tokens' ∧
      ∀ rules, (restyle rules tokens).text = (restyle rules tokens').text ∧
        (restyle rules tokens).diagnostics = (restyle rules tokens').diagnostics := by
  rcases tokenize_unclassed d d' source with hfault | ⟨tokens, tokens', htokens, htokens', hsame⟩
  · exact .inl hfault
  · refine .inr ⟨tokens, tokens', htokens, htokens', Token.forall₂_sameButForClass hsame, ?_, ?_⟩
    · rw [← Suppression.scan_unclassed tokens, hsame, Suppression.scan_unclassed]
    · intro rules
      rcases restyle_unclassed rules tokens with ⟨htext, hfindings⟩
      rcases restyle_unclassed rules tokens' with ⟨htext', hfindings'⟩
      rw [hsame] at htext hfindings
      exact ⟨htext.symm.trans htext', hfindings.symm.trans hfindings'⟩

end Layout

end ShaderStyle
