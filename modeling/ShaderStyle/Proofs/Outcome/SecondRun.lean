import ShaderStyle.Proofs.Compliance.Restyled
import ShaderStyle.Proofs.Outcome.Verdicts

/-!
# Running again

A second run on the formatted text changes nothing. Whether it is clean depends on the checks, and they
look at lines: `process_restyled` says that it is clean exactly if the outline of the formatted text
complies, and that nothing new is found unless

* opening braces go on lines of their own, so that a line marker loses the name it covers; or
* empty lines are dropped, so that comments join which were apart, and documentation is asked for.

Both happen: see `lineMarker_left_behind` and the example behind it.
-/

namespace ShaderStyle

open Lexer Layout Outline

/-- The outline of the tokens of a source. -/
def Outline.ofTokens (tokens : List Token) : List Row :=
  (Page.ofLexemes false (tokens.map Token.toLexeme).dropLast).outline

theorem ofTokens_place (ls : List Lexeme) :
    ofTokens (place 0 .origin ls) = (Page.ofLexemes false ls).outline := by
  rw [ofTokens, map_toLexeme_place, List.dropLast_concat]

/-! ## The first run -/

/-- Without an error, the outline of a source complies. -/
theorem complies_of_verdict {rules : RuleSet} {d : Dialect} {ls : List Lexeme} {o : Outcome}
    (h : IsLexed d true ls) (ho : process rules d (textOf ls) = .ok o)
    (hverdict : o.verdict ≠ .manualFix) : Complies rules d (Page.ofLexemes false ls).outline := by
  have htokens : tokenize d (textOf ls) = .ok (place 0 .origin ls) :=
    tokenize_eq_ok_iff.2 ⟨ls, h, rfl, rfl⟩
  rw [Ne, (verdict_iff (verdict_process htokens ho)).1, Classical.not_not] at hverdict
  exact (check_eq_nil_iff h rules).1 hverdict

theorem itemsStay_of_isLexed {d : Dialect} {ls : List Lexeme} (rules : RuleSet)
    (h : IsLexed d true ls) : ItemsStay rules (Page.ofLexemes false ls).cells := by
  intro c hc
  obtain ⟨b, t, hread⟩ := exists_reads_of_mem h (Page.item_mem_of_mem_ofLexemes hc)
  exact sameItem_newItem hread rules c.kept

/-! ## The second run -/

/-- A run on a source whose page is as it should be changes nothing, and is clean exactly if the outline
complies. -/
theorem process_settled {rules : RuleSet} {d : Dialect} {ls : List Lexeme} (h : IsLexed d true ls)
    (hpage : (Page.ofLexemes false ls).formatted rules = Page.ofLexemes false ls) :
    ∃ o, process rules d (textOf ls) = .ok o ∧ o.text = textOf ls ∧ o.changed = false ∧
      (o.verdict = .clean ↔ Complies rules d (Page.ofLexemes false ls).outline) := by
  have htokens : tokenize d (textOf ls) = .ok (place 0 .origin ls) :=
    tokenize_eq_ok_iff.2 ⟨ls, h, rfl, rfl⟩
  have htext : (restyle rules (place 0 .origin ls)).text = textOf ls := by
    rw [text_restyle rules h, hpage, Page.text, Page.lexemes_ofLexemes]
  have ho : process rules d (textOf ls) = .ok _ := process_eq htokens
  have hclean := (verdict_iff (verdict_process htokens ho)).2.2
  refine ⟨_, ho, htext, ?_, ?_⟩
  · rw [htext]
    simp [Outcome.of]
  · rw [hclean, htext, ← check_eq_nil_iff h]
    simp

/-- A second run gives the formatted text back. It is clean exactly if the outline of that text
complies. The declarations are those of the source, and nothing new is found about any of them, unless
braces are moved and line markers are about, or empty lines are dropped and documentation is asked
for. -/
theorem process_restyled (rules : RuleSet) (d : Dialect) (source : Text) (tokens : List Token)
    (o : Outcome) (htokens : tokenize d source = .ok tokens) (ho : process rules d source = .ok o)
    (hdirectives : ¬ Dangling (marked tokens)) :
    ∃ tokens' o', tokenize d o.text = .ok tokens' ∧ process rules d o.text = .ok o' ∧
      o'.text = o.text ∧ o'.changed = false ∧
      (o'.verdict = .clean ↔ Complies rules d (ofTokens tokens')) ∧
      declared d (ofTokens tokens') = declared d (ofTokens tokens) ∧
      ((rules.openBrace = .sameLine ∨ ∀ t ∈ tokens, Marker.of? t.toLexeme ≠ some .line) →
        (1 ≤ rules.maxEmptyLines ∨ NoDocs rules) →
          (∀ x, CompliesAt rules (ofTokens tokens) x → CompliesAt rules (ofTokens tokens') x) ∧
          (o.verdict ≠ .manualFix → o'.verdict = .clean)) := by
  obtain ⟨ls, hlexed, rfl, rfl⟩ := tokenize_eq_ok_iff.1 htokens
  have hregular := Page.isRegular_ofLexemes false ls
  have hnone : NoneDangles (Page.ofLexemes false ls).tail (Page.ofLexemes false ls).cells := by
    rw [marked_place, Page.marked, List.append_assoc, dangling_iff hregular.cells hregular.tail,
      Classical.not_not] at hdirectives
    exact hdirectives
  have hstay := itemsStay_of_isLexed rules hlexed
  have hrelexed := isLexed_formatted rules hlexed hnone
  have hpage := ofLexemes_formatted rules hlexed
  have hsettled : (Page.ofLexemes false ((Page.ofLexemes false ls).formatted rules).lexemes).formatted
      rules = Page.ofLexemes false ((Page.ofLexemes false ls).formatted rules).lexemes := by
    rw [hpage, formatted_formatted (Nat.le_refl rules.maxEmptyLines)]
  have hotext : o.text = ((Page.ofLexemes false ls).formatted rules).text := by
    rw [process_eq htokens, Except.ok.injEq] at ho
    rw [← ho, ← text_restyle rules hlexed]
    rfl
  obtain ⟨o', ho', htext, hchanged, hclean⟩ := process_settled hrelexed hsettled
  rw [hpage] at hclean
  rw [hotext]
  refine ⟨_, o', tokenize_eq_ok_iff.2 ⟨_, hrelexed, rfl, rfl⟩, ho', htext, hchanged, ?_, ?_, ?_⟩
  · rw [ofTokens_place, hpage]
    exact hclean
  · rw [ofTokens_place, ofTokens_place, hpage]
    exact declared_formatted hstay d
  · intro hlines hdocs
    have hlines' : rules.openBrace = .sameLine ∨
        ∀ c ∈ (Page.ofLexemes false ls).cells, Marker.of? c.item ≠ some .line := by
      rcases hlines with hbrace | hunmarked
      · exact .inl hbrace
      · refine .inr ?_
        intro c hc
        have hmem : c.item ∈ (place 0 .origin ls).map Token.toLexeme := by
          rw [map_toLexeme_place]
          exact List.mem_append_left _ (Page.item_mem_of_mem_ofLexemes hc)
        rcases List.mem_map.1 hmem with ⟨t, ht, hitem⟩
        rw [← hitem]
        exact hunmarked t ht
    have hkeeps {x : Declaration} := compliesAt_formatted (x := x) hstay hlines' hdocs
    rw [ofTokens_place, ofTokens_place, hpage]
    refine ⟨fun x => hkeeps, ?_⟩
    intro hverdict
    rw [hclean]
    intro x hx
    rw [declared_formatted hstay] at hx
    exact hkeeps (complies_of_verdict hlexed ho hverdict x hx)

/-- In `struct a{};//NOLINT` the brace takes the marker along to a line of its own, and the name that
was covered is found at fault. -/
theorem lineMarker_left_behind :
    ∃ o o', process { openBrace := .ownLine, structCase := some .pascal } .hlsl
        ['s', 't', 'r', 'u', 'c', 't', ' ', 'a', '{', '}', ';', '/', '/', 'N', 'O', 'L', 'I', 'N',
          'T'] = .ok o ∧ o.verdict = .formatted ∧
      process { openBrace := .ownLine, structCase := some .pascal } .hlsl o.text = .ok o' ∧
      o'.verdict ≠ .clean := by
  have htokens : tokenize .hlsl ['s', 't', 'r', 'u', 'c', 't', ' ', 'a', '{', '}', ';', '/', '/',
      'N', 'O', 'L', 'I', 'N', 'T'] = .ok _ :=
    tokenize_eq_ok_iff.2 ⟨[⟨.word .keyword, ['s', 't', 'r', 'u', 'c', 't']⟩, ⟨.whitespace, [' ']⟩,
      ⟨.word .identifier, ['a']⟩, ⟨.punctuation, ['{']⟩, ⟨.punctuation, ['}']⟩,
      ⟨.punctuation, [';']⟩, ⟨.lineComment false, ['/', '/', 'N', 'O', 'L', 'I', 'N', 'T']⟩],
      by decide +kernel, rfl, rfl⟩
  have houtput : tokenize .hlsl ['s', 't', 'r', 'u', 'c', 't', ' ', 'a', '\n', '{', '}', ';', '/', '/',
      'N', 'O', 'L', 'I', 'N', 'T'] = .ok _ :=
    tokenize_eq_ok_iff.2 ⟨[⟨.word .keyword, ['s', 't', 'r', 'u', 'c', 't']⟩, ⟨.whitespace, [' ']⟩,
      ⟨.word .identifier, ['a']⟩, ⟨.lineBreak, ['\n']⟩, ⟨.punctuation, ['{']⟩,
      ⟨.punctuation, ['}']⟩, ⟨.punctuation, [';']⟩,
      ⟨.lineComment false, ['/', '/', 'N', 'O', 'L', 'I', 'N', 'T']⟩],
      by decide +kernel, rfl, rfl⟩
  have ho : process { openBrace := .ownLine, structCase := some .pascal } .hlsl _ = .ok _ :=
    process_eq htokens
  rcases process_restyled _ .hlsl _ _ _ htokens ho (by decide +kernel) with
    ⟨tokens', o', htokens', ho', -, -, hclean, -⟩
  refine ⟨_, o', ho, by decide +kernel, ho', ?_⟩
  rw [Outcome.of, show Formatted.text _ = ['s', 't', 'r', 'u', 'c', 't', ' ', 'a', '\n', '{', '}', ';',
    '/', '/', 'N', 'O', 'L', 'I', 'N', 'T'] by decide +kernel, houtput, Except.ok.injEq] at htokens'
  subst htokens'
  rw [Ne, hclean]
  intro hcomplies
  -- the name is the second item, on a line without a marker
  have hnamed := (hcomplies ⟨⟨.struct, ['a'], 1, 0, 0, [], .other, false⟩, []⟩ (by decide +kernel)
    (by decide +kernel)).1 (.empty .origin)
  exact absurd hnamed (by decide +kernel)

/-- A comment that was apart documents the function as soon as the empty line is dropped. -/
example :
    ((process { maxEmptyLines := 0, functionDocs := some true } .hlsl
        ['/', '/', '@', 'p', 'a', 'r', 'a', 'm', ' ', 'x', '\n', '\n', '/', '/', 'd', '\n', 'v', 'o',
          'i', 'd', ' ', 'f', '(', ')', ';']).toOption.bind fun o =>
      (process { maxEmptyLines := 0, functionDocs := some true } .hlsl o.text).toOption.map fun o' =>
        (o.verdict, o'.verdict)) = some (.formatted, .manualFix) := by
  decide +kernel

end ShaderStyle
