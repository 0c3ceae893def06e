import ShaderStyle.Proofs.Compliance.Conformance
import ShaderStyle.Proofs.Compliance.Findings

/-!
# Layout and comments do not matter

Two lists of tokens that agree in everything but layout and comments declare the same: the lists of
their declarations match entry by entry, where places match if they are those of the same site
(`declarations_matches`). If no documentation is asked for and no check is suppressed, the checks also
find the same in both (`check_ignores_trivia`).
-/

namespace ShaderStyle

/-- The lexemes agree in kind, category and text. What a directive is called is read off its text. -/
def Lexeme.Agrees (l l' : Lexeme) : Prop :=
  l.kind.unnamed = l'.kind.unnamed ∧ l.text = l'.text

/-- The two tokens are the same in order among the sites of their lists. -/
def SamePlace (ss ss' : List Site) (i i' : Nat) : Prop :=
  ∃ (k : Nat) (s s' : Site), ss[k]? = some s ∧ ss'[k]? = some s' ∧ s.index = i ∧ s'.index = i'

/-- The bindings agree in everything but their places, and those match. -/
structure Binding.Matches (ss ss' : List Site) (b b' : Binding) : Prop where
  same : { b' with nameIndex := b.nameIndex, startIndex := b.startIndex } = b
  nameIndex : SamePlace ss ss' b.nameIndex b'.nameIndex
  startIndex : SamePlace ss ss' b.startIndex b'.startIndex

/-- The declarations match, and so do their parameters. -/
structure Declaration.Matches (ss ss' : List Site) (x x' : Declaration) : Prop where
  binding : x.toBinding.Matches ss ss' x'.toBinding
  parameters : List.Forall₂ (Binding.Matches ss ss') x.parameters x'.parameters

namespace Scan

variable {d : Dialect} {ss ss' : List Site}

/-! ## Numbered sites -/

/-- The sites with their numbers for places. -/
def numbered (ss : List Site) : List Site :=
  ss.zipIdx.map fun (s, k) => { s with index := k }

/-- The place of the site with a number. -/
def placeOf (ss : List Site) (k : Nat) : Nat :=
  (ss[k]?.map Site.index).getD 0

theorem map_moved_numbered (ss : List Site) : (numbered ss).map (moved (placeOf ss)) = ss := by
  have hback : ∀ x ∈ ss.zipIdx,
      (moved (placeOf ss) ∘ fun (x : Site × Nat) => { x.1 with index := x.2 }) x = x.1 := by
    rintro ⟨s, k⟩ hx
    have hget : ss[k]? = some s := List.mem_zipIdx_iff_getElem?.1 hx
    simp [moved, placeOf, hget]
  rw [numbered, List.map_map, List.map_congr_left hback, List.zipIdx_map_fst]

theorem placeOf_map_unnamed (ss : List Site) : placeOf (ss.map unnamed) = placeOf ss := by
  funext k
  rw [placeOf, placeOf, List.getElem?_map, Option.map_map]
  rfl

/-- The declarations are those of the numbered sites, with their places put back. -/
theorem declarations_numbered (d : Dialect) (st : State) (ss : List Site) :
    declarations d st ss =
      (declarations d st (numbered (ss.map unnamed))).map (Declaration.renamed (placeOf ss)) := by
  rw [← declarations_map (renames_moved d (placeOf ss)), ← placeOf_map_unnamed, map_moved_numbered,
    declarations_map_id (renames_unnamed d)]

/-- Once numbered, sites that agree are the same. -/
theorem numbered_eq (h : List.Forall₂ (fun s s' => s.Agrees s'.toLexeme) ss ss') :
    numbered (ss.map unnamed) = numbered (ss'.map unnamed) := by
  have hlexemes (ss : List Site) : numbered (ss.map unnamed) =
      (ss.map fun s => (⟨s.kind.unnamed, s.text⟩ : Lexeme)).zipIdx.map fun (l, k) => ⟨l, k⟩ := by
    rw [numbered, List.zipIdx_map, List.zipIdx_map, List.map_map, List.map_map]
    rfl
  rw [hlexemes, hlexemes]
  congr 2
  induction h with
  | nil => rfl
  | cons hs _ ih => rw [List.map_cons, List.map_cons, ih, hs.1, hs.2]

theorem samePlace_placeOf (hlength : ss.length = ss'.length) {k : Nat} (hk : k < ss.length) :
    SamePlace ss ss' (placeOf ss k) (placeOf ss' k) := by
  have hk' : k < ss'.length := hlength ▸ hk
  exact ⟨k, ss[k], ss'[k], List.getElem?_eq_getElem hk, List.getElem?_eq_getElem hk',
    by simp [placeOf, hk], by simp [placeOf, hk']⟩

/-- Sites that agree declare the same. -/
theorem declarations_matches (h : List.Forall₂ (fun s s' => s.Agrees s'.toLexeme) ss ss')
    (st : State) :
    List.Forall₂ (Declaration.Matches ss ss') (declarations d st ss) (declarations d st ss') := by
  -- both are read off one numbered list, and differ only in which places the numbers get back
  rw [declarations_numbered d st ss, declarations_numbered d st ss', ← numbered_eq h,
    List.forall₂_map_left_iff, List.forall₂_map_right_iff, List.forall₂_same]
  intro x hx
  have hplaces : (numbered (ss.map unnamed)).map Site.index = List.range ss.length := by
    rw [numbered, List.map_map]
    show List.map Prod.snd _ = _
    rw [List.zipIdx_map_snd, List.length_map, List.range_eq_range']
  have hmatches {b : Binding} (hb : b ∈ x.toBinding :: x.parameters) :
      (b.renamed (placeOf ss)).Matches ss ss' (b.renamed (placeOf ss')) := by
    have hmem := place_of_mem_declarations hx b hb
    rw [hplaces, List.mem_range, List.mem_range] at hmem
    exact ⟨rfl, samePlace_placeOf h.length_eq hmem.1, samePlace_placeOf h.length_eq hmem.2⟩
  refine ⟨hmatches List.mem_cons_self, ?_⟩
  rw [Declaration.renamed, Declaration.renamed, List.forall₂_map_left_iff,
    List.forall₂_map_right_iff, List.forall₂_same]
  intro b hb
  exact hmatches (List.mem_cons_of_mem _ hb)

end Scan

namespace Compliance

variable {rules : RuleSet} {tokens : List Token}

/-! ## Findings -/

/-- The rule that a finding comes from, and what it says. -/
def wording (x : Diagnostic) : String × String :=
  (x.rule, x.message)

/-- Without documentation and suppression, the findings about a declaration are those about its
name. -/
theorem checkDeclaration_eq {suppressed : List Bool} {x : Declaration} {t : Token}
    (hdocs : ∀ kind, ¬ asksDocs rules kind) (hsuppressed : true ∉ suppressed)
    (ht : tokens[x.nameIndex]? = some t) :
    checkDeclaration rules tokens suppressed x = checkName rules x.toBinding t.span := by
  have hflag : suppressed.getD x.nameIndex false ≠ true := by
    rw [List.getD_eq_getElem?_getD]
    intro hflag
    cases hget : suppressed[x.nameIndex]? with
    | none => simp [hget] at hflag
    | some flag =>
      rw [hget, Option.getD_some] at hflag
      exact hsuppressed (hflag ▸ List.mem_of_getElem? hget)
  have hnone : checkDocs rules tokens x t.span = [] :=
    checkDocs_eq_nil_iff.2 ⟨fun hasks => absurd hasks (hdocs _), fun hasks => absurd hasks (hdocs _)⟩
  rw [checkDeclaration, if_neg hflag, ht]
  simp only [hnone, List.append_nil]

/-- The findings about a name do not depend on its places. -/
theorem wording_checkName {ss ss' : List Site} {b b' : Binding} (h : b.Matches ss ss' b')
    (span span' : Span) :
    (checkName rules b span).map wording = (checkName rules b' span').map wording := by
  have hname : checkName rules b span = checkName rules b' span := by
    rw [← h.same]
    rfl
  rw [hname, Outline.checkName_relocated rules b' span span', List.map_map]
  rfl

/-- Tokens that agree in everything but layout and comments declare the same. The checks find the same
in both, if no documentation is asked for and no check is suppressed. -/
theorem check_ignores_trivia (d : Dialect) (tokens tokens' : List Token)
    (h : List.Forall₂ (fun s s' => s.Agrees s'.toLexeme) (Scan.sites tokens) (Scan.sites tokens')) :
    List.Forall₂ (Declaration.Matches (Scan.sites tokens) (Scan.sites tokens'))
        (scanDeclarations d tokens) (scanDeclarations d tokens') ∧
      ∀ (rules : RuleSet) (suppressed suppressed' : List Bool), (∀ kind, ¬ asksDocs rules kind) →
        true ∉ suppressed → true ∉ suppressed' →
        (check rules d tokens suppressed).map wording =
          (check rules d tokens' suppressed').map wording := by
  have hmatches := Scan.declarations_matches (d := d) h {}
  refine ⟨hmatches, ?_⟩
  intro rules suppressed suppressed' hdocs hnone hnone'
  have hfound : List.Forall₂ (fun x x' =>
      (checkDeclaration rules tokens suppressed x).map wording =
        (checkDeclaration rules tokens' suppressed' x').map wording)
      (scanDeclarations d tokens) (scanDeclarations d tokens') := by
    have hall := List.forall₂_iff_zip.1 hmatches
    rw [List.forall₂_iff_zip]
    refine ⟨hall.1, ?_⟩
    intro x x' hx
    -- both names have tokens, so neither declaration is left out of the check
    rcases name_of_mem_scanDeclarations (List.of_mem_zip hx).1 with ⟨t, ht, -⟩
    rcases name_of_mem_scanDeclarations (List.of_mem_zip hx).2 with ⟨t', ht', -⟩
    rw [checkDeclaration_eq hdocs hnone ht, checkDeclaration_eq hdocs hnone' ht']
    exact wording_checkName (hall.2 hx).binding t.span t'.span
  rw [check, check, List.map_flatMap, List.map_flatMap]
  generalize scanDeclarations d tokens = xs, scanDeclarations d tokens' = xs' at hfound ⊢
  induction hfound with
  | nil => rfl
  | cons hx _ ih => rw [List.flatMap_cons, List.flatMap_cons, hx, ih]

/-- A comment between a type and a name, and a line break behind it. -/
theorem check_ignores_trivia_comment :
    ∃ tokens tokens', tokenize .hlsl ['i', 'n', 't', ' ', 'x', ';'] = .ok tokens ∧
      tokenize .hlsl ['i', 'n', 't', '/', '*', '*', '/', '\n', 'x', ';'] = .ok tokens' ∧
      List.Forall₂ (fun s s' => s.Agrees s'.toLexeme) (Scan.sites tokens) (Scan.sites tokens') ∧
      List.Forall₂ (Declaration.Matches (Scan.sites tokens) (Scan.sites tokens'))
        (scanDeclarations .hlsl tokens) (scanDeclarations .hlsl tokens') ∧
      (check { variableCase := some .pascal } .hlsl tokens
          (Suppression.scan tokens).check).map wording =
        (check { variableCase := some .pascal } .hlsl tokens'
          (Suppression.scan tokens').check).map wording := by
  have htokens : tokenize .hlsl ['i', 'n', 't', ' ', 'x', ';'] = .ok _ :=
    Lexer.tokenize_eq_ok_iff.2 ⟨[⟨.word (.typeName .integer), ['i', 'n', 't']⟩, ⟨.whitespace, [' ']⟩,
      ⟨.word .identifier, ['x']⟩, ⟨.punctuation, [';']⟩], by decide +kernel, rfl, rfl⟩
  have htokens' : tokenize .hlsl ['i', 'n', 't', '/', '*', '*', '/', '\n', 'x', ';'] = .ok _ :=
    Lexer.tokenize_eq_ok_iff.2 ⟨[⟨.word (.typeName .integer), ['i', 'n', 't']⟩,
      ⟨.blockComment false, ['/', '*', '*', '/']⟩, ⟨.lineBreak, ['\n']⟩, ⟨.word .identifier, ['x']⟩,
      ⟨.punctuation, [';']⟩], by decide +kernel, rfl, rfl⟩
  have hdocs : ∀ kind, ¬ asksDocs { variableCase := some .pascal } kind := by
    intro kind
    cases kind <;> simp [asksDocs]
  refine ⟨_, _, htokens, htokens', ?agree, (check_ignores_trivia .hlsl _ _ ?agree).1,
    (check_ignores_trivia .hlsl _ _ ?agree).2 _ _ _ hdocs (by decide +kernel) (by decide +kernel)⟩
  case agree => exact .cons ⟨rfl, rfl⟩ (.cons ⟨rfl, rfl⟩ (.cons ⟨rfl, rfl⟩ .nil))

end Compliance

end ShaderStyle
