import ShaderStyle.Outcome
import ShaderStyle.Proofs.Layout.Reports

/-!
# What a verdict says

The findings about a source come from three places: from its markers, from formatting and from the
checks. They can be told apart: those of the checks are errors, and the rules of formatting are not those
about markers. So the outcome of a run can be read off its findings (`process_verdict_iff`): the text is
changed exactly if a warning of formatting is among them, and the verdict follows from that and from
what the checks found.
-/

namespace ShaderStyle

open Layout

/-! ## Errors -/

theorem isError_of_mem_checkCase {b : Binding} {span : Span} {rule : String}
    {style : Option CaseStyle} {s : Compliance.Subject} {x : Diagnostic}
    (h : x ∈ Compliance.checkCase b span rule style s) : x.isError = true := by
  unfold Compliance.checkCase at h
  split at h
  · simp at h
  split at h
  · simp at h
  · rw [List.mem_singleton.1 h]
    rfl

theorem isError_of_mem_checkGlobalPrefix {rules : RuleSet} {b : Binding} {span : Span}
    {x : Diagnostic} (h : x ∈ (Compliance.checkGlobalPrefix rules b span).2) : x.isError = true := by
  unfold Compliance.checkGlobalPrefix at h
  split at h
  · simp at h
  split at h
  · simp only at h
    split at h
    · simp at h
    · rw [List.mem_singleton.1 h]
      rfl
  · simp at h

theorem isError_of_mem_checkTypePrefix {rules : RuleSet} {b : Binding} {span : Span}
    {s : Compliance.Subject} {x : Diagnostic}
    (h : x ∈ (Compliance.checkTypePrefix rules b span s).2) : x.isError = true := by
  unfold Compliance.checkTypePrefix at h
  split at h
  · simp at h
  split at h
  · simp at h
  · rw [List.mem_singleton.1 h]
    rfl

theorem isError_of_mem_checkName {rules : RuleSet} {b : Binding} {span : Span} {x : Diagnostic}
    (h : x ∈ Compliance.checkName rules b span) : x.isError = true := by
  unfold Compliance.checkName at h
  split at h
  · exact isError_of_mem_checkCase h
  · exact isError_of_mem_checkCase h
  · simp only [Compliance.checkVariable, List.mem_append] at h
    rcases h with (hglobal | htype) | hcase
    · exact isError_of_mem_checkGlobalPrefix hglobal
    · exact isError_of_mem_checkTypePrefix htype
    · exact isError_of_mem_checkCase hcase

theorem isError_of_mem_checkDocs {rules : RuleSet} {tokens : List Token} {d : Declaration}
    {span : Span} {x : Diagnostic} (h : x ∈ Compliance.checkDocs rules tokens d span) :
    x.isError = true := by
  unfold Compliance.checkDocs at h
  split at h
  · split at h
    · rw [List.mem_singleton.1 h]
      rfl
    · split at h
      · rcases List.mem_map.1 h with ⟨problem, -, rfl⟩
        rfl
      · simp at h
  · simp at h

/-- Every finding of the checks is an error. -/
theorem isError_of_mem_check {rules : RuleSet} {d : Dialect} {tokens : List Token}
    {suppressed : List Bool} {x : Diagnostic}
    (h : x ∈ Compliance.check rules d tokens suppressed) : x.isError = true := by
  rcases List.mem_flatMap.1 h with ⟨declaration, -, hx⟩
  unfold Compliance.checkDeclaration at hx
  split at hx
  · simp at hx
  split at hx
  · simp at hx
  · rcases List.mem_append.1 hx with hname | hdocs
    · exact isError_of_mem_checkName hname
    · exact isError_of_mem_checkDocs hdocs

theorem not_isError_of_mem_regionDiagnostics {aspect : Aspect} {tokens : List Token} {x : Diagnostic}
    (h : x ∈ Suppression.regionDiagnostics aspect tokens) : x.isError = false := by
  rcases List.mem_append.1 h with hunmatched | hopen
  · rcases List.mem_map.1 hunmatched with ⟨_, -, rfl⟩
    rfl
  · rcases List.mem_map.1 hopen with ⟨_, -, rfl⟩
    rfl

theorem Diagnostic.mem_sort {ds : List Diagnostic} {x : Diagnostic} : x ∈ sort ds ↔ x ∈ ds :=
  (List.mergeSort_perm ds le).mem_iff

/-- No finding about markers is an error. -/
theorem not_isError_of_mem_scan {tokens : List Token} {x : Diagnostic}
    (h : x ∈ (Suppression.scan tokens).diagnostics) : x.isError = false := by
  rcases List.mem_append.1 (Diagnostic.mem_sort.1 h) with hformat | hcheck
  · exact not_isError_of_mem_regionDiagnostics hformat
  · exact not_isError_of_mem_regionDiagnostics hcheck

/-! ## Warnings -/

theorem not_isLayoutWarning_of_isError {x : Diagnostic} (h : x.isError = true) :
    ¬ x.IsLayoutWarning := by
  rintro ⟨hwarning, -⟩
  simp [Diagnostic.isError, hwarning] at h

theorem rule_not_mem_of_mem_regionDiagnostics {aspect : Aspect} {tokens : List Token}
    {x : Diagnostic} (h : x ∈ Suppression.regionDiagnostics aspect tokens) :
    x.rule ∉ ruleNames := by
  rcases List.mem_append.1 h with hunmatched | hopen
  · rcases List.mem_map.1 hunmatched with ⟨_, -, rfl⟩
    simp [Suppression.unmatchedEnd, ruleNames]
  · rcases List.mem_map.1 hopen with ⟨_, -, rfl⟩
    simp [Suppression.unterminated, ruleNames]

/-- No finding about markers is a warning of formatting. -/
theorem not_isLayoutWarning_of_mem_scan {tokens : List Token} {x : Diagnostic}
    (h : x ∈ (Suppression.scan tokens).diagnostics) : ¬ x.IsLayoutWarning := by
  rintro ⟨-, hrule⟩
  rcases List.mem_append.1 (Diagnostic.mem_sort.1 h) with hformat | hcheck
  · exact rule_not_mem_of_mem_regionDiagnostics hformat hrule
  · exact rule_not_mem_of_mem_regionDiagnostics hcheck hrule

theorem not_isError_of_isLayoutWarning {x : Diagnostic} (h : x.IsLayoutWarning) :
    x.isError = false := by
  simp [Diagnostic.isError, h.1]

/-- The warnings of formatting are what formatting found, whatever was found besides. -/
theorem isLayoutWarning_mem_of_iff {source text : Text} {found formatted checked : List Diagnostic}
    (hfound : ∀ x ∈ found, ¬ x.IsLayoutWarning) (hformatted : ∀ x ∈ formatted, x.IsLayoutWarning)
    (hchecked : ∀ x ∈ checked, x.isError = true) (x : Diagnostic) :
    x ∈ (Outcome.of source text (found ++ formatted ++ checked)).diagnostics ∧ x.IsLayoutWarning ↔
      x ∈ formatted := by
  have hmem : x ∈ (Outcome.of source text (found ++ formatted ++ checked)).diagnostics ↔
      (x ∈ found ∨ x ∈ formatted) ∨ x ∈ checked := by
    rw [Outcome.of, Diagnostic.mem_sort, List.mem_append, List.mem_append]
  rw [hmem]
  constructor
  · rintro ⟨(hx | hx) | hx, hlayout⟩
    · exact absurd hlayout (hfound x hx)
    · exact hx
    · exact absurd hlayout (not_isLayoutWarning_of_isError (hchecked x hx))
  · intro hx
    exact ⟨.inl (.inr hx), hformatted x hx⟩

/-! ## Verdicts -/

/-- The verdict, where the checks alone find errors. -/
theorem verdict_of {source text : Text} {found checked : List Diagnostic}
    (hfound : ∀ x ∈ found, x.isError = false) (hchecked : ∀ x ∈ checked, x.isError = true) :
    (Outcome.of source text (found ++ checked)).verdict =
      if checked ≠ [] then .manualFix else if text ≠ source then .formatted else .clean := by
  have hany : (found ++ checked).any Diagnostic.isError = true ↔ checked ≠ [] := by
    rw [List.any_eq_true, Ne, List.eq_nil_iff_forall_not_mem, not_forall_not]
    constructor
    · rintro ⟨x, hx, herror⟩
      rcases List.mem_append.1 hx with hx | hx
      · simp [hfound x hx] at herror
      · exact ⟨x, hx⟩
    · rintro ⟨x, hx⟩
      exact ⟨x, List.mem_append_right _ hx, hchecked x hx⟩
  simp only [Outcome.of, hany]

/-- Which verdict is which, read off a decision list. -/
theorem verdict_iff {v : Verdict} {faulty changed : Prop} [Decidable faulty] [Decidable changed]
    (h : v = if faulty then .manualFix else if changed then .formatted else .clean) :
    (v = .manualFix ↔ faulty) ∧ (v = .formatted ↔ ¬ faulty ∧ changed) ∧
      (v = .clean ↔ ¬ faulty ∧ ¬ changed) := by
  subst h
  by_cases hfaulty : faulty
  · simp [hfaulty]
  · by_cases hchanged : changed <;> simp [hfaulty, hchanged]

theorem process_eq {rules : RuleSet} {d : Dialect} {source : Text} {tokens : List Token}
    (h : tokenize d source = .ok tokens) :
    process rules d source = .ok (.of source (restyle rules tokens).text
      ((Suppression.scan tokens).diagnostics ++ (restyle rules tokens).diagnostics ++
        Compliance.check rules d tokens (Suppression.scan tokens).check)) := by
  rw [process, h]
  rfl

/-- The verdict on a source follows from what the checks find and from whether formatting changes it. -/
theorem verdict_process {rules : RuleSet} {d : Dialect} {source : Text} {tokens : List Token}
    {o : Outcome} (htokens : tokenize d source = .ok tokens) (ho : process rules d source = .ok o) :
    o.verdict = if Compliance.check rules d tokens (Suppression.scan tokens).check ≠ []
      then .manualFix else if (restyle rules tokens).text ≠ source then .formatted else .clean := by
  rw [process_eq htokens, Except.ok.injEq] at ho
  subst ho
  apply verdict_of
  · intro x hx
    rcases List.mem_append.1 hx with hx | hx
    · exact not_isError_of_mem_scan hx
    · exact not_isError_of_isLayoutWarning (isLayoutWarning_of_mem_restyle hx)
  · intro x hx
    exact isError_of_mem_check hx

/-- Formatting finds nothing exactly if it changes nothing. So a source that can be lexed is changed
exactly if a warning of formatting is among its findings; it has to be mended by hand exactly if the
checks find something, else it is formatted or clean as there is such a warning or none. -/
theorem process_verdict_iff (rules : RuleSet) (d : Dialect) (source : Text) (tokens : List Token)
    (htokens : tokenize d source = .ok tokens) :
    ((restyle rules tokens).diagnostics = [] ↔ (restyle rules tokens).text = source) ∧
    ∃ o, process rules d source = .ok o ∧ o.text = (restyle rules tokens).text ∧
      (∀ x, x ∈ o.diagnostics ∧ x.IsLayoutWarning ↔ x ∈ (restyle rules tokens).diagnostics) ∧
      (o.changed = true ↔ ∃ x ∈ o.diagnostics, x.IsLayoutWarning) ∧
      (o.verdict = .manualFix ↔
        Compliance.check rules d tokens (Suppression.scan tokens).check ≠ []) ∧
      (o.verdict = .formatted ↔
        Compliance.check rules d tokens (Suppression.scan tokens).check = [] ∧
          ∃ x ∈ o.diagnostics, x.IsLayoutWarning) ∧
      (o.verdict = .clean ↔
        Compliance.check rules d tokens (Suppression.scan tokens).check = [] ∧
          ¬ ∃ x ∈ o.diagnostics, x.IsLayoutWarning) := by
  have hquiet : (restyle rules tokens).diagnostics = [] ↔ (restyle rules tokens).text = source := by
    obtain ⟨ls, hlexed, rfl, rfl⟩ := Lexer.tokenize_eq_ok_iff.1 htokens
    exact diagnostics_restyle_eq_nil_iff rules hlexed
  obtain ⟨o, ho, hof⟩ : ∃ o, process rules d source = .ok o ∧ o = .of source
      (restyle rules tokens).text ((Suppression.scan tokens).diagnostics ++
        (restyle rules tokens).diagnostics ++
        Compliance.check rules d tokens (Suppression.scan tokens).check) :=
    ⟨_, process_eq htokens, rfl⟩
  have hwarnings : ∀ x, x ∈ o.diagnostics ∧ x.IsLayoutWarning ↔
      x ∈ (restyle rules tokens).diagnostics := by
    intro x
    rw [hof]
    exact isLayoutWarning_mem_of_iff (fun _ => not_isLayoutWarning_of_mem_scan)
      (fun _ => isLayoutWarning_of_mem_restyle) (fun _ => isError_of_mem_check) x
  -- that formatting found something is the same as that it changed something
  have hany : (∃ x ∈ o.diagnostics, x.IsLayoutWarning) ↔ (restyle rules tokens).text ≠ source := by
    simp only [hwarnings]
    rw [Ne, ← hquiet, List.eq_nil_iff_forall_not_mem, not_forall_not]
  obtain ⟨hmanual, hformatted, hclean⟩ := verdict_iff (verdict_process htokens ho)
  rw [Classical.not_not] at hformatted hclean
  refine ⟨hquiet, o, ho, by rw [hof]; rfl, hwarnings, ?_, hmanual, ?_, ?_⟩
  · rw [hany, hof]
    simp [Outcome.of]
  · rw [hany]
    exact hformatted
  · rw [hany]
    exact hclean

/-- In `//NOLINTEND` above `f( a);` there are two findings: that the marker ends no region, and that a
blank is removed. The second one is the reason for the verdict. -/
theorem process_verdict_iff_brackets :
    ∃ o, process {} .hlsl ['/', '/', 'N', 'O', 'L', 'I', 'N', 'T', 'E', 'N', 'D', '\n', 'f', '(', ' ',
        'a', ')', ';'] = .ok o ∧ o.verdict = .formatted ∧ o.changed = true ∧
      ∃ x ∈ o.diagnostics, x.rule = "spaces-in-brackets" := by
  have htokens : tokenize .hlsl ['/', '/', 'N', 'O', 'L', 'I', 'N', 'T', 'E', 'N', 'D', '\n', 'f', '(',
      ' ', 'a', ')', ';'] = .ok _ :=
    Lexer.tokenize_eq_ok_iff.2 ⟨[⟨.lineComment false, ['/', '/', 'N', 'O', 'L', 'I', 'N', 'T', 'E', 'N',
      'D']⟩, ⟨.lineBreak, ['\n']⟩, ⟨.word .identifier, ['f']⟩, ⟨.punctuation, ['(']⟩,
      ⟨.whitespace, [' ']⟩, ⟨.word .identifier, ['a']⟩, ⟨.punctuation, [')']⟩, ⟨.punctuation, [';']⟩],
      by decide +kernel, rfl, rfl⟩
  obtain ⟨-, o, ho, -, hwarnings, hchanged, -, hformatted, -⟩ :=
    process_verdict_iff {} .hlsl _ _ htokens
  have hbracket := (hwarnings ⟨.warning, "spaces-in-brackets", ⟨⟨2, 2⟩, ⟨2, 3⟩⟩,
    "expected no space inside brackets"⟩).2 (by decide +kernel)
  refine ⟨o, ho, hformatted.2 ⟨by decide +kernel, _, hbracket⟩, hchanged.2 ⟨_, hbracket⟩, _,
    hbracket.1, rfl⟩

end ShaderStyle
