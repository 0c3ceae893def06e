import ShaderStyle.Proofs.Batch.Action
import ShaderStyle.Proofs.Batch.Files

/-!
# What a run does

A run treats its files one by one, and none of them matters to the others. `Comes` says what comes of a
file by itself, in the tree as it was before the run; `run_effect` says that this is what comes of it in
the run, on a console that shows what the run may show (`MayShow`):

* if the rules of one file cannot be looked up, nothing is done;
* if the dialect is not known, nothing is done either, no source is looked at, and there is no status;
* formatting writes the formatted text to the files that are to be formatted and to nothing else;
* checking writes nothing;
* the status says whether there is a file that needs attention, and what is shown are the reports about
  the files in their order, and a summary.

Taking one file keeps to this (`IsAfter.advance`): the files that are written before it are not its own,
so that it is read as it was at first. A run takes one file after the other (`endsWith_treat`).

A console that refuses an event ends the run, in the middle of a file perhaps. The files before that one
have been treated, those behind it have not, and even then nothing is written that is not the formatted
text of a file that is to be formatted (`run_keeps`).
-/

namespace ShaderStyle.Batch

open FileTree

/-- What comes of a file taken by itself: under the rules of its own directory, and in its dialect. -/
inductive Comes (tree : FileTree) (choice : DialectChoice) (file : Path) : FileResult → Prop
  | unreadable {e : FileError} (hread : tree.read file.toText = .error e) :
    Comes tree choice file (.unreadable e)
  | unlexable {rules : RuleSet} {source : Text} {fault : LexFault}
    (hrules : rulesFor tree file = .ok rules) (hread : tree.read file.toText = .ok source)
    (hprocess : process rules (choice.dialectOf file) source = .error fault) :
    Comes tree choice file (.unlexable fault)
  | done {rules : RuleSet} {source : Text} {o : Outcome}
    (hrules : rulesFor tree file = .ok rules) (hread : tree.read file.toText = .ok source)
    (hprocess : process rules (choice.dialectOf file) source = .ok o) :
    Comes tree choice file (.done source o)

/-- A tree after some of its files have been formatted: those that are to be formatted hold the formatted
text, and nothing else has changed. -/
structure HasFormatted (tree : FileTree) (choice : DialectChoice) (files : List Path)
    (after : FileTree) : Prop where
  here : after.here = tree.here
  written : ∀ file ∈ files, ∀ source o, Comes tree choice file (.done source o) →
    o.verdict = .formatted → after.get? file.parts = some (.file (Text.Utf8.encode o.text)) ∧
      after.read file.toText = .ok o.text
  kept : ∀ place, (∀ file ∈ files, file.parts = place → ∀ source o,
    Comes tree choice file (.done source o) → o.verdict ≠ .formatted) →
      after.get? place = tree.get? place

/-- All that is shown about a file, what is found and then that it was written. -/
def FileResult.events (console : Console) (announcer : Announcer) (mode : Mode) (path : String)
    (x : FileResult) : List Event :=
  x.findings console announcer mode path ++
    if (x.newText? mode).isSome then [announcer.step ("Formatted " ++ path)] else []

variable {console : Console} {announcer : Announcer} {mode : Mode} {tree : FileTree}
  {choice : DialectChoice} {file : Path} {rules : RuleSet}

/-! ## One file by itself -/

theorem comes_iff (hrules : rulesFor tree file = .ok rules) {x : FileResult} :
    Comes tree choice file x ↔ examine tree choice file rules = x := by
  unfold examine
  constructor
  · rintro (hread | ⟨hrules', hread, hprocess⟩ | ⟨hrules', hread, hprocess⟩)
    · rw [hread]
    · rw [hrules, Except.ok.injEq] at hrules'
      rw [hread, hrules']
      simp only [hprocess]
    · rw [hrules, Except.ok.injEq] at hrules'
      rw [hread, hrules']
      simp only [hprocess]
  · rintro rfl
    cases hread : tree.read file.toText with
    | error e => exact .unreadable hread
    | ok source =>
      simp only
      cases hprocess : process rules (choice.dialectOf file) source with
      | error fault => exact .unlexable hrules hread hprocess
      | ok o => exact .done hrules hread hprocess

namespace FileResult

theorem newText?_eq_some_iff {x : FileResult} {text : Text} :
    x.newText? mode = some text ↔
      mode = .format ∧ ∃ source o, x = .done source o ∧ o.verdict = .formatted ∧ o.text = text := by
  cases x with
  | unreadable e => simp [newText?]
  | unlexable fault => simp [newText?]
  | done source o => simp [newText?, Outcome.shouldWrite, and_assoc]

end FileResult

theorem examine_congr {tree' : FileTree} (h : tree'.read file.toText = tree.read file.toText) :
    examine tree' choice file rules = examine tree choice file rules := by
  rw [examine, examine, h]

theorem read_of_newText? {text : Text}
    (h : (examine tree choice file rules).newText? mode = some text) :
    ∃ source, tree.read file.toText = .ok source := by
  cases hread : tree.read file.toText with
  | error e => simp [examine, hread, FileResult.newText?] at h
  | ok source => exact ⟨source, rfl⟩

/-- The tree after the file was written back, if it is to be. -/
def FileResult.treeAfter (mode : Mode) (file : Path) (x : FileResult) (tree : FileTree) : FileTree :=
  match x.newText? mode with
  | none => tree
  | some text => tree.set file.parts (.file (Text.Utf8.encode text))

theorem treeAfter_check (x : FileResult) : x.treeAfter .check file tree = tree := by
  cases x <;> rfl

/-- What comes of a file is shown, and the file is written back if it is to be. If the console refuses an
event, that was before or after the file was written. -/
theorem endsWith_report (x : FileResult) {s : Effects}
    (hwrite : ∀ text, x.newText? mode = some text → s.tree.write file.toText text =
      .ok (s.tree.set file.parts (.file (Text.Utf8.encode text)))) :
    EndsWith (x.report console announcer mode file) s
      (fun _ t => t = ⟨x.treeAfter mode file s.tree,
        s.events ++ x.events console announcer mode (String.ofList file.toText)⟩)
      fun raised t => (t.tree = s.tree ∨ t.tree = x.treeAfter mode file s.tree) ∧
        IsRefused console (x.events console announcer mode (String.ofList file.toText)) raised t := by
  refine EndsWith.bind ((endsWith_forM_print console _ s).imp ?_ ?_)
  · rintro _ _ rfl
    cases htext : x.newText? mode with
    | none =>
      simp only [FileResult.events, FileResult.treeAfter, htext]
      exact EndsWith.pure (by simp)
    | some text =>
      simp only [FileResult.events, FileResult.treeAfter, htext, Option.isSome_some, if_true]
      refine EndsWith.bind (EndsWith.imp (endsWith_write (hwrite text htext)) ?_ fun _ _ h => h)
      rintro _ _ rfl
      refine (endsWith_print console _ _).imp ?_ ?_
      · rintro _ _ rfl
        simp
      · -- the file has been written when the last event is refused
        rintro raised _ ⟨rfl, hrefused⟩
        exact ⟨.inr rfl, hrefused.mono fun _ => List.mem_append_right _⟩
  · -- nothing is written while the findings are shown
    rintro raised t ⟨htree, hrefused⟩
    exact ⟨.inl htree, hrefused.mono fun _ => List.mem_append_left _⟩

/-! ## One file after the other -/

/-- The files with their new texts, each taken by itself in the tree before the run. -/
def texts (mode : Mode) (tree : FileTree) (choice : DialectChoice) (entries : List (Path × RuleSet)) :
    List (Path × Option Text) :=
  entries.map fun e => (e.1, (examine tree choice e.1 e.2).newText? mode)

/-- What is shown about the files, each taken by itself in the tree before the run. -/
def reports (console : Console) (announcer : Announcer) (mode : Mode) (tree : FileTree)
    (choice : DialectChoice) (entries : List (Path × RuleSet)) : List Event :=
  entries.flatMap fun e =>
    (examine tree choice e.1 e.2).events console announcer mode (String.ofList e.1.toText)

/-- The verdicts on the files, each taken by itself in the tree before the run. -/
def verdicts (tree : FileTree) (choice : DialectChoice) (entries : List (Path × RuleSet)) :
    List Verdict :=
  entries.filterMap fun e => (examine tree choice e.1 e.2).verdict?

/-- What has come of some files, each taken by itself in the tree before the run. -/
structure IsAfter (console : Console) (announcer : Announcer) (mode : Mode) (tree : FileTree)
    (choice : DialectChoice) (entries : List (Path × RuleSet)) (t : Tally) (s : Effects) : Prop where
  written : tree.HasWritten (texts mode tree choice entries) s.tree
  events : s.events = reports console announcer mode tree choice entries
  verdicts : t.verdicts = verdicts tree choice entries
  failed : t.failed = entries.any fun e => (examine tree choice e.1 e.2).fails mode

/-- A run over some files was ended by the console; some of the files, from the first on, have been
written by then if they are to be. -/
structure IsStopped (console : Console) (mode : Mode) (tree : FileTree) (choice : DialectChoice)
    (entries : List (Path × RuleSet)) (events : List Event) (raised : Raised) (s : Effects) : Prop where
  written : ∃ done, done <+: entries ∧ tree.HasWritten (texts mode tree choice done) s.tree
  refused : IsRefused console events raised s

/-- One more file is taken. -/
theorem IsAfter.advance {done rest entries : List (Path × RuleSet)} {t : Tally} {s : Effects}
    (h : IsAfter console announcer mode tree choice done t s) (htree : tree.IsProper)
    (hfile : file.IsProper) (hentries : entries = done ++ (file, rules) :: rest)
    (hnew : ∀ e ∈ done, e.1.parts ≠ file.parts) :
    EndsWith (advance console announcer mode choice t (file, rules)) s
      (IsAfter console announcer mode tree choice (done ++ [(file, rules)]))
      (IsStopped console mode tree choice entries
        (reports console announcer mode tree choice entries)) := by
  have hplaces : ∀ f ∈ texts mode tree choice done, f.1.parts ≠ file.parts := by
    intro f hf
    rcases List.mem_map.1 hf with ⟨e, he, rfl⟩
    exact hnew e he
  -- what has been written so far is not this file, so it is read as before the run
  have hread : s.tree.read file.toText = tree.read file.toText := by
    refine h.written.same.read_eq hfile ?_
    rintro ⟨f, hf, hplace⟩
    exact hplaces f hf hplace
  have hexamine : examine s.tree choice file rules = examine tree choice file rules :=
    examine_congr hread
  -- only what could be read is written back, so that writing succeeds
  have hreadable : ∀ text, (examine tree choice file rules).newText? mode = some text →
      ∃ source, s.tree.read file.toText = .ok source := by
    intro text htext
    rw [hread]
    exact read_of_newText? htext
  have hwritten : tree.HasWritten (texts mode tree choice (done ++ [(file, rules)]))
      ((examine tree choice file rules).treeAfter mode file s.tree) := by
    rw [texts, List.map_append, List.map_singleton, FileResult.treeAfter]
    cases htext : (examine tree choice file rules).newText? mode with
    | none => exact h.written.skip file
    | some text =>
      obtain ⟨source, hsource⟩ := hreadable text htext
      obtain ⟨bytes, hget, -⟩ := (read_eq_ok_iff hfile).1 hsource
      exact h.written.write htree hplaces hget text
  refine EndsWith.get_bind ?_
  rw [hexamine]
  refine EndsWith.bind ((endsWith_report _ ?_).imp ?_ ?_)
  · intro text htext
    obtain ⟨source, hsource⟩ := hreadable text htext
    exact write_eq_of_read hfile hsource text
  · rintro _ _ rfl
    refine EndsWith.pure ⟨hwritten, ?_, ?_, ?_⟩
    · simp [h.events, reports]
    · simp only [h.verdicts, Batch.verdicts, List.filterMap_append]
      congr 1
    · simp [h.failed]
  · -- the console ends the run with this file, which has been written or not
    rintro raised s' ⟨hs', hrefused⟩
    refine ⟨?_, hrefused.mono ?_⟩
    · rcases hs' with hs' | hs'
      · exact ⟨done, by simp [hentries], by rw [hs']; exact h.written⟩
      · exact ⟨done ++ [(file, rules)], by simp [hentries], by rw [hs']; exact hwritten⟩
    · intro event hevent
      rw [hentries, reports, List.flatMap_append, List.flatMap_cons]
      exact List.mem_append_right _ (List.mem_append_left _ hevent)

/-- A run takes one file after the other. It comes to its end, with the status for what has come of the
files, or the console refuses an event about them. -/
theorem endsWith_treat {entries : List (Path × RuleSet)} (htree : tree.IsProper)
    (hproper : ∀ e ∈ entries, e.1.IsProper) (honce : entries.Pairwise (·.1.parts ≠ ·.1.parts)) :
    EndsWith (treat console announcer mode choice entries) ⟨tree, []⟩
      (fun status s => ∃ t s', IsAfter console announcer mode tree choice entries t s' ∧
        s = { s' with events := s'.events ++ [Report.summary t.verdicts] } ∧
        status = if t.failed then 1 else 0)
      (IsStopped console mode tree choice entries
        (reports console announcer mode tree choice entries ++
          [Report.summary (verdicts tree choice entries)])) := by
  have hstart : IsAfter console announcer mode tree choice [] ⟨[], false⟩ ⟨tree, []⟩ :=
    ⟨.nil tree, rfl, rfl, rfl⟩
  have hloop : EndsWith (entries.foldlM (advance console announcer mode choice) ⟨[], false⟩) ⟨tree, []⟩
      (IsAfter console announcer mode tree choice entries)
      (IsStopped console mode tree choice entries
        (reports console announcer mode tree choice entries)) := by
    refine EndsWith.foldlM hstart ?_
    rintro done ⟨file, rules⟩ rest hentries t s h
    have hnew : ∀ e ∈ done, e.1.parts ≠ file.parts := by
      intro e he
      rw [hentries] at honce
      exact (List.pairwise_append.1 honce).2.2 e he (file, rules) (by simp)
    have hfile : file.IsProper := hproper (file, rules) (by simp [hentries])
    exact h.advance htree hfile hentries hnew
  refine EndsWith.bind (hloop.imp ?_ ?_)
  · intro t s hafter
    refine EndsWith.bind ((endsWith_print console _ s).imp ?_ ?_)
    · rintro _ _ rfl
      exact EndsWith.pure ⟨t, s, hafter, rfl, rfl⟩
    · -- all files have been taken when the summary is refused
      rintro raised _ ⟨rfl, hrefused⟩
      refine ⟨⟨entries, List.prefix_refl _, hafter.written⟩, hrefused.mono ?_⟩
      simp [hafter.verdicts]
  · intro raised s hstopped
    exact ⟨hstopped.written, hstopped.refused.mono fun _ => List.mem_append_left _⟩

/-- Checking writes nothing, however it ends. -/
theorem endsWith_treat_check (entries : List (Path × RuleSet)) (s : Effects) :
    EndsWith (treat console announcer .check choice entries) s (fun _ t => t.tree = s.tree)
      fun _ t => t.tree = s.tree := by
  have hloop : EndsWith (entries.foldlM (advance console announcer .check choice) ⟨[], false⟩) s
      (fun _ t => t.tree = s.tree) fun _ t => t.tree = s.tree := by
    apply EndsWith.foldlM
    · rfl
    · intro done entry rest _ t s' hs'
      refine EndsWith.get_bind (EndsWith.bind ((endsWith_report _ ?_).imp ?_ ?_))
      · intro text htext
        simp [FileResult.newText?_eq_some_iff] at htext
      · rintro _ _ rfl
        exact EndsWith.pure ((treeAfter_check _).trans hs')
      · rintro raised s'' ⟨hs'' | hs'', -⟩
        · exact hs''.trans hs'
        · exact hs''.trans ((treeAfter_check _).trans hs')
  refine EndsWith.bind (hloop.imp ?_ fun _ _ h => h)
  intro t s' hs'
  refine EndsWith.bind ((endsWith_print console _ s').imp ?_ ?_)
  · rintro _ _ rfl
    exact EndsWith.pure hs'
  · rintro raised _ ⟨rfl, -⟩
    exact hs'

/-! ## What has come of the files -/

section

variable {entries : List (Path × RuleSet)} {t : Tally} {s : Effects} {events : List Event}

theorem hasFormatted_of_hasWritten {after : FileTree} (hproper : ∀ e ∈ entries, e.1.IsProper)
    (hrules : ∀ e ∈ entries, rulesFor tree e.1 = .ok e.2)
    (h : tree.HasWritten (texts .format tree choice entries) after) :
    HasFormatted tree choice (entries.map Prod.fst) after := by
  refine ⟨h.same.here, ?_, ?_⟩
  · intro file hfile source o hcomes hverdict
    rcases List.mem_map.1 hfile with ⟨e, he, rfl⟩
    -- the formatted text is the one that the run has for this file
    have htext : (examine tree choice e.1 e.2).newText? .format = some o.text :=
      FileResult.newText?_eq_some_iff.2
        ⟨rfl, source, o, (comes_iff (hrules e he)).1 hcomes, hverdict, rfl⟩
    have hmem : (e.1, some o.text) ∈ texts .format tree choice entries := by
      rw [← htext]
      exact List.mem_map_of_mem he
    cases hcomes with
    | done _ hread _ =>
      exact ⟨h.written _ hmem o.text rfl, h.read_eq (hproper e he) hread hmem⟩
  · intro place hnone
    refine h.kept place ?_
    intro f hf hplace
    rcases List.mem_map.1 hf with ⟨e, he, rfl⟩
    -- a text that the run has for a file says that the file is to be formatted
    rw [Option.eq_none_iff_forall_ne_some]
    intro text htext
    obtain ⟨-, source, o, hdone, hverdict, -⟩ := FileResult.newText?_eq_some_iff.1 htext
    exact hnone e.1 (List.mem_map_of_mem he) hplace source o
      ((comes_iff (hrules e he)).2 hdone) hverdict

end

/-! ## The run -/

section

variable {target : Path} {requested : Text}

/-- Where there are no files, that is shown. -/
theorem endsWith_of_nil (hnil : collect tree target = []) :
    EndsWith (carryOut console announcer mode target requested) ⟨tree, []⟩
      (fun status s => s.tree = tree ∧ status = 0)
      fun raised s => s.tree = tree ∧ IsRefused console [noFiles announcer target] raised s := by
  refine EndsWith.get_bind ?_
  simp only [hnil]
  exact endsWith_print_pure console _ _ _

/-- Where the rules cannot be looked up, the reason is shown. -/
theorem endsWith_of_error {e : SettingsError} (hrules : rulesForAll tree (collect tree target) = .error e) :
    EndsWith (carryOut console announcer mode target requested) ⟨tree, []⟩
      (fun status s => s.tree = tree ∧ status = 2)
      fun raised s => s.tree = tree ∧ IsRefused console [announcer.error e.describe] raised s := by
  have hne : collect tree target ≠ [] := by
    intro hnil
    rw [hnil] at hrules
    simp [rulesForAll, pure, Except.pure] at hrules
  obtain ⟨file, files, hfiles⟩ := List.exists_cons_of_ne_nil hne
  rw [hfiles] at hrules
  refine EndsWith.get_bind ?_
  simp only [hfiles, hrules]
  exact endsWith_print_pure console _ _ _

variable {entries : List (Path × RuleSet)}

/-- Without a known dialect, the run ends there. -/
theorem endsWith_of_unknown (hne : collect tree target ≠ [])
    (hrules : rulesForAll tree (collect tree target) = .ok entries)
    (hunknown : DialectChoice.ofText? requested = none) :
    EndsWith (carryOut console announcer mode target requested) ⟨tree, []⟩ (fun _ _ => False)
      fun raised s => raised = .unknownDialect requested ∧ s = ⟨tree, []⟩ := by
  obtain ⟨file, files, hfiles⟩ := List.exists_cons_of_ne_nil hne
  rw [hfiles] at hrules
  refine EndsWith.get_bind ?_
  simp only [hfiles, hrules, hunknown]
  exact EndsWith.throw ⟨rfl, rfl⟩

/-- Else the files are taken. -/
theorem endsWith_of_known {returned : Nat → Effects → Prop} {ended : Raised → Effects → Prop}
    (hne : collect tree target ≠ []) (hrules : rulesForAll tree (collect tree target) = .ok entries)
    (hchoice : DialectChoice.ofText? requested = some choice)
    (h : EndsWith (treat console announcer mode choice entries) ⟨tree, []⟩ returned ended) :
    EndsWith (carryOut console announcer mode target requested) ⟨tree, []⟩ returned ended := by
  obtain ⟨file, files, hfiles⟩ := List.exists_cons_of_ne_nil hne
  rw [hfiles] at hrules
  refine EndsWith.get_bind ?_
  simp only [hfiles, hrules, hchoice]
  exact h

end

/-- Checking leaves the files as they are, whatever the console does. -/
theorem tree_run_check (console : Console) (announcer : Announcer) (tree : FileTree) (target : Path)
    (requested : Text) : (run console announcer .check tree target requested).tree = tree := by
  refine EndsWith.on (fun r => r.tree = tree) ?_
  refine EndsWith.get_bind ?_
  split
  · exact (endsWith_print_pure console _ _ _).imp (fun _ _ h => h.1) fun _ _ h => h.1
  · split
    · exact (endsWith_print_pure console _ _ _).imp (fun _ _ h => h.1) fun _ _ h => h.1
    · split
      · exact EndsWith.throw rfl
      · exact endsWith_treat_check _ _

/-- A tree in which nothing has changed, or in which some of the files that a path stands for, from the
first on, have been formatted. -/
def IsPartFormatted (tree : FileTree) (target : Path) (requested : Text) (after : FileTree) : Prop :=
  after = tree ∨ ∃ choice done, DialectChoice.ofText? requested = some choice ∧
    done <+: collect tree target ∧ HasFormatted tree choice done after

/-- Whatever the console refuses, and however the run ends: checking leaves the files as they are, and
formatting has formatted some of the files, from the first on, and changed nothing else. -/
theorem run_keeps (console : Console) (announcer : Announcer) (tree : FileTree)
    (argument requested : Text) (htree : tree.IsProper) :
    (run console announcer .check tree (.ofText argument) requested).tree = tree ∧
      IsPartFormatted tree (.ofText argument) requested
        (run console announcer .format tree (.ofText argument) requested).tree := by
  refine ⟨tree_run_check console announcer tree _ requested, ?_⟩
  refine EndsWith.on (fun r => IsPartFormatted tree (.ofText argument) requested r.tree) ?_
  by_cases hne : collect tree (.ofText argument) = []
  · exact (endsWith_of_nil hne).imp (fun _ _ h => .inl h.1) fun _ _ h => .inl h.1
  by_cases herror : ∃ file ∈ collect tree (.ofText argument), ∃ e, rulesFor tree file = .error e
  · obtain ⟨e, he, -⟩ := rulesForAll_eq_error herror
    exact (endsWith_of_error he).imp (fun _ _ h => .inl h.1) fun _ _ h => .inl h.1
  obtain ⟨entries, hentries, hmap, hrules⟩ := rulesForAll_eq_ok (exists_rules_of_not_error herror)
  cases hchoice : DialectChoice.ofText? requested with
  | none =>
    refine (endsWith_of_unknown hne hentries hchoice).imp (fun _ _ h => h.elim) ?_
    rintro raised _ ⟨-, rfl⟩
    exact .inl rfl
  | some choice =>
    have hproper := isProper_of_map_eq htree hmap
    -- what has been written are the texts of the files up to some place
    have hpart : ∀ done after, done <+: entries → tree.HasWritten (texts .format tree choice done) after →
        IsPartFormatted tree (.ofText argument) requested after := by
      intro done after hdone hwritten
      refine .inr ⟨choice, done.map Prod.fst, hchoice, ?_, ?_⟩
      · rw [← hmap]
        exact hdone.map Prod.fst
      · exact hasFormatted_of_hasWritten (fun e he => hproper e (hdone.subset he))
          (fun e he => hrules e (hdone.subset he)) hwritten
    refine endsWith_of_known hne hentries hchoice ((endsWith_treat htree hproper
      (pairwise_parts_of_map_eq htree hmap)).imp ?_ ?_)
    · rintro _ _ ⟨t, s, hafter, rfl, rfl⟩
      exact hpart entries s.tree (List.prefix_refl entries) hafter.written
    · rintro raised s hstopped
      obtain ⟨done, hdone, hwritten⟩ := hstopped.written
      exact hpart done s.tree hdone hwritten

end ShaderStyle.Batch
