import RuleCatalogue.Proofs.CommandLine.Printing
import RuleCatalogue.Proofs.Listing

/-!
# What showing rules prints

A run that shows rules reads its sources first (`readReport`), which prints nothing, and then
presents the report (`present`): the rules that are asked for, and the summary.  What it prints is
therefore what the report lists, and nothing if there is no report or no such rule
(`showRules_accounted`).

The stream of results may refuse a text, because its encoding lacks a character of a rule or because
nobody reads it any longer.  That does not change what the report lists: the run then ends where the
text was refused, and what was printed is the beginning of what there was to print
(`Machine.CutOff`).

## Main definitions

* `readReport` and `present` are the two parts of the run.

## Main results

* `quiet_readReport`: reading prints nothing, and what it gives is a report on files.
* `triple_present_of_known`, `triple_present_of_unknown`: what presenting a report ends in.
* `showRules_accounted`: a run from its sources to what it has printed.
-/

namespace RuleCatalogue.CommandLine

open Machine Std.Do

set_option mvcgen.warning false

/-! ## Reading -/

section Reading

variable [Codecs]

/-- **The report on the sources of a run**, and whether its warnings are coloured. -/
def readReport {m : Type → Type} [Monad m] [Host m] (common : CommonOptions)
    (sources : SourceOptions) : ExceptT Failure m (Bool × Report) := do
  let settings := Settings.inEffect (← settingsFor common [])
  let coloured ← (Notice.showColoured common.noColours : m Bool)
  let report ← readSources settings common.verbose (← sourcePaths sources settings)
  return (coloured, report)

/-- Reading prints no results, and what it gives is a report on the files. -/
theorem quiet_readReport (x : String × (String → String → Option PrintFault))
    (common : CommonOptions) (sources : SourceOptions) :
    ⦃fun s => ⌜s.stream = x⌝⦄
    (readReport common sources : ExceptT Failure (StateM Machine) (Bool × Report))
    ⦃post⟨fun found s => ⌜s.stream = x ∧ IsOnFiles found.2⌝, fun _ s => ⌜s.stream = x⌝⟩⦄ := by
  have hsettings := @invariant_settingsFor (fun s => s.stream = x)
  have hpaths := @invariant_sourcePaths (fun s => s.stream = x)
  have hread := @quiet_readSources x
  mvcgen [readReport, Notice.showColoured, hsettings, hpaths, hread]

end Reading

/-! ## Showing -/

/-- **Tells what there is to tell of a report**: its warnings, then the rules that are asked for and
the summary. -/
def present {m : Type → Type} [Monad m] [Host m] (common : CommonOptions) (rule : Option String)
    (coloured : Bool) (report : Report) : ExceptT Failure m ExitCode := do
  tellAll coloured (report.warnings common.verbose)
  let selected := selectedRule rule
  match selected.filter fun name => !report.catalogue.contains name with
  | some name => throw (.unknownRule name)
  | none => tellAll coloured (.lines (report.listings selected) :: report.summary)
  return codeFor report

theorem showRules_eq [Codecs] (common : CommonOptions) (sources : SourceOptions)
    (rule : Option String) :
    (showRules common sources rule : ExceptT Failure (StateM Machine) ExitCode)
      = readReport common sources >>= fun found => present common rule found.1 found.2 := by
  simp only [showRules, readReport, bind_assoc, pure_bind]
  rfl

/-- **The texts that show a report**: the rules that are asked for, and the summary. -/
def shownTexts (rule : Option String) (report : Report) : List String :=
  printedBy (.lines (report.listings (selectedRule rule)) :: report.summary)

section Present

variable {common : CommonOptions} {rule : Option String} {report : Report}

/-- **A report is presented**, unless one of the texts that show it is refused.  The hypothesis
holds of every rule that is asked for by a name of the report, and of no rule being asked for. -/
theorem triple_present_of_known (h : ∀ name ∈ selectedRule rule, name ∈ report.catalogue.keys)
    (coloured : Bool) (start : Machine) :
    ⦃fun s => ⌜s = start⌝⦄
    (present common rule coloured report : ExceptT Failure (StateM Machine) ExitCode)
    ⦃post⟨fun code s => ⌜code = codeFor report ∧ start.Told (shownTexts rule report) s⌝,
      fun f s => ⌜∃ fault, f = .print fault
        ∧ start.CutOff (shownTexts rule report) fault s⌝⟩⦄ := by
  have hknown : (selectedRule rule).filter (fun name => !report.catalogue.contains name)
      = none := by
    refine Option.filter_eq_none_iff.mpr fun name hname => ?_
    simpa using Table.contains_iff.mpr (h name hname)
  have hwarned := told_warnings coloured common.verbose start report
  have hshown := told_tellAll coloured start []
    (.lines (report.listings (selectedRule rule)) :: report.summary)
  rw [List.nil_append] at hshown
  mvcgen [present, hwarned, hshown]
  case vc2.post.success.h_1 name hmissing _ _ =>
    cases hknown.symm.trans hmissing

/-- A rule that is not there is told to be unknown, and nothing is printed. -/
theorem triple_present_of_unknown {name : String} (hname : selectedRule rule = some name)
    (h : name ∉ report.catalogue.keys) (coloured : Bool) (start : Machine) :
    ⦃fun s => ⌜s = start⌝⦄
    (present common rule coloured report : ExceptT Failure (StateM Machine) ExitCode)
    ⦃post⟨fun _ _ => ⌜False⌝, fun f s => ⌜f = .unknownRule name ∧ start.Told [] s⌝⟩⦄ := by
  have hunknown : (selectedRule rule).filter (fun name => !report.catalogue.contains name)
      = some name := by
    have hmissing : report.catalogue.contains name = false := by
      simpa using mt Table.contains_iff.mp h
    rw [hname, Option.filter_some, hmissing]
    rfl
  have hwarned := told_warnings coloured common.verbose start report
  mvcgen [present, hwarned]
  case vc2.post.success.h_1 other hother _ htold =>
    obtain rfl := Option.some_inj.mp (hunknown.symm.trans hother)
    exact ⟨rfl, htold⟩
  case vc3.post.success.h_2 hnone _ _ =>
    cases hunknown.symm.trans hnone

/-- **The ends of presenting a report.** It is presented as far as the stream of results takes it,
if there is a rule of the name that is asked for, and otherwise the name is told to be unknown.  In
the first case `triple_present_of_known` is read as a statement about `exec`. -/
theorem exec_present (common : CommonOptions) (rule : Option String) (coloured : Bool)
    (report : Report) (start : Machine) :
    ∃ result ending, exec (present common rule coloured report) start = (result, ending)
      ∧ if ∀ name ∈ selectedRule rule, name ∈ report.catalogue.keys then
          (result = .ok (codeFor report) ∧ start.Told (shownTexts rule report) ending)
          ∨ ∃ fault, result = .error (.print fault)
            ∧ start.CutOff (shownTexts rule report) fault ending
        else result = .error (.unknownRule ((selectedRule rule).getD ""))
          ∧ start.Told [] ending := by
  rcases hexec : exec (present common rule coloured report) start with ⟨result, ending⟩
  refine ⟨result, ending, rfl, ?_⟩
  by_cases hknown : ∀ name ∈ selectedRule rule, name ∈ report.catalogue.keys
  · rw [if_pos hknown]
    have hends := exec_of_triple (@triple_present_of_known common _ _ hknown coloured start) rfl
    rw [hexec] at hends
    cases result with
    | ok code =>
      obtain ⟨rfl, htold⟩ := hends
      exact .inl ⟨rfl, htold⟩
    | error f =>
      obtain ⟨fault, rfl, hcut⟩ := hends
      exact .inr ⟨fault, rfl, hcut⟩
  · rw [if_neg hknown]
    obtain ⟨name, hname, hmissing⟩ : ∃ name, selectedRule rule = some name
        ∧ name ∉ report.catalogue.keys := by
      simpa using hknown
    have hends := exec_of_triple
      (@triple_present_of_unknown common _ _ _ hname hmissing coloured start) rfl
    rw [hexec] at hends
    cases result with
    | ok code => exact hends.elim
    | error f =>
      obtain ⟨rfl, htold⟩ := hends
      exact ⟨by rw [hname, Option.getD_some], htold⟩

end Present

/-! ## A whole run -/

/-- Reading files of which each gives rules or is unreadable ends in a report. -/
theorem ofReadings_accounted (together : Bool) (files : List (Path × List Event × Outcome)) :
    ∃ report,
      (Batch.ofReadings together (files.map fun (path, events, outcome) =>
        (path, { events, result := .ok outcome }))).result = .ok report
      ∧ report.Accounts (files.map fun (path, _, outcome) => (path, outcome))
      ∧ report.Listed := by
  have houtcomes : Batch.outcomes (files.map fun (path, events, outcome) =>
      (path, { events, result := .ok outcome }))
        = .ok (files.map fun (path, _, outcome) => (path, outcome)) := by
    induction files with
    | nil => rfl
    | cons file rest ih => simp [Batch.outcomes, ih, Except.map]
  refine ⟨_, ?_, Report.accounts_ofOutcomes _, Report.listed_ofOutcomes _⟩
  rw [Batch.ofReadings, houtcomes]

/-- **Reports account for their files, and showing rules prints what they list.**  Reading files of
which each gives rules or is unreadable ends in a report, in which every file, every failure and
every rule is accounted for once.  A run that shows rules has such a report or is broken off before
it prints anything; it prints every rule once, numbered from one without gaps in its file and in the
whole, and a single rule with the same two numbers.  If the stream of results refuses one of these
texts, then those before it have been printed and the run ends with what the stream has against it.
-/
theorem showRules_accounted [Codecs] :
    (∀ (together : Bool) (files : List (Path × List Event × Outcome)),
      ∃ report,
        (Batch.ofReadings together (files.map fun (path, events, outcome) =>
          (path, { events, result := .ok outcome }))).result = .ok report
        ∧ report.Accounts (files.map fun (path, _, outcome) => (path, outcome))
        ∧ report.Listed)
    ∧ ∀ (common : CommonOptions) (sources : SourceOptions) (rule : Option String)
        (machine : Machine),
      match exec (readReport common sources) machine with
      | (.error f, after) =>
          exec (showRules common sources rule) machine = (.error f, after)
            ∧ after.stream = machine.stream
      | (.ok (_, report), after) =>
          after.stream = machine.stream
          ∧ (∃ outcomes, report.Accounts outcomes) ∧ report.Listed
          ∧ ∃ result ending, exec (showRules common sources rule) machine = (result, ending)
            ∧ if ∀ name ∈ selectedRule rule, name ∈ report.catalogue.keys then
                (result = .ok (codeFor report) ∧ after.Told (shownTexts rule report) ending)
                ∨ ∃ fault, result = .error (.print fault)
                  ∧ after.CutOff (shownTexts rule report) fault ending
              else
                result = .error (.unknownRule ((selectedRule rule).getD ""))
                ∧ after.Told [] ending := by
  refine ⟨ofReadings_accounted, fun common sources rule machine => ?_⟩
  have hquiet := exec_of_triple (quiet_readReport machine.stream common sources)
    (rfl : machine.stream = machine.stream)
  have hshow := exec_bind (readReport common sources)
    (fun found => present common rule found.1 found.2) machine
  rw [← showRules_eq] at hshow
  rcases hread : exec (readReport common sources) machine with ⟨result, after⟩
  rw [hread] at hquiet hshow
  cases result with
  | error f => exact ⟨hshow, hquiet⟩
  | ok found =>
    obtain ⟨coloured, report⟩ := found
    obtain ⟨hstream, outcomes, rfl⟩ := hquiet
    refine ⟨hstream, ⟨outcomes, Report.accounts_ofOutcomes _⟩, Report.listed_ofOutcomes _, ?_⟩
    rw [hshow]
    exact exec_present common rule coloured _ after

end RuleCatalogue.CommandLine
