import RuleCatalogue.Proofs.CommandLine.Printing
import RuleCatalogue.Proofs.CommandLine.Reading
import RuleCatalogue.Proofs.Settings.RootedPaths

/-!
# What a run that parses leaves behind

A run that parses replaces its output at once, when all sources have been read.  If it comes to its
end, the output holds the text of the merged rules.  If it is broken off before, the output is what
it was.  Only two things could stand between the output and what it was: the log, whose directories
are made on the way, and the spare file, which is gone in either case.

One failure comes later.  What has been written is told after it has been written, and the stream of
results may refuse to take that, for instance because its encoding lacks a character of the path.
Then the run ends in a failure and the output holds the new text, all of it
(`Parsed.cutOff`, `run_parsed_untold`).

## Main definitions

* `Gave` says what the sources of a run gave, and `resultText` is the text of their merged rules.
* `Parsed` says how a run that parses ends, and what it leaves behind.

## Main statements

* `unchanged_output`: a log in another place leaves the output as it was.
* `triple_writeReport`: what becomes of a report.
* `run_parsed`: every run that parses ends as `Parsed` says.

## Design notes

The log and the output may lie in each other's way.  What is said of an output that is left alone
therefore asks that it does not stand on the way to the log; the way is taken as it is written, so a
directory that is left again by two points is on the way.
-/

namespace RuleCatalogue

open Machine Workspace Std.Do

set_option mvcgen.warning false

/-- Where nothing has been printed, the stream of results is as it was. -/
theorem Machine.Told.stream {start after : Machine} (h : start.Told [] after) :
    after.stream = start.stream := by
  obtain ⟨errors, rfl⟩ := h
  rw [Machine.stream, String.join_nil, String.append_empty]
  rfl

namespace CommandLine

variable {machine after : Machine} {common : CommonOptions} {sources : SourceOptions}
  {destination : Destination} {settings : RunSettings}

/-! ## The parts of a run -/

section Parts

variable [Codecs]

/-- **The texts that tell what has been written**: where it is, and the summary. -/
def toldTexts (settings : RunSettings) (report : Report) : List String :=
  printedBy (.labelled "Wrote" settings.output.text :: report.summary)

/-- Writes the text of a report to the output and tells so. -/
def writeOutput (settings : RunSettings) (coloured : Bool) (report : Report) :
    ExceptT Failure (StateM Machine) Unit := do
  let written ← (Files.replaceText settings.output (report.catalogue.serialize settings.format)
    "utf-8" true : StateM Machine (Except Files.WriteError Unit))
  ofExcept (written.mapError .output)
  tellAll coloured (.labelled "Wrote" settings.output.text :: report.summary)

/-- **Writes the text of a report** to where it goes, after the warnings. -/
def writeReport (common : CommonOptions) (destination : Destination) (settings : RunSettings)
    (coloured : Bool) (report : Report) : ExceptT Failure (StateM Machine) ExitCode := do
  tellAll coloured (report.warnings common.verbose)
  match destination with
  | .printed => printText (report.catalogue.serialize settings.format)
  | _ => writeOutput settings coloured report
  return codeFor report

/-- **Parses source files** with the settings in effect. -/
def parseWith (common : CommonOptions) (sources : SourceOptions) (destination : Destination)
    (settings : RunSettings) : ExceptT Failure (StateM Machine) ExitCode := do
  let coloured ← (Notice.showColoured common.noColours : StateM Machine Bool)
  let report ← readSources settings common.verbose (← sourcePaths sources settings)
  writeReport common destination settings coloured report

theorem parseRules_eq (common : CommonOptions) (sources : SourceOptions) (format : Option String)
    (destination : Destination) :
    (parseRules common sources format destination : ExceptT Failure (StateM Machine) ExitCode)
      = (Request.parse common sources format destination).loadSettings >>= fun config =>
          parseWith common sources destination (Settings.inEffect config) := by
  unfold parseRules Request.loadSettings parseWith writeReport writeOutput
  cases destination with
  | printed => simp only [bind_assoc]
  | configured => simp only [bind_assoc]
  | file path => simp only [bind_assoc]

end Parts

/-! ## Writing a report -/

/-- **The output holds a text**, and nothing else has been written but directories that lead to
it. -/
def Holds (settings : RunSettings) (w : Workspace) (text : String) (after : Workspace) : Prop :=
  after.read settings.output = .ok text.toUTF8.data.toList
    ∧ Becomes (settings.output.parent.Leads w.directory) (· = settings.output.place w.directory) w
        after

/-- **The output holds the text of a report, and the run could not tell so**: the stream of results
has taken what tells of it up to a text that it refuses. -/
def Untold (settings : RunSettings) (start : Machine) (report : Report) (f : Failure)
    (after : Machine) : Prop :=
  ∃ fault, ∃ written : Machine, f = .print fault
    ∧ written.stream = start.stream ∧ written.CutOff (toldTexts settings report) fault after
    ∧ Holds settings start.toWorkspace (report.catalogue.serialize settings.format)
        after.toWorkspace

/-- The failures of the stream of results. -/
def OfPrinting (f : Failure) : Prop :=
  ∃ fault, f = .print fault

/-- **The output was not replaced**: nothing has been written but directories that lead to it. -/
def Unwritten (settings : RunSettings) (start : Machine) (f : Failure) (after : Machine) : Prop :=
  ¬ OfPrinting f
    ∧ Becomes (settings.output.parent.Leads start.directory) (fun _ => False) start.toWorkspace
        after.toWorkspace

/-- **A report has been written to where it goes**, and the exit code tells of failures; or why it
has not, or could not be told of. -/
def Written (destination : Destination) (settings : RunSettings) (start : Machine)
    (report : Report) : Except Failure ExitCode → Machine → Prop
  | .ok code, after =>
      let text := report.catalogue.serialize settings.format
      code = codeFor report
        ∧ if destination = .printed then
            after.toWorkspace = start.toWorkspace ∧ after.printed = start.printed ++ text
          else Holds settings start.toWorkspace text after.toWorkspace
  | .error f, after =>
      if destination = .printed then after.toWorkspace = start.toWorkspace
      else Untold settings start report f after ∨ Unwritten settings start f after

section Writing

variable [Codecs] {start : Machine} (hsound : start.toWorkspace.Sound)

include hsound in
/-- The output is replaced by a text, or it is not. -/
theorem triple_replaceOutput (settings : RunSettings) (text : String) :
    ⦃fun s => ⌜s.toWorkspace = start.toWorkspace ∧ s.stream = start.stream⌝⦄
    (Files.replaceText settings.output text "utf-8" true :
      StateM Machine (Except Files.WriteError Unit))
    ⦃⇓ written s => ⌜match written with
      | .ok _ => Holds settings start.toWorkspace text s.toWorkspace ∧ s.stream = start.stream
      | .error _ => Becomes (settings.output.parent.Leads start.directory) (fun _ => False)
          start.toWorkspace s.toWorkspace⌝⦄ := by
  refine triple_of_run fun machine ⟨hsame, hstream⟩ => ?_
  have hreplaced := run_of_triple
    (Files.replaced_replaceContents hsound settings.output (Files.octetsIn "utf-8" text) true) hsame
  have hquiet := run_of_triple
    (Files.quiet_replaceContents settings.output (Files.octetsIn "utf-8" text) true) hstream
  rw [Files.replaceText]
  cases hwritten : (StateT.run (Files.replaceContents settings.output (Files.octetsIn "utf-8" text)
      true : StateM Machine (Except Files.WriteError Unit)) machine).1 with
  | error e =>
    rw [hwritten] at hreplaced
    exact (hreplaced fun _ => False).mono (fun _ hmade => hmade.2) fun _ ht => ht
  | ok _ =>
    rw [hwritten] at hreplaced
    obtain ⟨-, ⟨octets, hoctets, hread⟩, hbecomes⟩ := hreplaced
    rw [Files.octetsIn_utf8] at hoctets
    obtain rfl := Except.ok.inj hoctets
    exact ⟨⟨hread, hbecomes.mono (fun _ hmade => hmade.2) fun _ ht => ht⟩, hquiet⟩

include hsound in
/-- **The output is written and told of**, or one of the two fails.  The postcondition of failures
keeps the two apart: `Untold` has the new output in its place, and `Unwritten` the old one. -/
theorem triple_writeOutput (settings : RunSettings) (coloured : Bool) (report : Report) :
    ⦃fun s => ⌜s.toWorkspace = start.toWorkspace ∧ s.stream = start.stream⌝⦄
    writeOutput settings coloured report
    ⦃post⟨fun _ s => ⌜Holds settings start.toWorkspace
        (report.catalogue.serialize settings.format) s.toWorkspace⌝,
      fun f s => ⌜Untold settings start report f s ∨ Unwritten settings start f s⌝⟩⦄ := by
  have hreplace := triple_replaceOutput hsound settings (report.catalogue.serialize settings.format)
  have htell := told_tellAll_from
    (fun s => Holds settings start.toWorkspace (report.catalogue.serialize settings.format)
      s.toWorkspace ∧ s.stream = start.stream)
    coloured (.labelled "Wrote" settings.output.text :: report.summary)
  mvcgen [writeOutput, ofExcept, hreplace, htell]
  case vc2.post.success.h_1.pre hafter _ hwritten =>
    rw [Fallible.mapError_eq_ok_iff.mp hwritten] at hafter
    exact hafter
  case vc3.post.success.h_1.post.success =>
    rintro ⟨written, ⟨hholds, -⟩, htold⟩
    rw [htold.toWorkspace]
    exact hholds
  case vc4.post.success.h_1.post.except.handle =>
    rintro ⟨written, fault, ⟨hholds, hstream⟩, hfault, hcut⟩
    refine Or.inl ⟨fault, written, hfault, hstream, hcut, ?_⟩
    rw [hcut.toWorkspace]
    exact hholds
  case vc5.post.success.h_2 hafter _ hfailed =>
    obtain ⟨e, rfl, rfl⟩ := Fallible.mapError_eq_error_iff.mp hfailed
    exact Or.inr ⟨by rintro ⟨fault, ⟨⟩⟩, hafter⟩

include hsound in
/-- **What becomes of a report**, for every destination: it is printed, or written and told of.  It
is assembled from `triple_writeOutput` and the triples of the texts in
`Proofs/CommandLine/Printing`. -/
theorem triple_writeReport (common : CommonOptions) (destination : Destination)
    (settings : RunSettings) (coloured : Bool) (report : Report) :
    ⦃fun s => ⌜s = start⌝⦄
    writeReport common destination settings coloured report
    ⦃post⟨fun code s => ⌜Written destination settings start report (.ok code) s⌝,
      fun f s => ⌜Written destination settings start report (.error f) s⌝⟩⦄ := by
  have hwarned := told_warnings coloured common.verbose start report
  have hwrite := triple_writeOutput hsound settings coloured report
  by_cases hdestination : destination = .printed
  · subst hdestination
    mvcgen [writeReport, printText, hwarned]
    case vc2.pos.post.success htold =>
      split
      · exact htold.toWorkspace
      · exact ⟨rfl, htold.toWorkspace, congrArg (·.1 ++ _) htold.stream⟩
  · simp only [Written, if_neg hdestination]
    cases destination with
    | printed => exact absurd rfl hdestination
    | configured =>
      mvcgen [writeReport, hwarned, hwrite]
      exact ⟨Told.toWorkspace ‹_›, Told.stream ‹_›⟩
    | file path =>
      mvcgen [writeReport, hwarned, hwrite]
      exact ⟨Told.toWorkspace ‹_›, Told.stream ‹_›⟩

end Writing

/-! ## The run -/

/-- **What the sources of a run gave**, once its log had been opened: each file its rules, or why it
could not be read. -/
def Gave [Codecs] (common : CommonOptions) (sources : SourceOptions) (settings : RunSettings)
    (machine : Machine) (outcomes : List (Path × Outcome)) : Prop :=
  ∃ paths,
    (exec (sourcePaths sources settings : ExceptT Failure (StateM Machine) (List Path))
      machine).1 = .ok paths
    ∧ Batch.outcomes (paths.map fun path =>
        (path, Reading.ofContents settings.encoding path
          (Files.readIn (openedFiles settings common.verbose machine) path))) = .ok outcomes

/-- **The text of the merged rules** of the files that could be read. -/
def resultText (settings : RunSettings) (outcomes : List (Path × Outcome)) : String :=
  (Report.mergeFiles (outcomes.filterMap Report.rulesOf?)).1.serialize settings.format

/-- The places of directories that a run may make. -/
def MayMake (destination : Destination) (settings : RunSettings) (machine : Machine)
    (place : Place) : Prop :=
  (logPath settings machine.runId).parent.Leads machine.directory place
    ∨ destination ≠ .printed ∧ settings.output.parent.Leads machine.directory place

/-- **The endings of a run that has replaced its output**: it came to its end, or it was cut off
when it told what it had written. -/
def Replaces (destination : Destination) (ending : Ending) : Prop :=
  destination ≠ .printed
    ∧ (ending.exitCode.number ≤ 1 ∨ ∃ f, ending = .failed f ∧ OfPrinting f)

/-- **How a run that parses ends, and what it leaves behind.** -/
structure Parsed [Codecs] (common : CommonOptions) (sources : SourceOptions)
    (destination : Destination) (settings : RunSettings) (machine : Machine) (ending : Ending)
    (after : Machine) : Prop where
  /-- The sources are read when nothing but the log has been opened. -/
  opened : OnlyLogged settings machine (openedFiles settings common.verbose machine)
  /-- The exit code tells whether a run comes to its end. -/
  code : ending.exitCode.number ≤ 1 ↔ ∃ code, ending = .done code
  /-- A run that comes to its end has written the merged rules, and its exit code tells whether a
  source could not be read. -/
  completed : ending.exitCode.number ≤ 1 →
    ∃ outcomes, Gave common sources settings machine outcomes
      ∧ (ending.exitCode.number = 1 ↔ outcomes.filterMap Report.failureOf? ≠ [])
      ∧ if destination = .printed then
          after.printed = machine.printed ++ resultText settings outcomes
        else after.read settings.output = .ok (resultText settings outcomes).toUTF8.data.toList
  /-- A run that the stream of results cuts off, other than one that prints the rules themselves,
  has written the merged rules, and the stream has refused one of the texts that tell so. -/
  cutOff : ∀ fault, ending = .failed (.print fault) → destination ≠ .printed →
    ∃ outcomes, Gave common sources settings machine outcomes
      ∧ after.read settings.output = .ok (resultText settings outcomes).toUTF8.data.toList
      ∧ ∃ written : Machine, written.stream = machine.stream
        ∧ written.CutOff (toldTexts settings (Report.ofOutcomes outcomes).1) fault after
  /-- Any other run leaves its output alone, unless the output is on the way to the directory of
  logs, or from there to the log of the run, whose name is new. -/
  leftAlone : ¬ Replaces destination ending →
    ¬ settings.output.segments <+: (Path.ofText settings.logDirectory).segments →
    ¬ settings.output.segments <+: (logPath settings machine.runId).place machine.directory →
    Unchanged settings.output machine.toWorkspace after.toWorkspace
  /-- No regular file is touched but the log and, at the end, the output; so no spare file is
  left. -/
  files : Becomes (MayMake destination settings machine)
    (fun place => place = (logPath settings machine.runId).place machine.directory
      ∨ Replaces destination ending ∧ place = settings.output.place machine.directory)
    machine.toWorkspace after.toWorkspace

/-! ### The output of a run that is broken off -/

section BrokenOff

variable (hready : machine.Ready) (houtput : settings.output.Rooted)
  (hlog : (Path.ofText settings.logDirectory).Rooted)
  (hother : ¬ settings.output.segments <+: (Path.ofText settings.logDirectory).segments)
  (hfresh : ¬ settings.output.segments
    <+: (logPath settings machine.runId).place machine.directory)

include hlog hother hfresh in
/-- The way to the log does not lead over the output. -/
theorem not_leads_log :
    ¬ (logPath settings machine.runId).parent.Leads machine.directory settings.output.segments := by
  rintro ⟨above, habove, hplace⟩
  rw [parent_logPath] at habove
  rcases List.prefix_concat_iff.mp habove with rfl | habove
  · -- The directory of the run leads to its log.
    refine hfresh ?_
    rw [hplace, place_logPath, parent_logPath]
    exact List.prefix_append _ _
  · exact hother (hlog.prefix_of_leads ⟨above, habove, hplace⟩)

include houtput hother in
/-- The way to the output stops before it. -/
theorem not_leads_output :
    ¬ settings.output.parent.Leads machine.directory settings.output.segments := by
  intro hleads
  have hparent : settings.output.parent.Rooted := houtput.of_prefix (List.dropLast_prefix _)
  have hlength := (hparent.prefix_of_leads hleads).length_le
  have hne : settings.output.segments ≠ [] := fun hnil => hother (hnil ▸ List.nil_prefix)
  have hpos := List.length_pos_iff.mpr hne
  rw [Path.parent, List.length_dropLast] at hlength
  omega

include hready houtput hlog hother hfresh in
/-- **Where nothing is touched but the log**, the output is as it was.  The hypothesis `h` is the
frame that `Becomes` carries along a run, in which the places made are those of directories. -/
theorem unchanged_output {w : Workspace}
    (h : Becomes (MayMake destination settings machine)
      (· = (logPath settings machine.runId).place machine.directory) machine.toWorkspace w) :
    Unchanged settings.output machine.toWorkspace w := by
  refine houtput.unchanged h hready.sound ?_ ?_
  · rintro (hleads | ⟨-, hleads⟩)
    · exact not_leads_log hlog hother hfresh hleads
    · exact not_leads_output houtput hother hleads
  · intro hplace
    exact hfresh (hplace ▸ List.prefix_rfl)

end BrokenOff

/-! ### How it ends -/

/-- How a run ends, from what became of its request. -/
def Ending.ofResult : Except Failure ExitCode → Ending
  | .ok code => .done code
  | .error f => .failed f

/-- A failure does not end in one of the codes of a run that comes to its end. -/
theorem one_lt_number_of_failed (f : Failure) : 1 < (Ending.failed f).exitCode.number := by
  rw [Ending.exitCode]
  split
  · decide
  · decide

theorem replaces_failed_iff {f : Failure} :
    Replaces destination (.failed f) ↔ destination ≠ .printed ∧ OfPrinting f := by
  refine and_congr_right fun _ => ⟨?_, fun hprint => Or.inr ⟨f, rfl, hprint⟩⟩
  rintro (hnumber | ⟨_, hfailed, hprint⟩)
  · exact absurd hnumber (Nat.not_le.mpr (one_lt_number_of_failed f))
  · rw [Ending.failed.inj hfailed]
    exact hprint

/-- The exit code tells of failures. -/
theorem number_codeFor (report : Report) :
    (codeFor report).number ≤ 1 ∧ ((codeFor report).number = 1 ↔ report.failures ≠ []) := by
  unfold codeFor Report.hasFailures
  cases report.failures with
  | nil => decide
  | cons failure rest => simp [ExitCode.number]

/-- The text of the report on what the sources gave. -/
theorem serialize_eq_resultText (settings : RunSettings) (outcomes : List (Path × Outcome)) :
    (Report.ofOutcomes outcomes).1.catalogue.serialize settings.format
      = resultText settings outcomes := by
  obtain ⟨-, -, hmerged⟩ := Report.ofOutcomes_accounts outcomes
  rw [resultText, ← hmerged]

/-- Where only the log has been written, a run may still make its directories. -/
theorem OnlyLogged.becomes {w : Workspace} (h : OnlyLogged settings machine w)
    (destination : Destination) :
    Becomes (MayMake destination settings machine)
      (· = (logPath settings machine.runId).place machine.directory) machine.toWorkspace w :=
  h.mono (fun _ => Or.inl) fun _ hplace => hplace

/-- Where the output has been replaced as well, only the log and the output have been touched. -/
theorem OnlyLogged.becomes_of_holds {w v : Workspace} {text : String}
    (h : OnlyLogged settings machine w) (hholds : Holds settings w text v)
    (hdestination : destination ≠ .printed) :
    Becomes (MayMake destination settings machine)
      (fun place => place = (logPath settings machine.runId).place machine.directory
        ∨ place = settings.output.place machine.directory)
      machine.toWorkspace v := by
  obtain ⟨-, hbecomes⟩ := hholds
  rw [h.directory] at hbecomes
  exact ((h.becomes destination).mono (fun _ hmade => hmade) fun _ => Or.inl).trans
    (hbecomes.mono (fun _ hmade => Or.inr ⟨hdestination, hmade⟩) fun _ => Or.inr)

section Ends

variable [Codecs] (hready : machine.Ready) (houtput : settings.output.Rooted)
  (hlog : (Path.ofText settings.logDirectory).Rooted)

include hready houtput hlog in
/-- **A run that is broken off before it tells of its output** has touched nothing but the log.  A
failure of printing is excluded by `hprint` unless the report itself is printed, because only then
does nothing stand on disk when printing fails. -/
theorem parsed_of_failed {f : Failure} (hprint : destination ≠ .printed → ¬ OfPrinting f)
    (h : Becomes (MayMake destination settings machine)
      (· = (logPath settings machine.runId).place machine.directory) machine.toWorkspace
      after.toWorkspace) :
    Parsed common sources destination settings machine (.failed f) after where
  opened := onlyLogged_openedFiles hready settings common.verbose
  code := iff_of_false (Nat.not_le.mpr (one_lt_number_of_failed f)) nofun
  completed hnumber := absurd hnumber (Nat.not_le.mpr (one_lt_number_of_failed f))
  cutOff fault hfailed hdestination :=
    absurd ⟨fault, Ending.failed.inj hfailed⟩ (hprint hdestination)
  leftAlone _ hother hfresh := unchanged_output hready houtput hlog hother hfresh h
  files := h.mono (fun _ hmade => hmade) fun _ => Or.inl

section Written

variable {told : Machine} (htold : OnlyLogged settings machine told.toWorkspace)
  (hstream : told.stream = machine.stream) {outcomes : List (Path × Outcome)}
  (hgave : Gave common sources settings machine outcomes)

include hready houtput hlog htold hstream hgave in
/-- **A run that comes to its end** has written the report: code 0 or 1 comes from `Written` alone.
-/
theorem parsed_of_done {code : ExitCode}
    (h : Written destination settings told (Report.ofOutcomes outcomes).1 (.ok code) after) :
    Parsed common sources destination settings machine (.done code) after := by
  obtain ⟨-, hfailures, -⟩ := Report.ofOutcomes_accounts outcomes
  obtain ⟨hnumber, hone⟩ := number_codeFor (Report.ofOutcomes outcomes).1
  obtain ⟨rfl, hwritten⟩ := h
  rw [hfailures] at hone
  rw [serialize_eq_resultText] at hwritten
  by_cases hdestination : destination = .printed
  · rw [if_pos hdestination] at hwritten
    obtain ⟨hfiles, hprinted⟩ := hwritten
    have hlogged : OnlyLogged settings machine after.toWorkspace := hfiles ▸ htold
    exact
      { opened := onlyLogged_openedFiles hready settings common.verbose
        code := iff_of_true hnumber ⟨_, rfl⟩
        completed := fun _ => ⟨outcomes, hgave, hone, by
          rw [if_pos hdestination, hprinted,
            show told.printed = machine.printed from congrArg Prod.fst hstream]⟩
        cutOff := fun _ _ hfile => absurd hdestination hfile
        leftAlone := fun _ hother hfresh =>
          unchanged_output hready houtput hlog hother hfresh (hlogged.becomes destination)
        files := (hlogged.becomes destination).mono (fun _ hmade => hmade) fun _ => Or.inl }
  · rw [if_neg hdestination] at hwritten
    have hreplaces : Replaces destination (.done (codeFor (Report.ofOutcomes outcomes).1)) :=
      ⟨hdestination, Or.inl hnumber⟩
    exact
      { opened := onlyLogged_openedFiles hready settings common.verbose
        code := iff_of_true hnumber ⟨_, rfl⟩
        completed := fun _ => ⟨outcomes, hgave, hone, by
          rw [if_neg hdestination]
          exact hwritten.1⟩
        cutOff := nofun
        leftAlone := fun hfailed => absurd hreplaces hfailed
        files := (htold.becomes_of_holds hwritten hdestination).mono (fun _ hmade => hmade)
          fun _ hplace => hplace.imp_right fun htouched => ⟨hreplaces, htouched⟩ }

include hready htold hstream hgave in
/-- **A run that could not tell of its output** has written it.  `hdestination` says that there is
an output to tell of. -/
theorem parsed_of_untold {f : Failure} (hdestination : destination ≠ .printed)
    (h : Untold settings told (Report.ofOutcomes outcomes).1 f after) :
    Parsed common sources destination settings machine (.failed f) after := by
  obtain ⟨fault, written, rfl, hwritten, hcut, hholds⟩ := h
  rw [serialize_eq_resultText] at hholds
  have hreplaces : Replaces destination (.failed (.print fault)) :=
    replaces_failed_iff.mpr ⟨hdestination, fault, rfl⟩
  exact
    { opened := onlyLogged_openedFiles hready settings common.verbose
      code := iff_of_false (Nat.not_le.mpr (one_lt_number_of_failed _)) nofun
      completed := fun hnumber => absurd hnumber (Nat.not_le.mpr (one_lt_number_of_failed _))
      cutOff := by
        intro other hfailed _
        obtain rfl := Failure.print.inj (Ending.failed.inj hfailed)
        exact ⟨outcomes, hgave, hholds.1, written, hwritten.trans hstream, hcut⟩
      leftAlone := fun hfailed => absurd hreplaces hfailed
      files := (htold.becomes_of_holds hholds hdestination).mono (fun _ hmade => hmade)
        fun _ hplace => hplace.imp_right fun htouched => ⟨hreplaces, htouched⟩ }

include hready houtput hlog htold hstream hgave in
/-- **How a run ends once its sources have been read**: `parsed_of_done`, `parsed_of_untold` or
`parsed_of_failed`, as the case is. -/
theorem parsed_of_written {result : Except Failure ExitCode}
    (h : Written destination settings told (Report.ofOutcomes outcomes).1 result after) :
    Parsed common sources destination settings machine (.ofResult result) after := by
  cases result with
  | ok code => exact parsed_of_done hready houtput hlog htold hstream hgave h
  | error f =>
    rw [Written] at h
    split at h
    · next hdestination =>
      have hlogged : OnlyLogged settings machine after.toWorkspace := h ▸ htold
      exact parsed_of_failed hready houtput hlog (absurd hdestination)
        (hlogged.becomes destination)
    · next hdestination =>
      rcases h with huntold | ⟨hprint, hbecomes⟩
      · exact parsed_of_untold hready htold hstream hgave hdestination huntold
      · -- The spare file is gone, so what the output adds to the log is directories at most.
        rw [show told.directory = machine.directory from htold.directory] at hbecomes
        refine parsed_of_failed hready houtput hlog (fun _ => hprint)
          ((htold.becomes destination).trans (hbecomes.mono ?_ fun _ => False.elim))
        exact fun _ hmade => Or.inr ⟨hdestination, hmade⟩

end Written

end Ends

/-! ### Reading and writing -/

/-- Settings are not printed. -/
theorem OfSettings.not_ofPrinting {f : Failure} (h : OfSettings f) : ¬ OfPrinting f := by
  obtain ⟨e, rfl⟩ := h
  exact nofun

/-- Finding source files does not print. -/
theorem breaks_sourcePaths (sources : SourceOptions) (settings : RunSettings) :
    ⦃fun _ => ⌜True⌝⦄
    (sourcePaths sources settings : ExceptT Failure (StateM Machine) (List Path))
    ⦃post⟨fun _ _ => ⌜True⌝, fun f _ => ⌜¬ OfPrinting f⌝⟩⦄ := by
  have hpath := breaks_absolutePath
  have hthere := @Files.invariant_isDirectory fun _ => True
  mvcgen [sourcePaths, sourceDirectory, Discovery.sourceFiles, hpath, hthere]
  case vc3.isTrue.h_1.except.handle => exact OfSettings.not_ofPrinting
  all_goals rintro ⟨fault, ⟨⟩⟩

theorem triple_sourcePaths (machine : Machine) (sources : SourceOptions) (settings : RunSettings) :
    ⦃fun s => ⌜s = machine⌝⦄
    (sourcePaths sources settings : ExceptT Failure (StateM Machine) (List Path))
    ⦃post⟨fun paths s => ⌜s = machine ∧ (exec (sourcePaths sources settings :
        ExceptT Failure (StateM Machine) (List Path)) machine).1 = .ok paths⌝,
      fun f s => ⌜s = machine ∧ ¬ OfPrinting f⌝⟩⦄ := by
  refine triple_iff_exec.mpr ?_
  rintro start rfl
  have hkept := exec_of_triple (@invariant_sourcePaths (· = start) sources settings) rfl
  have hbreaks := triple_iff_exec.mp (breaks_sourcePaths sources settings) start trivial
  rcases hexec : exec (sourcePaths sources settings) start with ⟨result, after⟩
  rw [hexec] at hkept hbreaks
  cases result with
  | ok paths => exact ⟨hkept, rfl⟩
  | error f => exact ⟨hkept, hbreaks⟩

section Parsing

variable [Codecs]

/-- Reading sources does not print. -/
theorem breaks_readSources (settings : RunSettings) (verbose : Bool) (paths : List Path) :
    ⦃fun _ => ⌜True⌝⦄
    (readSources settings verbose paths : ExceptT Failure (StateM Machine) Report)
    ⦃post⟨fun _ _ => ⌜True⌝, fun f _ => ⌜¬ OfPrinting f⌝⟩⦄ := by
  have hopen (book : Logbook) (setup : LogSetup) :
      ⦃fun _ => ⌜True⌝⦄
      (book.setUp setup : StateM Machine (Logbook × Except SetupFailure Nat))
      ⦃⇓ _ _ => ⌜True⌝⦄ :=
    triple_of_run fun _ _ => trivial
  have hread (book : Logbook) :
      ⦃fun _ => ⌜True⌝⦄ (readLogged settings book paths : StateM Machine Batch)
      ⦃⇓ _ _ => ⌜True⌝⦄ :=
    triple_of_run fun _ _ => trivial
  mvcgen [readSources, ofExcept, hopen, hread]
  case vc1.success.h_1.success.h_2 hfailed _ =>
    obtain ⟨e, -, rfl⟩ := Fallible.mapError_eq_error_iff.mp hfailed
    rintro ⟨fault, ⟨⟩⟩
  case vc2.success.h_2 hfailed =>
    obtain ⟨e, -, rfl⟩ := Fallible.mapError_eq_error_iff.mp hfailed
    rintro ⟨fault, ⟨⟩⟩

attribute [local irreducible] readSources in
/-- **Reading the sources of a run** gives the report on what they gave, and prints nothing.
`hpaths` fixes the paths that the search for sources found, so that the outcomes can be named by
them. -/
theorem triple_readGiven (hready : machine.Ready) {paths : List Path}
    (hpaths : (exec (sourcePaths sources settings : ExceptT Failure (StateM Machine) (List Path))
      machine).1 = .ok paths) :
    ⦃fun s => ⌜s = machine⌝⦄
    (readSources settings common.verbose paths : ExceptT Failure (StateM Machine) Report)
    ⦃post⟨fun report s => ⌜OnlyLogged settings machine s.toWorkspace ∧ s.stream = machine.stream
        ∧ ∃ outcomes, Gave common sources settings machine outcomes
          ∧ report = (Report.ofOutcomes outcomes).1⌝,
      fun f s => ⌜OnlyLogged settings machine s.toWorkspace ∧ ¬ OfPrinting f⌝⟩⦄ := by
  have hread := triple_and (readSources_onlyLogged hready settings common.verbose paths)
    (triple_and (@quiet_readSources machine.stream _ settings common.verbose paths)
      (breaks_readSources settings common.verbose paths))
  refine triple_mono hread ?_ ?_ ?_
  · rintro start rfl
    exact ⟨rfl, rfl, trivial⟩
  · intro report after h
    obtain ⟨outcomes, houtcomes, hreport⟩ := Batch.result_eq_ok_iff.mp h.1.2
    rw [List.map_map] at houtcomes
    exact ⟨h.1.1, h.2.1.1, outcomes, ⟨paths, hpaths, houtcomes⟩, hreport.symm⟩
  · rintro f after ⟨hlogged, -, hprint⟩
    exact ⟨hlogged, hprint⟩

variable (hready : machine.Ready) (houtput : settings.output.Rooted)
  (hlog : (Path.ofText settings.logDirectory).Rooted)

include hready houtput hlog in
/-- Writing the report of a run ends it as `Parsed` says. -/
theorem triple_writeGiven (common : CommonOptions) (sources : SourceOptions)
    (destination : Destination) (coloured : Bool) (report : Report) :
    ⦃fun s => ⌜OnlyLogged settings machine s.toWorkspace ∧ s.stream = machine.stream
      ∧ ∃ outcomes, Gave common sources settings machine outcomes
        ∧ report = (Report.ofOutcomes outcomes).1⌝⦄
    writeReport common destination settings coloured report
    ⦃post⟨fun code s => ⌜Parsed common sources destination settings machine (.done code) s⌝,
      fun f s => ⌜Parsed common sources destination settings machine (.failed f) s⌝⟩⦄ := by
  refine triple_iff_exec.mpr ?_
  rintro told ⟨htold, hstream, outcomes, hgave, rfl⟩
  have hwritten := exec_of_triple (triple_writeReport (htold.sound_workspace hready.sound) common
    destination settings coloured (Report.ofOutcomes outcomes).1) rfl
  rcases hexec : exec (writeReport common destination settings coloured
    (Report.ofOutcomes outcomes).1) told with ⟨result, after⟩
  rw [hexec] at hwritten
  cases result with
  | ok code => exact parsed_of_written hready houtput hlog htold hstream hgave hwritten
  | error f => exact parsed_of_written hready houtput hlog htold hstream hgave hwritten

include hready houtput hlog in
/-- **Every run that parses with settings in effect** ends as `Parsed` says. -/
theorem triple_parseWith (common : CommonOptions) (sources : SourceOptions)
    (destination : Destination) :
    ⦃fun s => ⌜s = machine⌝⦄
    parseWith common sources destination settings
    ⦃post⟨fun code s => ⌜Parsed common sources destination settings machine (.done code) s⌝,
      fun f s => ⌜Parsed common sources destination settings machine (.failed f) s⌝⟩⦄ := by
  have hpaths := triple_sourcePaths machine sources settings
  have hread := @triple_readGiven machine common sources settings _ hready
  have hwrite := triple_writeGiven hready houtput hlog common sources destination
  mvcgen [parseWith, Notice.showColoured, hpaths, hread, hwrite]
  case vc2.hpaths h => exact h.2
  case vc3.post.success.pre h => exact h.1
  case vc5.post.success.post.except.handle =>
    intro hlogged hprint
    exact parsed_of_failed hready houtput hlog (fun _ => hprint) (hlogged.becomes destination)
  case vc6.post.except.handle =>
    rintro rfl hprint
    exact parsed_of_failed hready houtput hlog (fun _ => hprint) (.refl _ _ _)

end Parsing

/-! ### The settings in effect -/

/-- The settings file has a path that starts at the root. -/
theorem rooted_filePath {environment : Environment} {directory : Place} {given : Option String}
    {path : Path} (hnames : ∀ name ∈ directory, '/' ∉ name.toList)
    (h : Settings.filePath environment ⟨.root, directory⟩ given = .ok path) :
    path.isAbsolute ∧ path.Slashless := by
  unfold Settings.filePath at h
  split at h
  · rw [← Except.ok.inj h]
    exact ⟨rfl, (Path.slashless_ofText _).absolute hnames⟩
  · split at h
    · exact nomatch h
    · next expanded hhome =>
      split at h
      · exact nomatch h
      · rw [← Except.ok.inj h]
        exact ⟨rfl, ((Path.slashless_ofText _).expandHome hhome).absolute hnames⟩

/-- **The paths of the settings in effect are rooted**: they were made absolute against a working
directory that is, which `hready` says. -/
theorem rooted_inEffect (hready : machine.Ready) {options config : Fields Value}
    (h : (exec (settingsFor common options) machine).1 = .ok config) :
    (Settings.inEffect config).output.Rooted
      ∧ (Path.ofText (Settings.inEffect config).logDirectory).Rooted := by
  rw [exec_settingsFor] at h
  obtain ⟨path, hpath, hload⟩ := Fallible.bind_eq_ok_iff.mp h
  obtain ⟨habsolute, hslash⟩ :=
    rooted_filePath hready.names (Fallible.mapError_eq_ok_iff.mp hpath)
  have hrooted (place : String × String) (hplace : place ∈ Settings.pathFields) :=
    Settings.rooted_of_load (Fallible.mapError_eq_ok_iff.mp hload) habsolute hslash hplace
  constructor
  · exact hrooted ("output", "path") (by decide)
  · exact hrooted ("observability", "log_dir") (by decide)

/-- The settings of a run that parses are loaded from the machine as it is, and nothing changes. -/
theorem exec_loadSettings (common : CommonOptions) (sources : SourceOptions)
    (format : Option String) (destination : Destination) (machine : Machine) :
    (exec (Request.parse common sources format destination).loadSettings machine).2 = machine := by
  have hoptions := @invariant_optionsFor (· = machine)
  have hsettings := @invariant_settingsFor (· = machine)
  have hkept :
      ⦃fun s => ⌜s = machine⌝⦄
      (Request.parse common sources format destination).loadSettings
      ⦃post⟨fun _ s => ⌜s = machine⌝, fun _ s => ⌜s = machine⌝⟩⦄ := by
    mvcgen [Request.loadSettings, hoptions, hsettings]
  have hresult := exec_of_triple hkept (rfl : machine = machine)
  rcases hexec : exec (Request.parse common sources format destination).loadSettings machine with
    ⟨result, after⟩
  rw [hexec] at hresult
  cases result with
  | ok config => exact hresult
  | error f => exact hresult

theorem exists_settingsFor {format : Option String} {config : Fields Value}
    (h : (exec (Request.parse common sources format destination).loadSettings machine).1
      = .ok config) :
    ∃ options, (exec (settingsFor common options) machine).1 = .ok config := by
  have hkept := exec_of_triple (@invariant_optionsFor (· = machine) format destination)
    (rfl : machine = machine)
  rw [Request.loadSettings, exec_bind] at h
  rcases hoptions : exec (optionsFor format destination) machine with ⟨result, next⟩
  rw [hoptions] at h hkept
  cases result with
  | ok options =>
    obtain rfl : next = machine := hkept
    exact ⟨options, h⟩
  | error f => cases h

section Request

variable [Codecs]

/-- A run does what the command line asks for, and ends in what comes of it. -/
theorem run_of_request {arguments : List String} {request : Request}
    (h : Request.ofArguments arguments = .ok (.perform request)) (machine : Machine) :
    (run arguments : StateM Machine Ending).run machine
      = (.ofResult (exec (perform request) machine).1, (exec (perform request) machine).2) := by
  rw [run, h]
  dsimp only
  rw [StateT.run_bind]
  rcases hperform : exec (perform request) machine with ⟨result, after⟩
  rw [exec] at hperform
  rw [hperform]
  cases result with
  | ok code => rfl
  | error f => rfl

/-- A run that parses goes on from its settings. -/
theorem run_of_loadSettings {arguments : List String} {format : Option String}
    {config : Fields Value}
    (hrequest : Request.ofArguments arguments
      = .ok (.perform (.parse common sources format destination)))
    (hconfig : (exec (Request.parse common sources format destination).loadSettings machine).1
      = .ok config) :
    let result := exec (parseWith common sources destination (Settings.inEffect config)) machine
    (run arguments : StateM Machine Ending).run machine = (.ofResult result.1, result.2) := by
  have hloaded : exec (Request.parse common sources format destination).loadSettings machine
      = (.ok config, machine) :=
    Prod.ext hconfig (exec_loadSettings common sources format destination machine)
  have hperform : exec (perform (.parse common sources format destination)) machine
      = exec (parseWith common sources destination (Settings.inEffect config)) machine := by
    rw [perform, parseRules_eq, exec_bind, hloaded]
  rw [run_of_request hrequest, hperform]

/-- A command line that is no request ends the run at once, and the usage is told. -/
theorem run_of_misused {arguments : List String} {e : UsageError}
    (h : Request.ofArguments arguments = .error e) (machine : Machine) :
    ∃ usage, (run arguments : StateM Machine Ending).run machine
      = (.misused e, machine.addError usage) := by
  rw [run, h]
  exact ⟨_, rfl⟩

end Request

/-- **A run that parses replaces its output as a whole or not at all.**  Where the command line is
no request, or the settings do not load, no file is touched.  Otherwise a run that ends with code 0
or 1 has written the text of the merged rules, to the output or to the stream of results, and code 1
tells that a source could not be read.  A run that ends with another code has left the output alone,
if it is not on the way to the log; but if it was the stream of results that refused to take what
tells of the output, then the output holds the text of the merged rules.  In no case is another
regular file touched but the log of the run. -/
theorem run_parsed [Codecs] (hready : machine.Ready) (arguments : List String) :
    (∀ e, Request.ofArguments arguments = .error e →
        ∃ usage, (run arguments : StateM Machine Ending).run machine
          = (.misused e, machine.addError usage))
    ∧ ∀ common sources format destination,
        Request.ofArguments arguments
          = .ok (.perform (.parse common sources format destination)) →
        let request := Request.parse common sources format destination
        (∀ f, (exec request.loadSettings machine).1 = .error f →
            (run arguments : StateM Machine Ending).run machine = (.failed f, machine))
        ∧ ∀ config, (exec request.loadSettings machine).1 = .ok config →
            ∃ ending after, (run arguments : StateM Machine Ending).run machine = (ending, after)
              ∧ Parsed common sources destination (Settings.inEffect config) machine ending
                  after := by
  refine ⟨fun e he => run_of_misused he machine, ?_⟩
  intro common sources format destination hrequest
  constructor
  · intro f hf
    exact run_of_error hrequest
      (Prod.ext hf (exec_loadSettings common sources format destination machine))
  · intro config hconfig
    obtain ⟨options, hsettings⟩ := exists_settingsFor hconfig
    obtain ⟨houtput, hlog⟩ := rooted_inEffect hready hsettings
    refine ⟨_, _, run_of_loadSettings hrequest hconfig, ?_⟩
    have hparsed := exec_of_triple
      (@triple_parseWith _ _ _ hready houtput hlog common sources destination)
      (rfl : machine = machine)
    rcases hexec : exec (parseWith common sources destination (Settings.inEffect config)) machine
      with ⟨result, after⟩
    rw [hexec] at hparsed
    cases result with
    | ok code => exact hparsed
    | error f => exact hparsed

/-! ### Runs -/

/-- A machine with a source file and with an earlier output, in a directory whose name is not
ASCII. -/
def machineWithOutput : Machine where
  tree := ⟨[(["é", "target", "results", "rules.json"], .file [0x7B, 0x7D]),
    (["é", "target", "results"], .directory), (["é", "target"], .directory), (["é"], .directory),
    (["é", "a.apt"], .file [0x2A, 0x20, 0x46, 0x6F, 0x6F])]⟩
  directory := ["é"]
  runId := "r"

/-- Its settings, where there is no settings file. -/
def plainSettings : Fields Value :=
  [("meta", .table [("schema_version", .int 1)]),
   ("sources", .table
     [("apt_dir", .text "/é/src/site/apt"), ("file_prefix", .text "codenarc-rules-"),
      ("encoding", .text "utf-8"), ("max_workers", .int 1)]),
   ("output", .table [("format", .text "json"), ("path", .text "/é/target/results/rules.json")]),
   ("observability", .table
     [("log_level", .text "INFO"), ("log_dir", .text "/é/logs"),
      ("log_to_console", .bool false)])]

theorem load_plainSettings {path p : Path} (hpath : path.parent = ⟨.root, ["é"]⟩) :
    Settings.load {} path false (.error (.refused .noSuchFile p none)) [] []
      = .ok plainSettings := by
  have hmerged : Settings.merged path false (.error (.refused .noSuchFile p none)) [] []
      = .ok Settings.defaults := by
    rw [Settings.merged, Settings.layers, Settings.variableLayer_empty, Settings.optionLayer_empty]
    rfl
  have hplaced : Settings.absolutePaths {} ⟨.root, ["é"]⟩ Settings.defaults
      = .ok plainSettings := by
    with_unfolding_all rfl
  have hcheck : Settings.check (.table plainSettings) = .ok [] := by decide +kernel
  rw [Settings.load_eq, hmerged, hpath]
  show Settings.finished {} ⟨.root, ["é"]⟩ Settings.defaults = _
  rw [Settings.finished, hplaced]
  show (Settings.normalize (.table plainSettings)).mapError _ = _
  rw [Settings.normalize_eq_ok_iff.mpr ⟨Settings.check_eq_nil_iff.mp hcheck, rfl⟩]
  rfl

theorem ready_machineWithOutput : machineWithOutput.Ready where
  sound := ⟨by decide, rfl, by decide⟩
  names := by decide
  segment := by decide +kernel
  trimmed := by decide +kernel

/-- They are loaded in a directory of this name that has no settings file. -/
theorem exec_loadSettings_plain {machine : Machine} (sources : SourceOptions)
    (hdirectory : machine.directory = ["é"]) (henvironment : machine.environment = {})
    (hnone : machine.read ⟨.root, ["é", "codenarc-converter.toml"]⟩ = .error .noSuchFile)
    {destination : Destination} (hdestination : ∀ raw, destination ≠ .file raw) :
    (exec (Request.parse ⟨none, false, false⟩ sources none destination).loadSettings machine).1
      = .ok plainSettings := by
  have hoptions : exec (optionsFor none destination) machine = (.ok [], machine) := by
    cases destination with
    | file raw => exact absurd rfl (hdestination raw)
    | configured => rfl
    | printed => rfl
  have hread : Files.readIn machine.toWorkspace ⟨.root, ["é", "codenarc-converter.toml"]⟩
      = .error (.refused .noSuchFile ⟨.root, ["é", "codenarc-converter.toml"]⟩ none) := by
    rw [Files.readIn, if_neg (by decide), hnone]
    rfl
  rw [Request.loadSettings, exec_bind, hoptions]
  show (exec (settingsFor _ []) machine).1 = _
  rw [exec_settingsFor, hdirectory, henvironment]
  show (Settings.load {} ⟨.root, ["é", "codenarc-converter.toml"]⟩ false
      (Files.readIn machine.toWorkspace ⟨.root, ["é", "codenarc-converter.toml"]⟩)
      [] []).mapError Failure.settings = _
  rw [hread, load_plainSettings rfl]
  rfl

/-- **Two runs**: without source files the earlier output is still there, and with a source file the
merged rules are printed. -/
theorem run_parsed_machineWithOutput :
    machineWithOutput.Ready
    ∧ (∃ ending after,
        (@run (StateM Machine) _ _ Codecs.arabic ["parse"]).run machineWithOutput = (ending, after)
        ∧ ending.exitCode.number = 2
        ∧ after.read ⟨.root, ["é", "target", "results", "rules.json"]⟩ = .ok [0x7B, 0x7D])
    ∧ ∃ ending after outcomes,
        (@run (StateM Machine) _ _ Codecs.arabic ["parse", "--stdout", "a.apt"]).run
          machineWithOutput = (ending, after)
        ∧ ending.exitCode.number = 0
        ∧ @Gave Codecs.arabic ⟨none, false, false⟩ ⟨["a.apt"], none⟩
            (Settings.inEffect plainSettings) machineWithOutput outcomes
        ∧ after.printed = resultText (Settings.inEffect plainSettings) outcomes := by
  have hready := ready_machineWithOutput
  refine ⟨hready, ?_, ?_⟩
  · have hrequest : Request.ofArguments ["parse"]
        = .ok (.perform (.parse ⟨none, false, false⟩ ⟨[], none⟩ none .configured)) := by
      decide +kernel
    have hload := @exec_loadSettings_plain machineWithOutput ⟨[], none⟩ rfl rfl
      (by decide +kernel) _ (show ∀ raw, Destination.configured ≠ .file raw from nofun)
    have hrun := @run_of_loadSettings machineWithOutput _ _ _ Codecs.arabic _ _ _ hrequest hload
    obtain ⟨ending, after, hends, hparsed⟩ :=
      ((@run_parsed machineWithOutput Codecs.arabic hready ["parse"]).2 _ _ _ _ hrequest).2 _ hload
    obtain ⟨rfl, -⟩ := Prod.mk.inj (hends.symm.trans hrun)
    have hnumber : (Ending.ofResult (exec (@parseWith Codecs.arabic ⟨none, false, false⟩ ⟨[], none⟩
        .configured (Settings.inEffect plainSettings)) machineWithOutput).1).exitCode.number
          = 2 := by
      decide +kernel
    -- Its stream takes every text, so it is not the stream that cuts the run off.
    have hleft : ¬ Replaces .configured (.ofResult (exec (@parseWith Codecs.arabic
        ⟨none, false, false⟩ ⟨[], none⟩ .configured (Settings.inEffect plainSettings))
        machineWithOutput).1) := by
      rintro ⟨hfile, hcode | ⟨f, hf, fault, rfl⟩⟩
      · exact absurd (hnumber ▸ hcode) (by decide)
      · obtain ⟨outcomes, -, -, written, hstream, hcut⟩ :=
          @Parsed.cutOff Codecs.arabic _ _ _ _ _ _ _ hparsed fault hf hfile
        obtain ⟨earlier, text, -, hrefused⟩ := hcut.exists_refused
        rw [show written.refuses = machineWithOutput.refuses from congrArg Prod.snd hstream]
          at hrefused
        exact nomatch hrefused
    refine ⟨_, after, hends, hnumber, ?_⟩
    have hunchanged := @Parsed.leftAlone Codecs.arabic _ _ _ _ _ _ _ hparsed hleft
      (by decide +kernel) (by decide +kernel)
    refine (hunchanged.read _).mpr ?_
    decide +kernel
  · have hrequest : Request.ofArguments ["parse", "--stdout", "a.apt"]
        = .ok (.perform (.parse ⟨none, false, false⟩ ⟨["a.apt"], none⟩ none .printed)) := by
      decide +kernel
    have hload := @exec_loadSettings_plain machineWithOutput ⟨["a.apt"], none⟩ rfl rfl
      (by decide +kernel) _ (show ∀ raw, Destination.printed ≠ .file raw from nofun)
    have hrun := @run_of_loadSettings machineWithOutput _ _ _ Codecs.arabic _ _ _ hrequest hload
    obtain ⟨ending, after, hends, hparsed⟩ :=
      ((@run_parsed machineWithOutput Codecs.arabic hready ["parse", "--stdout", "a.apt"]).2
        _ _ _ _ hrequest).2 _ hload
    obtain ⟨rfl, -⟩ := Prod.mk.inj (hends.symm.trans hrun)
    have hnumber : (Ending.ofResult (exec (@parseWith Codecs.arabic ⟨none, false, false⟩
        ⟨["a.apt"], none⟩ .printed (Settings.inEffect plainSettings))
        machineWithOutput).1).exitCode.number = 0 := by
      decide +kernel
    obtain ⟨outcomes, hgave, -, hprinted⟩ := 
      @Parsed.completed Codecs.arabic _ _ _ _ _ _ _ hparsed (by rw [hnumber]; decide)
    rw [if_pos rfl] at hprinted
    exact ⟨_, after, outcomes, hends, hnumber, hgave, hprinted.trans String.empty_append⟩

/-- A machine with a source file in a directory whose name is not ASCII, and with a stream of
results that takes ASCII and nothing else. -/
def machineWithAsciiStream : Machine where
  tree := ⟨[(["é"], .directory), (["é", "a.apt"], .file [0x2A, 0x20, 0x46, 0x6F, 0x6F])]⟩
  directory := ["é"]
  runId := "r"
  refuses := fun _ text =>
    match Encoding.ascii.encode text.toList with
    | .ok _ => none
    | .error e => some (.unencodable e)

/-- **A run that fails may have written its output**: its stream of results refuses the path of the
output, which has been written by then. -/
theorem run_parsed_untold :
    ∃ ending after,
      (@run (StateM Machine) _ _ Codecs.arabic ["parse", "a.apt"]).run machineWithAsciiStream
        = (ending, after)
      ∧ ending.exitCode.number = 3
      ∧ machineWithAsciiStream.read ⟨.root, ["é", "target", "results", "rules.json"]⟩
        = .error .noSuchFile
      ∧ ∃ octets, after.read ⟨.root, ["é", "target", "results", "rules.json"]⟩ = .ok octets := by
  have hrequest : Request.ofArguments ["parse", "a.apt"]
      = .ok (.perform (.parse ⟨none, false, false⟩ ⟨["a.apt"], none⟩ none .configured)) := by
    decide +kernel
  have hload := @exec_loadSettings_plain machineWithAsciiStream ⟨["a.apt"], none⟩ rfl rfl
    (by decide +kernel) _ (show ∀ raw, Destination.configured ≠ .file raw from nofun)
  have hrun := @run_of_loadSettings _ _ _ _ Codecs.arabic _ _ _ hrequest hload
  have hdone (result : Except FileFault Octets) (h : result.isOk) :
      ∃ octets, result = .ok octets := by
    cases result with
    | ok octets => exact ⟨octets, rfl⟩
    | error fault => exact nomatch h
  refine ⟨_, _, hrun, ?_, ?_, hdone _ ?_⟩
  · simp only [parseWith, writeReport, writeOutput, Files.replaceText, Files.octetsIn_utf8]
    decide +kernel
  · decide +kernel
  · simp only [parseWith, writeReport, writeOutput, Files.replaceText, Files.octetsIn_utf8]
    decide +kernel

end CommandLine

end RuleCatalogue
