import RuleCatalogue.CommandLine.Run
import RuleCatalogue.Proofs.Fallible
import RuleCatalogue.Proofs.Log
import RuleCatalogue.Proofs.Machine
import RuleCatalogue.Proofs.Report

/-!
# What the streams are told

The stream of results takes one text after another, up to one that it refuses.  So telling notices
ends in one of two ways: all their texts have been printed (`Machine.Told`), or the texts before the
first one that is refused have been, and the run is broken off there (`Machine.CutOff`).  Which of
the two it is depends on the stream alone, and nothing else of the machine is touched but the stream
of errors, which takes every text.

Both are statements about a list of texts, not about one text that they are joined to: a stream may
refuse a text that it would have taken in another place, and what it is asked is known only text by
text.

Loading settings and finding source files only looks: whatever holds of the machine holds
afterwards, and the settings are known from what the files hold (`exec_settingsFor`).  Reading
sources prints nothing.  What goes wrong on the way may be told on the stream of errors, and the log
may show its lines there; the other stream is left to the results.

## Main definitions

* `Machine.Told` and `Machine.CutOff` are the two ends.
* `printedBy` lists the texts that notices print.
* `Machine.stream` is the stream of results.

## Main results

* `told_tellAll`: what a run that tells notices ends in.
* `printedBy_warnings`: warnings print nothing, so they are never in the way of what follows.
-/

/-! ## What telling notices prints -/

namespace RuleCatalogue

open Std.Do

set_option mvcgen.warning false

namespace Machine

/-- **Some texts have been printed** on a machine, one after another, and perhaps some errors;
nothing else has changed. -/
def Told (start : Machine) (texts : List String) (after : Machine) : Prop :=
  ∃ errors, after = { start with
    printed := start.printed ++ String.join texts, printedErrors := errors }

/-- **The printing of some texts was cut off** by one that the stream of results refuses: those
before it have been printed, it has not, and those behind it were not tried. -/
def CutOff (start : Machine) (texts : List String) (fault : PrintFault) (after : Machine) : Prop :=
  ∃ before text rest, texts = before ++ text :: rest ∧ start.Told before after
    ∧ start.refuses (start.printed ++ String.join before) text = some fault

variable {start after : Machine} {texts : List String} {fault : PrintFault}

theorem Told.refl (machine : Machine) : machine.Told [] machine :=
  ⟨machine.printedErrors, by rw [String.join_nil, String.append_empty]⟩

theorem Told.printed (h : start.Told texts after) :
    after.printed = start.printed ++ String.join texts := by
  obtain ⟨errors, rfl⟩ := h
  rfl

theorem Told.toWorkspace (h : start.Told texts after) : after.toWorkspace = start.toWorkspace := by
  obtain ⟨errors, rfl⟩ := h
  rfl

theorem Told.refuses (h : start.Told texts after) : after.refuses = start.refuses := by
  obtain ⟨errors, rfl⟩ := h
  rfl

theorem Told.addPrinted (h : start.Told texts after) (text : String) :
    start.Told (texts ++ [text]) (after.addPrinted text) := by
  obtain ⟨errors, rfl⟩ := h
  exact ⟨errors, by simp [Machine.addPrinted, String.join_append, String.append_assoc]⟩

theorem Told.addError (h : start.Told texts after) (text : String) :
    start.Told texts (after.addError text) := by
  obtain ⟨errors, rfl⟩ := h
  exact ⟨errors ++ text, rfl⟩

/-- A stream that takes every text cuts nothing off. -/
theorem CutOff.exists_refused (h : start.CutOff texts fault after) :
    ∃ earlier, ∃ text ∈ texts, start.refuses earlier text = some fault := by
  obtain ⟨before, text, rest, rfl, -, hrefused⟩ := h
  exact ⟨_, text, List.mem_append_right before List.mem_cons_self, hrefused⟩

theorem not_cutOff_nil : ¬ start.CutOff [] fault after := by
  rintro ⟨before, text, rest, htexts, -⟩
  exact absurd htexts.symm (List.append_ne_nil_of_right_ne_nil _ (List.cons_ne_nil _ _))

theorem CutOff.toWorkspace (h : start.CutOff texts fault after) :
    after.toWorkspace = start.toWorkspace := by
  obtain ⟨before, text, rest, -, htold, -⟩ := h
  exact htold.toWorkspace

/-! ## One text and several -/

/-- **One more text**: it is printed behind those before it, or it is refused there.  `later` is
what the program would have gone on to print; `CutOff` names the whole list so that the failures of
a sequence need no adjusting. -/
theorem told_print (start : Machine) (earlier : List String) (text : String)
    (later : List String) :
    ⦃fun s => ⌜start.Told earlier s⌝⦄
    (ExceptT.mk (Host.print text) : ExceptT PrintFault (StateM Machine) Unit)
    ⦃post⟨fun _ s => ⌜start.Told (earlier ++ [text]) s⌝,
      fun fault s => ⌜start.CutOff (earlier ++ text :: later) fault s⌝⟩⦄ := by
  mvcgen
  next s htold =>
  have hprinted : s.printed = start.printed ++ String.join earlier := htold.printed
  have hrefuses : s.refuses = start.refuses := htold.refuses
  split
  · next fault hfault =>
    rw [hprinted, hrefuses] at hfault
    exact ⟨earlier, text, later, rfl, htold, hfault⟩
  · exact htold.addPrinted text

/-- **Texts one after another**, by induction on them: each goes on from where the one before it has
left the stream, with the rest of the list as its `later`. -/
theorem told_forM_print (start : Machine) (earlier texts later : List String) :
    ⦃fun s => ⌜start.Told earlier s⌝⦄
    (texts.forM fun text => ExceptT.mk (Host.print text) :
      ExceptT PrintFault (StateM Machine) PUnit)
    ⦃post⟨fun _ s => ⌜start.Told (earlier ++ texts) s⌝,
      fun fault s => ⌜start.CutOff (earlier ++ texts ++ later) fault s⌝⟩⦄ := by
  induction texts generalizing earlier with
  | nil =>
    rw [List.append_nil]
    exact Triple.pure _ SPred.entails.rfl
  | cons text rest ih =>
    have hfirst := told_print start earlier text (rest ++ later)
    have hrest := ih (earlier ++ [text])
    rw [List.append_assoc, List.singleton_append, List.append_assoc, List.cons_append] at hrest
    rw [List.append_assoc, List.cons_append]
    exact Triple.bind _ _ hfirst fun _ => hrest

end Machine

/-! ## Notices -/

namespace CommandLine

open Machine

/-- The texts that notices print. -/
def printedBy (notices : List Notice) : List String :=
  notices.flatMap Notice.printed

/-- A warning is told on the other stream; every other notice prints its texts. -/
theorem told_tell (coloured : Bool) (start : Machine) (earlier : List String) (notice : Notice)
    (later : List String) :
    ⦃fun s => ⌜start.Told earlier s⌝⦄
    (notice.tell coloured : ExceptT PrintFault (StateM Machine) Unit)
    ⦃post⟨fun _ s => ⌜start.Told (earlier ++ notice.printed) s⌝,
      fun fault s => ⌜start.CutOff (earlier ++ notice.printed ++ later) fault s⌝⟩⦄ := by
  cases notice with
  | warning text =>
    rw [Notice.tell, Notice.printed, List.append_nil]
    mvcgen
    exact Told.addError ‹_› _
  | labelled label value => exact told_forM_print start earlier _ later
  | lines l => exact told_forM_print start earlier _ later
  | heading title => exact told_forM_print start earlier _ later

theorem told_forM_tell (coloured : Bool) (start : Machine) (earlier : List String)
    (notices : List Notice) :
    ⦃fun s => ⌜start.Told earlier s⌝⦄
    (notices.forM (Notice.tell coloured) : ExceptT PrintFault (StateM Machine) PUnit)
    ⦃post⟨fun _ s => ⌜start.Told (earlier ++ printedBy notices) s⌝,
      fun fault s => ⌜start.CutOff (earlier ++ printedBy notices) fault s⌝⟩⦄ := by
  induction notices generalizing earlier with
  | nil =>
    rw [printedBy, List.flatMap_nil, List.append_nil]
    exact Triple.pure _ SPred.entails.rfl
  | cons notice rest ih =>
    have hfirst := told_tell coloured start earlier notice (printedBy rest)
    have hrest := ih (earlier ++ notice.printed)
    rw [List.append_assoc] at hfirst hrest
    exact Triple.bind _ _ hfirst fun _ => hrest

/-- **Telling notices** prints all their texts, or is cut off by one that the stream refuses.
Notices for the stream of errors are told as well, but `printedBy` does not list them. -/
theorem told_tellAll (coloured : Bool) (start : Machine) (earlier : List String)
    (notices : List Notice) :
    ⦃fun s => ⌜start.Told earlier s⌝⦄
    (tellAll coloured notices : ExceptT Failure (StateM Machine) Unit)
    ⦃post⟨fun _ s => ⌜start.Told (earlier ++ printedBy notices) s⌝,
      fun f s => ⌜∃ fault, f = .print fault
        ∧ start.CutOff (earlier ++ printedBy notices) fault s⌝⟩⦄ :=
  triple_adapt (told_forM_tell coloured start earlier notices) Failure.print

/-- The same, from any machine that is as a condition says. -/
theorem told_tellAll_from (P : Machine → Prop) (coloured : Bool) (notices : List Notice) :
    ⦃fun s => ⌜P s⌝⦄
    (tellAll coloured notices : ExceptT Failure (StateM Machine) Unit)
    ⦃post⟨fun _ s => ⌜∃ start, P start ∧ start.Told (printedBy notices) s⌝,
      fun f s => ⌜∃ start fault, P start ∧ f = .print fault
        ∧ start.CutOff (printedBy notices) fault s⌝⟩⦄ := by
  refine triple_iff_exec.mpr fun start hstart => ?_
  have htold := exec_of_triple (told_tellAll coloured start [] notices) (Told.refl start)
  rcases hexec : exec (tellAll coloured notices) start with ⟨result, after⟩
  rw [hexec] at htold
  cases result with
  | ok _ => exact ⟨start, hstart, htold⟩
  | error f =>
    obtain ⟨fault, hfault, hcut⟩ := htold
    exact ⟨start, fault, hstart, hfault, hcut⟩

/-- Warnings go to the other stream. -/
theorem printedBy_warnings (verbose : Bool) (report : Report) :
    printedBy (report.warnings verbose) = [] := by
  refine List.flatMap_eq_nil_iff.mpr fun notice hnotice => ?_
  rcases List.mem_append.mp hnotice with h | h
  · obtain ⟨failure, -, rfl⟩ := List.mem_map.mp h
    rfl
  · obtain ⟨c, -, hc⟩ := List.mem_flatMap.mp h
    unfold Report.conflictWarnings at hc
    cases verbose with
    | false =>
      obtain rfl := List.mem_singleton.mp hc
      rfl
    | true =>
      simp only [if_true, List.mem_cons, List.not_mem_nil, or_false] at hc
      rcases hc with rfl | rfl | rfl <;> rfl

/-- So telling the warnings of a report is never cut off. -/
theorem told_warnings (coloured verbose : Bool) (start : Machine) (report : Report) :
    ⦃fun s => ⌜s = start⌝⦄
    (tellAll coloured (report.warnings verbose) : ExceptT Failure (StateM Machine) Unit)
    ⦃post⟨fun _ s => ⌜start.Told [] s⌝, fun _ _ => ⌜False⌝⟩⦄ := by
  have htold := told_tellAll coloured start [] (report.warnings verbose)
  rw [printedBy_warnings] at htold
  mvcgen [htold]
  case vc1.pre hsame => exact hsame ▸ Told.refl _
  case vc2.post.success => exact id
  case vc3.post.except.handle =>
    rintro ⟨fault, -, hcut⟩
    exact not_cutOff_nil hcut

end CommandLine

end RuleCatalogue

/-! ## What prints nothing -/

namespace RuleCatalogue

open Machine Std.Do

set_option mvcgen.warning false

/-- **The stream of results**: what has been printed, and what it refuses. -/
def Machine.stream (machine : Machine) : String × (String → String → Option PrintFault) :=
  (machine.printed, machine.refuses)

variable {x : String × (String → String → Option PrintFault)}

/-! ## Files and logs -/

/-- Operations on files print nothing. -/
theorem Machine.quiet_attempt (f : Workspace → Except FileFault Workspace) :
    ⦃fun s => ⌜s.stream = x⌝⦄ attempt f ⦃⇓ _ s => ⌜s.stream = x⌝⦄ :=
  invariant_attempt fun _ _ hmachine _ => hmachine

namespace Files

variable (target : Path) (contents : Except WriteError Octets)

theorem quiet_fillAndMove (staged : Path) :
    ⦃fun s => ⌜s.stream = x⌝⦄
    (fillAndMove staged target contents : StateM Machine (Except WriteError Unit))
    ⦃⇓ _ s => ⌜s.stream = x⌝⦄ := by
  have hwrite (octets : Octets) :
      ⦃fun s => ⌜s.stream = x⌝⦄
      (onPath none staged (Host.write · octets) : StateM Machine (Except FileError Unit))
      ⦃⇓ _ s => ⌜s.stream = x⌝⦄ :=
    invariant_onPath (quiet_attempt _)
  have hrename :
      ⦃fun s => ⌜s.stream = x⌝⦄
      (Host.rename staged target : StateM Machine (Except FileFault Unit))
      ⦃⇓ _ s => ⌜s.stream = x⌝⦄ :=
    quiet_attempt _
  mvcgen [fillAndMove, moveInto, hwrite, hrename]

theorem quiet_stageAndMove (staged : Path) :
    ⦃fun s => ⌜s.stream = x⌝⦄ stageAndMove staged target contents
    ⦃⇓ _ s => ⌜s.stream = x⌝⦄ := by
  have hcreate :
      ⦃fun s => ⌜s.stream = x⌝⦄
      (onPath (some "open") staged Host.create : StateM Machine (Except FileError Unit))
      ⦃⇓ _ s => ⌜s.stream = x⌝⦄ :=
    invariant_onPath (quiet_attempt _)
  have hremove :
      ⦃fun s => ⌜s.stream = x⌝⦄ (Host.remove staged : StateM Machine (Except FileFault Unit))
      ⦃⇓ _ s => ⌜s.stream = x⌝⦄ :=
    quiet_attempt _
  have hfill := @quiet_fillAndMove x target contents staged
  mvcgen [stageAndMove, hcreate, hfill, hremove]

/-- Replacing a file prints nothing. -/
theorem quiet_replaceContents (createParents : Bool) :
    ⦃fun s => ⌜s.stream = x⌝⦄
    (replaceContents target contents createParents : StateM Machine (Except WriteError Unit))
    ⦃⇓ _ s => ⌜s.stream = x⌝⦄ := by
  have hmake := @invariant_makeDirectories (fun s => s.stream = x) target.parent
    fun above _ => quiet_attempt _
  have hsteps := @invariant_checkSteps fun s => s.stream = x
  have hstage := @quiet_stageAndMove x target contents
  rw [replaceContents_eq]
  cases createParents with
  | false => mvcgen [replacePrepared, hsteps, hstage]
  | true => mvcgen [replacePrepared, hmake, hsteps, hstage]

end Files

namespace Logbook

theorem quiet_appendAt (path : Path) (more : Octets) :
    ⦃fun s => ⌜s.stream = x⌝⦄ appendAt path more ⦃⇓ _ s => ⌜s.stream = x⌝⦄ := by
  have happend (p : Path) :
      ⦃fun s => ⌜s.stream = x⌝⦄ (Host.append p more : StateM Machine (Except FileFault Unit))
      ⦃⇓ _ s => ⌜s.stream = x⌝⦄ :=
    quiet_attempt _
  mvcgen [appendAt, Files.append, Files.onPath, happend]

theorem quiet_makeFile (path : Path) :
    ⦃fun s => ⌜s.stream = x⌝⦄ (makeFile path : StateM Machine (Except FileError Unit))
    ⦃⇓ _ s => ⌜s.stream = x⌝⦄ := by
  have hmake := Files.invariant_makeDirectories (I := fun s => s.stream = x) path.parent
    fun above _ => quiet_attempt _
  have happend := @quiet_appendAt x path []
  rw [makeFile_eq]
  mvcgen [hmake, happend]

theorem quiet_setUp (book : Logbook) (setup : LogSetup) :
    ⦃fun s => ⌜s.stream = x⌝⦄
    (book.setUp setup : StateM Machine (Logbook × Except SetupFailure Nat))
    ⦃⇓ _ s => ⌜s.stream = x⌝⦄ := by
  have hmake := @quiet_makeFile x
  mvcgen [setUp, hmake]

theorem quiet_tell (book : Logbook) (logger : String) (e : Event) :
    ⦃fun s => ⌜s.stream = x⌝⦄ (book.tell logger e : StateM Machine Unit)
    ⦃⇓ _ s => ⌜s.stream = x⌝⦄ :=
  invariant_tell (fun _ _ hmachine => hmachine) (fun _ _ more => quiet_appendAt _ more) logger e

end Logbook

namespace CommandLine

/-! ## Looking -/

/-- **Loading settings** takes them from the environment and the settings file, and changes nothing:
the machine comes back as it was, whether loading succeeds or fails.  This is why
`run_settings_failure` can speak of `Settings.load` alone. -/
theorem exec_settingsFor (common : CommonOptions) (options : Fields Value) (machine : Machine) :
    exec (settingsFor common options) machine =
      ((do
        let path ← (Settings.filePath machine.environment ⟨.root, machine.directory⟩
          common.settingsFile).mapError .settings
        (Settings.load machine.environment path common.settingsFile.isSome
          (Files.readIn machine.toWorkspace path) machine.environment.bindings options).mapError
            .settings), machine) := by
  have henvironment : StateT.run (Host.environment : StateM Machine Environment) machine
      = (machine.environment, machine) := rfl
  have hdirectory : StateT.run (Host.workingDirectory : StateM Machine Path) machine
      = (⟨.root, machine.directory⟩, machine) := rfl
  unfold settingsFor
  simp only [exec_bind, exec_liftM, exec_ofExcept, henvironment, hdirectory, Files.run_read]
  cases Settings.filePath machine.environment ⟨.root, machine.directory⟩ common.settingsFile with
  | error e => rfl
  | ok path => rfl

section Invariants

variable {I : Machine → Prop}

theorem invariant_settingsFor (common : CommonOptions) (options : Fields Value) :
    ⦃fun s => ⌜I s⌝⦄ (settingsFor common options : ExceptT Failure (StateM Machine) _)
    ⦃post⟨fun _ s => ⌜I s⌝, fun _ s => ⌜I s⌝⟩⦄ := by
  have hread := @Files.invariant_read I
  mvcgen [settingsFor, ofExcept, hread]

theorem invariant_absolutePath (raw : String) :
    ⦃fun s => ⌜I s⌝⦄ (absolutePath raw : ExceptT Failure (StateM Machine) Path)
    ⦃post⟨fun _ s => ⌜I s⌝, fun _ s => ⌜I s⌝⟩⦄ := by
  mvcgen [absolutePath, ofExcept]

theorem invariant_optionsFor (format : Option String) (destination : Destination) :
    ⦃fun s => ⌜I s⌝⦄ (optionsFor format destination : ExceptT Failure (StateM Machine) _)
    ⦃post⟨fun _ s => ⌜I s⌝, fun _ s => ⌜I s⌝⟩⦄ := by
  have hpath := @invariant_absolutePath I
  mvcgen [optionsFor, hpath]

/-- Finding source files only looks. -/
theorem invariant_sourcePaths (sources : SourceOptions) (settings : RunSettings) :
    ⦃fun s => ⌜I s⌝⦄ (sourcePaths sources settings : ExceptT Failure (StateM Machine) _)
    ⦃post⟨fun _ s => ⌜I s⌝, fun _ s => ⌜I s⌝⟩⦄ := by
  have hpath := @invariant_absolutePath I
  have hthere := @Files.invariant_isDirectory I
  mvcgen [sourcePaths, sourceDirectory, Discovery.sourceFiles, hpath, hthere]

end Invariants

/-! ## Reading -/

variable [Codecs]

/-- What was read in one go is a report on what the files gave. -/
def IsOnFiles (report : Report) : Prop :=
  ∃ outcomes, report = (Report.ofOutcomes outcomes).1

theorem isOnFiles_of_result {encoding : String} {workers : Int}
    {files : List (Path × Except FileError Octets)} {report : Report}
    (h : (Batch.ofFiles encoding workers files).result = .ok report) : IsOnFiles report := by
  obtain ⟨outcomes, -, rfl⟩ := Batch.result_eq_ok_iff.mp h
  exact ⟨outcomes, rfl⟩

/-- Reading files prints no results, and what it gives is a report on the files. -/
theorem quiet_readLogged (settings : RunSettings) (book : Logbook) (paths : List Path) :
    ⦃fun s => ⌜s.stream = x⌝⦄ (readLogged settings book paths : StateM Machine Batch)
    ⦃⇓ batch s => ⌜s.stream = x ∧ ∀ report, batch.result = .ok report → IsOnFiles report⌝⦄ := by
  have hread (path : Path) :
      ⦃fun s => ⌜s.stream = x⌝⦄
      (do return (path, ← Files.read path) : StateM Machine (Path × Except FileError Octets))
      ⦃⇓ _ s => ⌜s.stream = x⌝⦄ := by
    have hread := @Files.invariant_read (fun s => s.stream = x)
    mvcgen [hread]
  have hfiles := invariant_mapM hread
  have htell := invariant_forM (@Logbook.quiet_tell x book readingLogger)
  mvcgen [readLogged, hfiles, htell]
  exact ⟨‹_›, fun report hreport => isOnFiles_of_result hreport⟩

theorem quiet_readSources (settings : RunSettings) (verbose : Bool) (paths : List Path) :
    ⦃fun s => ⌜s.stream = x⌝⦄
    (readSources settings verbose paths : ExceptT Failure (StateM Machine) Report)
    ⦃post⟨fun report s => ⌜s.stream = x ∧ IsOnFiles report⌝, fun _ s => ⌜s.stream = x⌝⟩⦄ := by
  have hopen := @Logbook.quiet_setUp x
  have hread := @quiet_readLogged x
  mvcgen [readSources, ofExcept, hopen, hread]
  case vc3.post.success.h_1.post.success.h_1 batch _ report hreport _ h =>
    exact ⟨h.1, h.2 report (Fallible.mapError_eq_ok_iff.mp hreport)⟩
  case vc4.post.success.h_1.post.success.h_2 h =>
    exact h.1

end CommandLine

end RuleCatalogue
