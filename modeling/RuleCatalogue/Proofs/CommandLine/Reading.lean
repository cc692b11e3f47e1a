import RuleCatalogue.Proofs.CommandLine.Printing
import RuleCatalogue.Proofs.Encoding.Codec
import RuleCatalogue.Proofs.Fallible
import RuleCatalogue.Proofs.Report
import RuleCatalogue.Proofs.Settings.Precedence

/-!
# What a run reads

A run reads its sources after its log has been opened, and tells the log about it.  Apart from that
log, and the directories that lead to it, everything is left as it was (`OnlyLogged`).

Every request loads its settings first, and a run ends where that fails (`run_of_error`).  The exit
code is that of an error in the settings if the failure is foreseen, and else that of an internal
error; which failures are not foreseen is known from the files and the options alone
(`run_settings_failure`).

## Main definitions

* `Machine.Ready` says what a run needs of its machine.
* `logPath` is the path of the log of a run.
* `Request.loadSettings` is what every request does first.
* `OfSettings` says of a failure that it concerns settings.

## Main results

* `readSources_onlyLogged`: what is read is what the files hold, and only the log is written.
-/

/-! ## What reading sources leaves behind -/

namespace RuleCatalogue

open Machine Workspace Std.Do

set_option mvcgen.warning false

/-- **A machine is ready for a run**: its files are a sound tree seen from one of its directories,
and the name of the run could be that of a directory. -/
structure Machine.Ready (machine : Machine) : Prop where
  sound : machine.toWorkspace.Sound
  names : ∀ name ∈ machine.directory, '/' ∉ name.toList
  segment : Path.ofText machine.runId = ⟨.here, [machine.runId]⟩
  trimmed : Text.trimmed machine.runId = machine.runId

namespace CommandLine

variable {machine : Machine} {settings : RunSettings} {verbose : Bool}

/-- **The path of the log of a run.** -/
def logPath (settings : RunSettings) (runId : String) : Path :=
  let directory := Path.ofText settings.logDirectory
  { directory with segments := directory.segments ++ [runId, "converter.jsonl"] }

/-- The log of a run stands in a directory of the name of the run. -/
theorem parent_logPath (settings : RunSettings) (runId : String) :
    (logPath settings runId).parent
      = ⟨(Path.ofText settings.logDirectory).anchor,
          (Path.ofText settings.logDirectory).segments ++ [runId]⟩ := by
  rw [logPath, Path.parent, List.append_cons, List.dropLast_concat]

theorem place_logPath (settings : RunSettings) (runId : String) (directory : Place) :
    (logPath settings runId).place directory
      = (logPath settings runId).parent.place directory ++ ["converter.jsonl"] := by
  rw [← Path.place_append _ (by decide), parent_logPath, List.append_assoc]
  rfl

/-- **Nothing but the log of the run has been written**, with the directories that lead to it. -/
def OnlyLogged (settings : RunSettings) (machine : Machine) (w : Workspace) : Prop :=
  Becomes ((logPath settings machine.runId).parent.Leads machine.directory)
    (· = (logPath settings machine.runId).place machine.directory) machine.toWorkspace w

/-- The path of a log that is set up. -/
theorem path_of_check {setup : LogSetup} {plan : LogPlan} (h : setup.check = .ok plan) :
    plan.path = (Path.ofText (Text.trimmed setup.fileName)).within
      ((Path.ofText (Text.trimmed setup.runId)).within (Path.ofText setup.directory)) := by
  unfold LogSetup.check at h
  dsimp only at h
  split at h
  · exact nomatch h
  split at h
  · exact nomatch h
  split at h
  · exact nomatch h
  split at h
  · exact nomatch h
  cases hlevel : setup.level.severity with
  | error fault =>
    rw [hlevel] at h
    exact nomatch h
  | ok level =>
    rw [hlevel] at h
    rw [← Except.ok.inj h]

theorem path_eq_logPath (hready : machine.Ready) {plan : LogPlan}
    (h : (logSetup settings verbose machine.runId).check = .ok plan) :
    plan.path = logPath settings machine.runId := by
  have hname : Text.trimmed "converter.jsonl" = "converter.jsonl" := by decide
  have hfile : Path.ofText "converter.jsonl" = ⟨.here, ["converter.jsonl"]⟩ := by decide
  rw [path_of_check h]
  dsimp only [logSetup]
  rw [hready.trimmed, hname, hready.segment, hfile]
  show (⟨_, ((Path.ofText settings.logDirectory).segments ++ [machine.runId])
    ++ ["converter.jsonl"]⟩ : Path) = _
  rw [List.append_assoc]
  rfl

/-- **Opening the log of a run** writes nothing else.  The file of the new log is made, with the
directories that lead to it, and every log of the book is at `logPath`. -/
theorem setUp_onlyLogged (hready : machine.Ready) (settings : RunSettings) (verbose : Bool) :
    ⦃fun s => ⌜s.toWorkspace = machine.toWorkspace⌝⦄
    (Logbook.setUp {} (logSetup settings verbose machine.runId) :
      StateM Machine (Logbook × Except SetupFailure Nat))
    ⦃⇓ found s => ⌜OnlyLogged settings machine s.toWorkspace
      ∧ ∀ log ∈ found.1.logs, log.path = logPath settings machine.runId⌝⦄ := by
  unfold Logbook.setUp
  cases hplan : (logSetup settings verbose machine.runId).check with
  | error fault =>
    refine Triple.pure _ fun s hsame => ⟨?_, nofun⟩
    rw [show s.toWorkspace = machine.toWorkspace from hsame]
    exact .refl _ _ _
  | ok plan =>
    have hpath := path_eq_logPath hready hplan
    have hmade :
        ⦃fun s => ⌜s.toWorkspace = machine.toWorkspace⌝⦄
        (Logbook.makeFile plan.path : StateM Machine (Except FileError Unit))
        ⦃⇓ _ s => ⌜OnlyLogged settings machine s.toWorkspace⌝⦄ := by
      rw [hpath]
      intro s hsame
      refine Logbook.becomes_makeFile hready.sound _ s ?_
      show Becomes _ _ _ s.toWorkspace
      rw [show s.toWorkspace = machine.toWorkspace from hsame]
      exact .refl _ _ _
    refine Triple.bind _ _ hmade fun made => Triple.pure _ fun s honly => ⟨honly, ?_⟩
    intro log hlog
    cases made with
    | error e => exact nomatch hlog
    | ok _ =>
      rw [List.mem_singleton.mp hlog]
      exact hpath

/-- Reading files one after another only looks. -/
theorem run_readAll (paths : List Path) (next : Machine) :
    StateT.run (paths.mapM fun path => return (path, ← Files.read path) :
        StateM Machine (List (Path × Except FileError Octets))) next
      = (paths.map fun path => (path, Files.readIn next.toWorkspace path), next) := by
  induction paths with
  | nil => rfl
  | cons path rest ih =>
    rw [List.mapM_cons, bind_assoc, StateT.run_bind, Files.run_read]
    show StateT.run (List.mapM _ rest >>= fun files => pure (_ :: files)) next = _
    rw [StateT.run_bind, ih]
    rfl

/-- **The files of a machine once the log of a run has been opened.** -/
def openedFiles (settings : RunSettings) (verbose : Bool) (machine : Machine) : Workspace :=
  (StateT.run (Logbook.setUp {} (logSetup settings verbose machine.runId) : StateM Machine _)
    machine).2.toWorkspace

theorem onlyLogged_openedFiles (hready : machine.Ready) (settings : RunSettings) (verbose : Bool) :
    OnlyLogged settings machine (openedFiles settings verbose machine) :=
  (run_of_triple (setUp_onlyLogged hready settings verbose) (rfl : _ = machine.toWorkspace)).1

variable [Codecs]

/-- **Sources are read as they are**, and what happens is written into the logs.  The batch is that
of `Batch.ofFiles` on the files of `w`, the workspace before the first line of the log, so what the
log says in between is never read back as a source. -/
theorem readLogged_becomes {w : Workspace} {path : Path} (made : Place → Prop) (book : Logbook)
    (hsound : w.Sound) (hlogs : ∀ log ∈ book.logs, log.path = path) (settings : RunSettings)
    (paths : List Path) :
    ⦃fun s => ⌜s.toWorkspace = w⌝⦄
    (readLogged settings book paths : StateM Machine Batch)
    ⦃⇓ batch s => ⌜batch = Batch.ofFiles settings.encoding settings.workers
        (paths.map fun path => (path, Files.readIn w path))
      ∧ Becomes made (· = path.place w.directory) w s.toWorkspace⌝⦄ := by
  have hread :
      ⦃fun s => ⌜s.toWorkspace = w⌝⦄
      (paths.mapM fun path => return (path, ← Files.read path) :
        StateM Machine (List (Path × Except FileError Octets)))
      ⦃⇓ files s => ⌜files = paths.map (fun path => (path, Files.readIn w path))
        ∧ s.toWorkspace = w⌝⦄ := by
    refine triple_of_run ?_
    rintro s rfl
    rw [run_readAll]
    exact ⟨rfl, rfl⟩
  have htell (e : Event) :
      ⦃fun s => ⌜Becomes made (· = path.place w.directory) w s.toWorkspace⌝⦄
      (book.tell readingLogger e : StateM Machine Unit)
      ⦃⇓ _ s => ⌜Becomes made (· = path.place w.directory) w s.toWorkspace⌝⦄ := by
    refine Logbook.becomes_tell hsound (fun log hlog => ?_) _ _
    rw [hlogs log hlog]
  have htold (batch : Batch) :
      ⦃fun s => ⌜Becomes made (· = path.place w.directory) w s.toWorkspace⌝⦄
      (do batch.events.forM (book.tell readingLogger); return batch : StateM Machine Batch)
      ⦃⇓ told s => ⌜told = batch ∧ Becomes made (· = path.place w.directory) w s.toWorkspace⌝⦄ :=
    Triple.bind _ _ (invariant_forM htell _) fun _ => Triple.pure _ fun _ hwritten =>
      ⟨rfl, hwritten⟩
  unfold readLogged
  refine Triple.bind _ _ hread fun files => ?_
  rintro s ⟨rfl, rfl⟩
  exact htold _ s (.refl _ _ _)

/-- **Reading the sources of a run** gives the report on what they hold once the log has been
opened, if it gives one, and writes nothing but the log.  The files are those of `openedFiles`,
since opening the log may itself make a file that is then found among the sources. -/
theorem readSources_onlyLogged (hready : machine.Ready) (settings : RunSettings) (verbose : Bool)
    (paths : List Path) :
    ⦃fun s => ⌜s = machine⌝⦄
    (readSources settings verbose paths : ExceptT Failure (StateM Machine) Report)
    ⦃post⟨fun report s => ⌜OnlyLogged settings machine s.toWorkspace
        ∧ (Batch.ofFiles settings.encoding settings.workers (paths.map fun path =>
            (path, Files.readIn (openedFiles settings verbose machine) path))).result = .ok report⌝,
      fun _ s => ⌜OnlyLogged settings machine s.toWorkspace⌝⟩⦄ := by
  -- The log is opened first, and the sources are read as they are after that.
  have hopen (runId : String) :
      ⦃fun s => ⌜s = machine ∧ runId = machine.runId⌝⦄
      (Logbook.setUp {} (logSetup settings verbose runId) :
        StateM Machine (Logbook × Except SetupFailure Nat))
      ⦃⇓ found s => ⌜s.toWorkspace = openedFiles settings verbose machine
        ∧ ∀ log ∈ found.1.logs, log.path = logPath settings machine.runId⌝⦄ := by
    refine triple_of_run ?_
    rintro s ⟨rfl, rfl⟩
    have hlogs := run_of_triple (setUp_onlyLogged hready settings verbose)
      (rfl : _ = s.toWorkspace)
    exact ⟨rfl, hlogs.2⟩
  have hopened := onlyLogged_openedFiles hready settings verbose
  have hread (book : Logbook)
      (hlogs : ∀ log ∈ book.logs, log.path = logPath settings machine.runId) :=
    readLogged_becomes ((logPath settings machine.runId).parent.Leads machine.directory) book
      (hopened.sound_workspace hready.sound) hlogs settings paths
  simp only [hopened.directory] at hread
  -- What the files have become does not matter from here on.
  generalize openedFiles settings verbose machine = opened at hopen hopened hread ⊢
  mvcgen [readSources, ofExcept, hopen, hread]
  case vc1.pre hsame =>
    rw [hsame]
    exact ⟨rfl, rfl⟩
  case vc2.hlogs hfound _ _ _ => exact hfound.2
  case vc3.post.success.h_1.pre hfound _ _ _ => exact hfound.1
  case vc4.post.success.h_1.post.success.h_1 hreport _ hbatch =>
    rw [← hbatch.1]
    exact ⟨hopened.trans hbatch.2, Fallible.mapError_eq_ok_iff.mp hreport⟩
  case vc5.post.success.h_1.post.success.h_2 hbatch => exact hopened.trans hbatch.2
  case vc6.post.success.h_2 hfound _ _ =>
    show OnlyLogged settings machine _
    rw [hfound.1]
    exact hopened

end CommandLine

end RuleCatalogue

/-! ## Runs whose settings do not load -/

namespace RuleCatalogue.CommandLine

open Machine Std.Do

set_option mvcgen.warning false

/-- **The settings that a request loads** before it does anything else. -/
def Request.loadSettings : Request → ExceptT Failure (StateM Machine) (Fields Value)
  | .parse common _ format destination => do
      settingsFor common (← optionsFor format destination)
  | .show common _ _ => settingsFor common []
  | .config common => settingsFor common []

variable {machine after : Machine} {request : Request} {f : Failure} {α : Type}

theorem exec_bind_of_error {α β ε : Type} {x : ExceptT ε (StateM Machine) α} {e : ε}
    (h : exec x machine = (.error e, after)) (g : α → ExceptT ε (StateM Machine) β) :
    exec (x >>= g) machine = (.error e, after) := by
  rw [exec_bind, h]

section Codecs

variable [Codecs]

/-- **A request ends** where its settings do not load: `perform` begins with them. -/
theorem exec_perform_of_error (h : exec request.loadSettings machine = (.error f, after)) :
    exec (perform request) machine = (.error f, after) := by
  cases request with
  | parse common sources format destination =>
    rw [Request.loadSettings, exec_bind] at h
    rw [perform, parseRules, exec_bind]
    cases hoptions : exec (optionsFor format destination) machine with
    | mk result mid =>
      rw [hoptions] at h
      cases result with
      | error e =>
        cases h
        rfl
      | ok options => exact exec_bind_of_error h _
  | «show» common sources rule => exact exec_bind_of_error h _
  | config common => exact exec_bind_of_error h _

/-- **A run ends** where its settings do not load, with the failure that loading gave and on the
machine that it left. -/
theorem run_of_error {arguments : List String}
    (hrequest : Request.ofArguments arguments = .ok (.perform request))
    (h : exec request.loadSettings machine = (.error f, after)) :
    (run arguments : StateM Machine Ending).run machine = (.failed f, after) := by
  have hperform := exec_perform_of_error h
  rw [exec] at hperform
  rw [run, hrequest]
  dsimp only
  rw [StateT.run_bind, hperform]
  rfl

end Codecs

/-! ## What is at fault -/

/-- The failures that concern settings. -/
def OfSettings (f : Failure) : Prop :=
  ∃ e, f = .settings e

theorem ofSettings_of_mapError {result : Except Settings.Failure α}
    (h : result.mapError Failure.settings = .error f) : OfSettings f := by
  obtain ⟨e, -, rfl⟩ := Fallible.mapError_eq_error_iff.mp h
  exact ⟨e, rfl⟩

theorem breaks_absolutePath (raw : String) :
    ⦃fun _ => ⌜True⌝⦄ (absolutePath raw : ExceptT Failure (StateM Machine) Path)
    ⦃post⟨fun _ _ => ⌜True⌝, fun f _ => ⌜OfSettings f⌝⟩⦄ := by
  mvcgen [absolutePath, ofExcept]
  exact ofSettings_of_mapError ‹_›

end RuleCatalogue.CommandLine
