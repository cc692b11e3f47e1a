import RuleCatalogue.Log.Logbook
import RuleCatalogue.Proofs.Fallible
import RuleCatalogue.Proofs.Files
import RuleCatalogue.Proofs.Table
import RuleCatalogue.Proofs.Text.Substring

/-!
# Logs that are written and logs that are open

Opening a log makes the directories that lead to it and the file; from then on lines are added to
its end.  No other file is touched, whatever happens: a record either goes into a log of the book or
is printed as an error.

Logs are opened and closed in any order, some of them more than once, and some cannot be opened at
all.  At every point no more than one of them is open, it is the log of the present run, and events
go to a log exactly while there is one.  A setup that is refused changes nothing, and neither does
closing a log that is closed.

## Main definitions

* `LogSetup.Refusable` says which setups are refused.
* `Logbook.Call` is a setup or a shutdown, and `Logbook.afterAll` what calls leave of a book.
* `Logbook.Consistent` is what every call keeps, and `Logbook.Orderly` what it comes to.

## Main results

* `Logbook.invariant_tell`: what holds of writing an event because it holds of adding to the logs.
* `Logbook.becomes_makeFile`, `Logbook.becomes_tell`: the places that opening a log and writing into
  it touch.
* `Logbook.setUp_cases` and `Logbook.Consistent.shutDown_cases`: what a call can do.
* `Logbook.Consistent.next` and `Logbook.consistent_afterAll`: what one call keeps, and then all.
* `Logbook.orderly_afterAll`: the order after any calls.

## Design notes

A call of a setup has a machine of its own.  So between calls anything may happen to the files, and
each setup may fail to make its file.
-/

/-! ## What keeping a log changes -/

namespace RuleCatalogue

open Std.Do

set_option mvcgen.warning false

theorem Path.place_absolute {directory : Place} (h : ".." ∉ directory) (p : Path) :
    (p.absolute ⟨.root, directory⟩).place directory = p.place directory := by
  have habsolute : (p.absolute ⟨.root, directory⟩).isAbsolute := rfl
  have hplain : ".." ∉ (p.absolute ⟨.root, directory⟩).segments :=
    not_mem_segments_resolved (isAbsolute_within rfl p)
  rw [place_of_not_mem hplain, if_pos habsolute, List.nil_append, segments_absolute h]

namespace Logbook

open Machine Workspace

variable {I : Machine → Prop} {book : Logbook} {w : Workspace} {made touched : Place → Prop}

/-! ## The steps -/

/-- Adds to the file at a path that is seen from the working directory. -/
def appendAt (path : Path) (more : Octets) : StateM Machine (Except FileError Unit) := do
  Files.append (path.absolute (← Host.workingDirectory)) more

theorem makeFile_eq (path : Path) :
    (makeFile path : StateM Machine (Except FileError Unit)) = (do
      match ← Files.makeDirectories path.parent with
      | .error e => return .error e
      | .ok () => appendAt path []) :=
  rfl

theorem write_eq (log : LogFile) (record : Record) :
    (write log record : StateM Machine Unit) = (do
      match record.line log.runId (← Host.timestamp) with
      | .error _ =>
          Host.printError recordLost
          if log.toConsole then Host.printError recordLost
      | .ok line =>
          let _ ← appendAt log.path (line ++ "\n").toUTF8.toList
          if log.toConsole then Host.printError (line ++ "\n")) :=
  rfl

/-- **A record without a line** changes no file: that it was lost is told on the stream of errors,
and told again where the log goes to the console, whose handler formats the record once more. -/
theorem run_write_of_error {log : LogFile} {record : Record} {machine : Machine}
    {e : Decimal.OversizedInteger} (h : record.line log.runId machine.timestamp = .error e) :
    (write log record : StateM Machine Unit).run machine
      = ((), if log.toConsole then (machine.addError recordLost).addError recordLost
          else machine.addError recordLost) := by
  have htime : StateT.run (Host.timestamp : StateM Machine String) machine
      = (machine.timestamp, machine) := rfl
  rw [write_eq, StateT.run_bind, htime]
  show StateT.run (match record.line log.runId machine.timestamp with
    | .error _ => _
    | .ok line => _) machine = _
  rw [h]
  cases log.toConsole <;> rfl

/-- The log that gets a record is one of the book. -/
theorem mem_of_receiver? {logger : String} {log : LogFile} (h : book.receiver? logger = some log) :
    log ∈ book.logs := by
  obtain ⟨above, -, hfound⟩ := Option.bind_eq_some_iff.mp h
  exact List.mem_of_find?_eq_some hfound

section Steps

variable (hprint : ∀ machine text, I machine → I (machine.addError text))
  (happend : ∀ log ∈ book.logs, ∀ more,
    ⦃fun s => ⌜I s⌝⦄ appendAt log.path more ⦃⇓ _ s => ⌜I s⌝⦄)

include hprint happend

theorem invariant_write {log : LogFile} (hlog : log ∈ book.logs) (record : Record) :
    ⦃fun s => ⌜I s⌝⦄ (write log record : StateM Machine Unit) ⦃⇓ _ s => ⌜I s⌝⦄ := by
  have hadd := happend log hlog
  rw [write_eq]
  mvcgen [hadd]
  · exact hprint _ _ (hprint _ _ ‹_›)
  · exact hprint _ _ ‹_›
  · exact hprint _ _ ‹_›

theorem invariant_deliver (record : Record) (values : List Value) :
    ⦃fun s => ⌜I s⌝⦄ (book.deliver record values : StateM Machine Unit) ⦃⇓ _ s => ⌜I s⌝⦄ := by
  have hwrite (log : LogFile) (h : book.receiver? record.logger = some log) (record : Record) :=
    invariant_write hprint happend (mem_of_receiver? h) record
  mvcgen [Logbook.deliver, hwrite]
  · exact hprint _ _ ‹_›
  · exact fun _ _ => ‹_›
  · exact hprint _ _ ‹_›

/-- **Writing an event** leaves true what adding to the logs of the book and printing errors do.
The two are the only requests that it makes, which the hypotheses on `I` name. -/
theorem invariant_tell (logger : String) (e : Event) :
    ⦃fun s => ⌜I s⌝⦄ (book.tell logger e : StateM Machine Unit) ⦃⇓ _ s => ⌜I s⌝⦄ := by
  have hdeliver := invariant_deliver hprint happend
  mvcgen [Logbook.tell, event, Logbook.log, hdeliver]

end Steps

/-! ## The places -/

/-- Adding to a log touches its file alone. -/
theorem becomes_appendAt (hsound : w.Sound) (path : Path) (h : touched (path.place w.directory))
    (more : Octets) :
    ⦃fun s => ⌜Becomes made touched w s.toWorkspace⌝⦄ appendAt path more
    ⦃⇓ _ s => ⌜Becomes made touched w s.toWorkspace⌝⦄ := by
  rw [← Path.place_absolute hsound.plain path] at h
  have hadd := @Files.becomes_append made touched w hsound _ h more
  intro machine hmachine
  -- The working directory is still that of the beginning.
  rw [← Becomes.directory hmachine] at hadd
  exact hadd machine hmachine

/-- **Opening a log** makes the directories that lead to it, and touches its file alone.  What the
file held stays in it, since a log is opened for appending. -/
theorem becomes_makeFile (hsound : w.Sound) (path : Path) :
    ⦃fun s => ⌜Becomes (path.parent.Leads w.directory) (· = path.place w.directory) w
      s.toWorkspace⌝⦄
    (makeFile path : StateM Machine (Except FileError Unit))
    ⦃⇓ _ s => ⌜Becomes (path.parent.Leads w.directory) (· = path.place w.directory) w
      s.toWorkspace⌝⦄ := by
  have hmake := @Files.becomes_makeDirectories (· = path.place w.directory) w hsound path.parent
  have hadd := @becomes_appendAt w (path.parent.Leads w.directory) (· = path.place w.directory)
    hsound path rfl []
  rw [makeFile_eq]
  mvcgen [hmake, hadd]

/-- **Writing an event** touches the files of the logs alone.  `hlogs` may allow more places than
those, so that events of several books can be put together. -/
theorem becomes_tell (hsound : w.Sound)
    (hlogs : ∀ log ∈ book.logs, touched (log.path.place w.directory)) (logger : String)
    (e : Event) :
    ⦃fun s => ⌜Becomes made touched w s.toWorkspace⌝⦄
    (book.tell logger e : StateM Machine Unit)
    ⦃⇓ _ s => ⌜Becomes made touched w s.toWorkspace⌝⦄ :=
  invariant_tell (fun _ _ hmachine => hmachine)
    (fun log hlog => becomes_appendAt hsound log.path (hlogs log hlog)) logger e

end Logbook

end RuleCatalogue

/-! ## One log at a time -/

namespace RuleCatalogue

/-! ## Setups that are refused -/

/-- **A setup that is refused**: the name of its run is blank, its queue has no room, its file has
no name of its own, the name of its logger is blank, or no severity has the name that it gives. -/
def LogSetup.Refusable (setup : LogSetup) : Prop :=
  Text.isBlankText setup.runId ∨ setup.queueSize < 1
    ∨ LogSetup.isFileName (Text.trimmed setup.fileName) = false ∨ Text.isBlankText setup.logger
    ∨ ∃ name, setup.level = .named name ∧ Severity.ofName? name = none

namespace LogSetup

variable {setup : LogSetup}

theorem severity_eq_error_iff {level : LevelChoice} :
    (∃ fault, level.severity = .error fault)
      ↔ ∃ name, level = .named name ∧ Severity.ofName? name = none := by
  cases level with
  | number n => simp [LevelChoice.severity]
  | named name =>
    cases h : Severity.ofName? name with
    | none => simp [LevelChoice.severity, h]
    | some n => simp [LevelChoice.severity, h]

theorem check_eq_error_iff : (∃ fault, setup.check = .error fault) ↔ setup.Refusable := by
  unfold check Refusable
  simp only [Text.isEmpty_trimmed]
  split
  · next h => exact iff_of_true ⟨_, rfl⟩ (.inl h)
  split
  · next h => exact iff_of_true ⟨_, rfl⟩ (.inr (.inl h))
  split
  · next h => exact iff_of_true ⟨_, rfl⟩ (.inr (.inr (.inl (by simpa using h))))
  split
  · next h => exact iff_of_true ⟨_, rfl⟩ (.inr (.inr (.inr (.inl h))))
  next hrun hqueue hfile hlogger =>
    -- Behind the other checks the level alone decides.
    have hnamed : ¬ isFileName (Text.trimmed setup.fileName) = false := by simpa using hfile
    simp only [Fallible.map_eq_error_iff, severity_eq_error_iff, or_iff_right hrun,
      or_iff_right hqueue, or_iff_right hnamed, or_iff_right hlogger]

end LogSetup

namespace Logbook

variable {book : Logbook}

/-! ## What a call does -/

/-- **The log at a position is open.** -/
def IsLive (book : Logbook) (i : Nat) : Prop :=
  ∃ log, book.logs[i]? = some log ∧ log.isOpen

/-- **A setup or a shutdown**, a setup with the machine that it finds. -/
inductive Call
  | setUp (setup : LogSetup) (machine : Machine)
  | shutDown (position : Option Nat)

/-- **One call**, be it a setup or a shutdown, refused or not, keeps the book consistent. -/
def next (book : Logbook) : Call → Logbook
  | .setUp setup machine => ((book.setUp setup : StateM Machine _).run machine).1.1
  | .shutDown position => book.shutDown position

/-- **What calls leave**, one after another from an empty book. -/
def afterAll (calls : List Call) : Logbook :=
  calls.foldl next {}

/-- **What a setup does.** It is refused and changes nothing, or the log before it is closed; then
its file cannot be made, or its own log is opened.  The log before is closed even where the new one
then fails to open, which is the second case. -/
theorem setUp_cases (book : Logbook) (setup : LogSetup) (machine : Machine) :
    (∃ fault, setup.check = .error fault
        ∧ (book.setUp setup : StateM Machine _).run machine
          = ((book, .error (.refused fault)), machine))
      ∨ (∃ plan, setup.check = .ok plan
        ∧ ((∃ e after, (book.setUp setup : StateM Machine _).run machine
            = ((book.shutDown none, .error (.file e)), after))
          ∨ ∃ after, (book.setUp setup : StateM Machine _).run machine
            = (((book.shutDown none).opened plan, .ok (book.shutDown none).logs.length),
              after))) := by
  unfold setUp
  cases setup.check with
  | error fault => exact .inl ⟨fault, rfl, rfl⟩
  | ok plan =>
    have hrun : ((do return book.start plan (← makeFile plan.path)) : StateM Machine _).run machine
        = (book.start plan ((makeFile plan.path : StateM Machine _).run machine).1,
          ((makeFile plan.path : StateM Machine _).run machine).2) := rfl
    refine .inr ⟨plan, rfl, ?_⟩
    dsimp only
    rw [hrun]
    cases ((makeFile plan.path : StateM Machine _).run machine).1 with
    | error e => exact .inl ⟨e, _, rfl⟩
    | ok _ => exact .inr ⟨_, rfl⟩

/-- The book after the log of the present run was closed. -/
def ended (book : Logbook) (i : Nat) (log : LogFile) : Logbook :=
  { book with
    logs := book.logs.set i { log with isOpen := false }
    active := none
    takesEvents := false }

/-! ## What every call keeps -/

/-- **A consistent book**: the open log is that of the present run, events are taken while there is
one, and its logger was set up under its own name. -/
structure Consistent (book : Logbook) : Prop where
  live_iff : ∀ i, book.IsLive i ↔ book.active = some i
  takes : book.takesEvents = book.active.isSome
  known : ∀ log ∈ book.logs, log.isOpen →
    loggerName log.logger = log.logger ∧ book.levels.has log.logger

theorem loggerName_loggerName (s : String) : loggerName (loggerName s) = loggerName s := by
  by_cases h : s.isEmpty
  · have hroot : loggerName s = rootLogger := if_pos h
    rw [hroot]
    rfl
  · have hsame : loggerName s = s := if_neg h
    rw [hsame, hsame]

theorem consistent_empty : Consistent {} where
  live_iff i := iff_of_false (fun ⟨_, hlog, _⟩ => by cases hlog) nofun
  takes := rfl
  known := nofun

namespace Consistent

variable (h : Consistent book)
include h

/-- **What a shutdown does**: nothing, or it closes the log of the present run.  It does nothing to
a log that was closed before or that another setup has replaced, which is what `IsLive` says. -/
theorem shutDown_cases (position : Option Nat) :
    book.shutDown position = book ∧ (∀ i, position.or book.active = some i → ¬ book.IsLive i)
      ∨ ∃ i log, position.or book.active = some i ∧ book.active = some i
        ∧ book.logs[i]? = some log ∧ book.shutDown position = book.ended i log := by
  unfold shutDown
  cases hposition : position.or book.active with
  | none => exact .inl ⟨rfl, nofun⟩
  | some i =>
    by_cases hactive : book.active = some i
    · obtain ⟨log, hlog, hopen⟩ := (h.live_iff i).mpr hactive
      refine .inr ⟨i, log, rfl, hactive, hlog, ?_⟩
      simp only [close, if_pos hactive, hlog, if_pos hopen]
      rfl
    · have hclosed : ¬ book.IsLive i := fun hlive => hactive ((h.live_iff i).mp hlive)
      refine .inl ⟨?_, ?_⟩
      · simp only [if_neg hactive, close]
        split
        · next log hlog => exact if_neg fun hopen => hclosed ⟨log, hlog, hopen⟩
        · rfl
      · rintro _ ⟨⟩
        exact hclosed

theorem not_isLive_ended {i : Nat} {log : LogFile} (hactive : book.active = some i) (j : Nat) :
    ¬ (book.ended i log).IsLive j := by
  rintro ⟨other, hother, hopen⟩
  rw [ended, List.getElem?_set] at hother
  split at hother
  · split at hother
    · cases hother
      cases hopen
    · cases hother
  · next hne =>
    have hlive := (h.live_iff j).mp ⟨other, hother, hopen⟩
    exact hne (Option.some.inj (hactive.symm.trans hlive))

theorem ended {i : Nat} {log : LogFile} (hactive : book.active = some i) :
    Consistent (book.ended i log) where
  live_iff j := iff_of_false (h.not_isLive_ended hactive j) nofun
  takes := rfl
  known other hother hopen := by
    obtain ⟨j, hj⟩ := List.mem_iff_getElem?.mp hother
    exact absurd ⟨other, hj, hopen⟩ (h.not_isLive_ended hactive j)

theorem shutDown (position : Option Nat) : Consistent (book.shutDown position) := by
  rcases h.shutDown_cases position with ⟨hsame, -⟩ | ⟨i, log, -, hactive, -, hended⟩
  · rwa [hsame]
  · rw [hended]
    exact h.ended hactive

/-- The log that a shutdown is about is closed behind it. -/
theorem not_isLive_shutDown {position : Option Nat} {i : Nat}
    (hi : position.or book.active = some i) : ¬ (book.shutDown position).IsLive i := by
  rcases h.shutDown_cases position with ⟨hsame, hclosed⟩ | ⟨j, log, -, hactive, -, hended⟩
  · rw [hsame]
    exact hclosed i hi
  · rw [hended]
    exact h.not_isLive_ended hactive i

theorem active_shutDown_none : (book.shutDown none).active = none := by
  rcases h.shutDown_cases none with ⟨hsame, hclosed⟩ | ⟨i, log, -, -, -, hended⟩
  · rw [hsame]
    refine Option.eq_none_iff_forall_ne_some.mpr fun i hi => hclosed i ?_ ((h.live_iff i).mpr hi)
    rwa [Option.none_or]
  · rw [hended]
    rfl

/-- **Opening a log** while none is open keeps the book consistent.  `hactive` is not asked of the
caller: `setUp_cases` shuts down the log before. -/
theorem opened (hactive : book.active = none) (plan : LogPlan) :
    Consistent (book.opened plan) := by
  have hnone (i : Nat) (log : LogFile) (hlog : book.logs[i]? = some log) : ¬ log.isOpen := by
    intro hopen
    have hlive := (h.live_iff i).mp ⟨log, hlog, hopen⟩
    rw [hactive] at hlive
    cases hlive
  refine ⟨fun i => ?_, rfl, fun log hlog hopen => ?_⟩
  · constructor
    · rintro ⟨log, hlog, hopen⟩
      rw [Logbook.opened, List.getElem?_append] at hlog
      split at hlog
      · exact absurd hopen (hnone i log hlog)
      · next hle =>
        rw [List.getElem?_singleton] at hlog
        split at hlog
        · next hlast =>
          have hi : book.logs.length = i := by omega
          exact congrArg some hi
        · cases hlog
    · rintro ⟨⟩
      exact ⟨_, List.getElem?_concat_length, rfl⟩
  · rcases List.mem_append.mp hlog with hearlier | hnew
    · obtain ⟨i, hi⟩ := List.mem_iff_getElem?.mp hearlier
      exact absurd hopen (hnone i log hi)
    · obtain rfl := List.mem_singleton.mp hnew
      refine ⟨loggerName_loggerName plan.logger, ?_⟩
      rw [Logbook.opened, Fields.has, Fields.get?_insert, if_pos rfl]
      rfl

/-- **One call.** -/
theorem next (call : Call) : Consistent (book.next call) := by
  cases call with
  | shutDown position => exact h.shutDown position
  | setUp setup machine =>
    show Consistent ((book.setUp setup : StateM Machine _).run machine).1.1
    rcases setUp_cases book setup machine with
      ⟨fault, -, hrun⟩ | ⟨plan, -, ⟨e, after, hrun⟩ | ⟨after, hrun⟩⟩
    · rwa [hrun]
    · rw [hrun]
      exact h.shutDown none
    · rw [hrun]
      exact (h.shutDown none).opened h.active_shutDown_none plan

end Consistent

/-- **All calls** leave the book consistent, by induction on them from the empty book. -/
theorem consistent_afterAll (calls : List Call) : (afterAll calls).Consistent := by
  have hfold (book : Logbook) (h : book.Consistent) : (calls.foldl next book).Consistent := by
    induction calls generalizing book with
    | nil => exact h
    | cons call rest ih => exact ih _ (h.next call)
  exact hfold {} consistent_empty

/-! ## Where events go -/

namespace Consistent

variable (h : Consistent book)
include h

theorem isLive_unique {i j : Nat} (hi : book.IsLive i) (hj : book.IsLive j) : i = j :=
  Option.some.inj (((h.live_iff i).mp hi).symm.trans ((h.live_iff j).mp hj))

theorem takesEvents_iff : book.takesEvents ↔ ∃ i, book.IsLive i := by
  rw [h.takes, Option.isSome_iff_exists]
  exact exists_congr fun i => (h.live_iff i).symm

/-- A log that is found open is that of the present run. -/
theorem active_of_find? {log : LogFile} {above : String}
    (hfound : (book.logs.find? fun other => other.isOpen && other.logger == above) = some log) :
    ∃ i, book.active = some i ∧ book.logs[i]? = some log := by
  have hboth : (log.isOpen && log.logger == above) = true := by simpa using List.find?_some hfound
  obtain ⟨i, hi⟩ := List.mem_iff_getElem?.mp (List.mem_of_find?_eq_some hfound)
  exact ⟨i, (h.live_iff i).mp ⟨log, hi, (Bool.and_eq_true_iff.mp hboth).1⟩, hi⟩

/-- The open log gets the records of its logger. -/
theorem receiver?_eq {i : Nat} {log : LogFile} (hlog : book.logs[i]? = some log)
    (hopen : log.isOpen) : book.receiver? log.logger = some log := by
  obtain ⟨hname, hhas⟩ := h.known log (List.mem_of_getElem? hlog) hopen
  have hlineage :
      ((lineage log.logger).find? fun above => book.levels.has above) = some log.logger := by
    rw [lineage, hname]
    split
    · next hroot => rw [List.find?_singleton, ← hroot, if_pos hhas]
    · simp only [List.cons_append, List.find?_cons, hhas]
  have hsome :
      (book.logs.find? fun other => other.isOpen && other.logger == log.logger).isSome := by
    rw [List.find?_isSome]
    exact ⟨log, List.mem_of_getElem? hlog, by simp [hopen]⟩
  obtain ⟨found, hfound⟩ := Option.isSome_iff_exists.mp hsome
  obtain ⟨j, hactive, hj⟩ := h.active_of_find? hfound
  obtain rfl := h.isLive_unique ⟨log, hlog, hopen⟩ ((h.live_iff j).mpr hactive)
  rw [receiver?, hlineage, Option.bind_some, hfound, ← hj, hlog]

/-- **An event of the logger of the open log** is written into it, unless its severity can have no
name. -/
theorem event_eq_write {i : Nat} {log : LogFile} (hlog : book.logs[i]? = some log)
    (hopen : log.isOpen) {severity : Int} (haccepts : book.accepts log.logger severity)
    (name : String) {fields : Fields Value}
    (hclash : Record.clash? (fields.filter fun field => !steeringNames.contains field.1) = none) :
    (book.event log.logger severity name fields : StateM Machine _) =
      if Decimal.Short severity then do
        write log
          { severity, logger := log.logger, message := name, correlation := book.correlation.bound
            extras := fields.filter fun field => !steeringNames.contains field.1 }
        return .ok ()
      else return .error (.oversizedSeverity ⟨⟩) := by
  obtain ⟨hname, -⟩ := h.known log (List.mem_of_getElem? hlog) hopen
  have htakes : book.takesEvents := h.takesEvents_iff.mpr ⟨i, log, hlog, hopen⟩
  have hreceiver := h.receiver?_eq hlog hopen
  rw [event, if_pos htakes, Logbook.log, if_pos haccepts, hclash, hname]
  simp only [deliver, hreceiver, Option.isSome_some, Bool.true_or, if_true]
  rfl

end Consistent

/-- From some severity on a logger takes all records. -/
theorem exists_least (book : Logbook) (logger : String) :
    ∃ least, ∀ severity, least ≤ severity → book.accepts logger severity := by
  let level := (((lineage logger).map book.levelOf).find? (· != 0)).getD 0
  refine ⟨max 1 level, fun severity h => ?_⟩
  have hpositive : 0 < severity := by omega
  have hlevel : level ≤ severity := by omega
  exact Bool.and_eq_true_iff.mpr ⟨decide_eq_true hpositive, decide_eq_true hlevel⟩

/-! ## Order -/

/-- **An orderly book.** -/
structure Orderly (book : Logbook) : Prop where
  /-- No more than one log is open. -/
  unique : ∀ i j, book.IsLive i → book.IsLive j → i = j
  /-- The open log is that of the present run. -/
  active_iff : ∀ i, book.active = some i ↔ book.IsLive i
  /-- Events are taken while a log is open. -/
  takesEvents_iff : book.takesEvents ↔ ∃ i, book.IsLive i
  /-- The events of its logger that matter enough are written into it; where a severity has more
  digits than a name can, the call fails instead. -/
  routed : ∀ (i : Nat) log, book.logs[i]? = some log → log.isOpen →
    ∃ least, ∀ severity, least ≤ severity → ∀ name fields,
      Record.clash? (fields.filter fun field => !steeringNames.contains field.1) = none →
        (book.event log.logger severity name fields : StateM Machine _) =
          if Decimal.Short severity then do
            write log
              { severity, logger := log.logger, message := name
                correlation := book.correlation.bound
                extras := fields.filter fun field => !steeringNames.contains field.1 }
            return .ok ()
          else return .error (.oversizedSeverity ⟨⟩)
  /-- No record goes into another log. -/
  receiver : ∀ logger log, book.receiver? logger = some log →
    ∃ i : Nat, book.active = some i ∧ book.logs[i]? = some log
  /-- Events do nothing while no log is open. -/
  silent : (∀ i, ¬ book.IsLive i) → ∀ logger severity name fields,
    (book.event logger severity name fields : StateM Machine _) = return .ok ()
  /-- What is refused is known from the setup alone, and changes nothing. -/
  refused_iff : ∀ setup machine,
    (∃ fault, (book.setUp setup : StateM Machine _).run machine
      = ((book, .error (.refused fault)), machine)) ↔ setup.Refusable
  /-- A log that is opened gets a position of its own, and is open. -/
  accepted : ∀ setup machine after i machine',
    (book.setUp setup : StateM Machine _).run machine = ((after, .ok i), machine') →
      i = book.logs.length ∧ after.IsLive i
  /-- Where a file cannot be made, no log is left open. -/
  failed : ∀ setup machine after e machine',
    (book.setUp setup : StateM Machine _).run machine = ((after, .error (.file e)), machine') →
      ∀ i, ¬ after.IsLive i
  /-- A log that is named, or else that of the present run, is closed by a shutdown. -/
  closed : ∀ position i, position.or book.active = some i → ¬ (book.shutDown position).IsLive i
  /-- To close a log that is not open changes nothing. -/
  stale : ∀ i, ¬ book.IsLive i → book.shutDown (some i) = book

theorem length_logs_shutDown (book : Logbook) (position : Option Nat) :
    (book.shutDown position).logs.length = book.logs.length := by
  unfold shutDown
  split
  · rfl
  · dsimp only [close]
    split
    · split
      · exact List.length_set
      · rfl
    · rfl

theorem Consistent.orderly (h : Consistent book) : Orderly book where
  unique _ _ := h.isLive_unique
  active_iff i := (h.live_iff i).symm
  takesEvents_iff := h.takesEvents_iff
  routed i log hlog hopen := by
    obtain ⟨least, hleast⟩ := book.exists_least log.logger
    refine ⟨least, fun severity hle name fields hclash => ?_⟩
    exact h.event_eq_write hlog hopen (hleast severity hle) name hclash
  receiver logger log hreceiver := by
    obtain ⟨above, -, hfound⟩ := Option.bind_eq_some_iff.mp hreceiver
    exact h.active_of_find? hfound
  silent hnone logger severity name fields := by
    have htakes : ¬ book.takesEvents := fun htakes => by
      obtain ⟨i, hlive⟩ := h.takesEvents_iff.mp htakes
      exact hnone i hlive
    rw [event, if_neg htakes]
  refused_iff setup machine := by
    rw [← LogSetup.check_eq_error_iff]
    rcases setUp_cases book setup machine with
      ⟨fault, hcheck, hrun⟩ | ⟨plan, hcheck, ⟨e, _, hrun⟩ | ⟨_, hrun⟩⟩
    · exact iff_of_true ⟨fault, hrun⟩ ⟨fault, hcheck⟩
    · refine iff_of_false (fun ⟨_, hrefused⟩ => ?_) (fun ⟨_, hfault⟩ => ?_)
      · simpa using congrArg (·.1.2) (hrun.symm.trans hrefused)
      · cases hcheck.symm.trans hfault
    · refine iff_of_false (fun ⟨_, hrefused⟩ => ?_) (fun ⟨_, hfault⟩ => ?_)
      · simpa using congrArg (·.1.2) (hrun.symm.trans hrefused)
      · cases hcheck.symm.trans hfault
  accepted setup machine after i machine' hresult := by
    rcases setUp_cases book setup machine with
      ⟨_, -, hrun⟩ | ⟨plan, -, ⟨_, _, hrun⟩ | ⟨_, hrun⟩⟩
    · cases hrun.symm.trans hresult
    · cases hrun.symm.trans hresult
    · cases hrun.symm.trans hresult
      refine ⟨length_logs_shutDown book none, ?_⟩
      exact (((h.shutDown none).opened h.active_shutDown_none plan).live_iff _).mpr rfl
  failed setup machine after e machine' hresult i hlive := by
    rcases setUp_cases book setup machine with
      ⟨_, -, hrun⟩ | ⟨_, -, ⟨_, _, hrun⟩ | ⟨_, hrun⟩⟩
    · cases hrun.symm.trans hresult
    · cases hrun.symm.trans hresult
      have hactive := ((h.shutDown none).live_iff i).mp hlive
      rw [h.active_shutDown_none] at hactive
      cases hactive
    · cases hrun.symm.trans hresult
  closed position i hi := h.not_isLive_shutDown hi
  stale i hclosed := by
    rcases h.shutDown_cases (some i) with ⟨hsame, -⟩ | ⟨j, log, hi, hactive, -, -⟩
    · exact hsame
    · cases hi
      exact absurd ((h.live_iff i).mpr hactive) hclosed

/-- **One log at a time**: whatever logs are opened and closed, the book is orderly.  The induction
carries `Consistent`, from which being orderly is read off. -/
theorem orderly_afterAll (calls : List Call) : (afterAll calls).Orderly :=
  (consistent_afterAll calls).orderly

end Logbook

end RuleCatalogue
