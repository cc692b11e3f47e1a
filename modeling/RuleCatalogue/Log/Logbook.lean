import RuleCatalogue.Event
import RuleCatalogue.Files
import RuleCatalogue.Log.Record
import RuleCatalogue.Path
import RuleCatalogue.Settings.Validation
import RuleCatalogue.Template

/-!
# Logs and the logbook

A setup is what has to be known to keep the log of a run; it is checked before anything is done.

The logbook holds the logs that have been opened, one after another, and what is needed to find the
log for a record.  Loggers have names with points in them: a logger belongs to the logger whose name
is its own up to a point, and all belong to the root.  A record goes up from its logger to the first
one that was set up, and into the log of that one if it is still open.

## Main definitions

* `LogSetup.check` finds the first fault or gives what the log needs.
* `LogSetup.ofSection` takes the setup from a section of the settings.
* `Logbook.setUp` opens a log and closes the one before it; a setup that is refused changes nothing.
* `Logbook.shutDown` closes a log.
* `Logbook.log` writes a record and `Logbook.tell` an event.

## Design notes

Logs are known by their positions in the logbook, which stay the same when they are closed.  The
steps on the logbook itself are plain functions; only what they do to files needs a host.
-/

/-! ## Setting up a log -/

namespace RuleCatalogue

/-- **The least severity of a log**, by its number or its name. -/
inductive LevelChoice
  | number (n : Int)
  | named (s : String)
deriving DecidableEq, Repr

/-- **What is asked of a log.** -/
structure LogSetup where
  runId : String
  directory : String := Settings.defaultLogDirectory
  logger : String := "codenarc_converter"
  level : LevelChoice := .named "INFO"
  queueSize : Int := 4096
  fileName : String := "converter.jsonl"
  toConsole : Bool := false
deriving DecidableEq, Repr

/-- **Why a log is refused.** -/
inductive SetupFault
  | noRunId
  | queueTooSmall
  /-- The name of the file is blank or has directories in it. -/
  | notFileName (given : String)
  | noLogger
  | unknownLevel (given : String)
deriving DecidableEq, Repr

/-- The wording of a fault. -/
def SetupFault.message : SetupFault → String
  | noRunId => "run_id must not be empty"
  | queueTooSmall => "queue_size must be >= 1"
  | notFileName given => "log_filename must be a bare file name, got " ++ Text.quoted given
  | noLogger => "logger_name must not be empty"
  | unknownLevel given => "unsupported logging level " ++ Text.quoted given

/-- **What a log needs.** -/
structure LogPlan where
  runId : String
  logger : String
  level : Int
  path : Path
  toConsole : Bool
deriving DecidableEq, Repr

/-- The logger that all others belong to. -/
def rootLogger : String := "root"

/-- The name of a logger; the empty name is that of the root. -/
def loggerName (s : String) : String :=
  if s.isEmpty then rootLogger else s

namespace LevelChoice

/-- The severity that is chosen. -/
def severity : LevelChoice → Except SetupFault Int
  | number n => .ok n
  | named s => (Severity.ofName? s).elim (.error (.unknownLevel s)) .ok

end LevelChoice

namespace LogSetup

/-- Whether a text is the name of a file, without directories. -/
def isFileName (s : String) : Bool :=
  !s.isEmpty && (Path.ofText s).name == s

/-- **Checks a setup**; of several faults the first is found. -/
def check (setup : LogSetup) : Except SetupFault LogPlan :=
  let runId := Text.trimmed setup.runId
  let fileName := Text.trimmed setup.fileName
  let logger := Text.trimmed setup.logger
  if runId.isEmpty then .error .noRunId
  else if setup.queueSize < 1 then .error .queueTooSmall
  else if !isFileName fileName then .error (.notFileName setup.fileName)
  else if logger.isEmpty then .error .noLogger
  else
    setup.level.severity.map fun level =>
      { runId, logger, level
        path := (Path.ofText fileName).within
          ((Path.ofText runId).within (Path.ofText setup.directory))
        toConsole := setup.toConsole }

/-- **The setup that a section of the settings asks for**, with a directory and a level that count
more than those of the section. -/
def ofSection (fields : Fields Value) (runId : String) (directory : Option String)
    (level : Option LevelChoice) : LogSetup where
  runId := runId
  directory := directory.getD
    (((fields.get? "log_dir").map Value.plainText).getD Settings.defaultLogDirectory)
  level := level.getD (.named (((fields.get? "log_level").map Value.plainText).getD "INFO"))
  toConsole := ((fields.get? "log_to_console").map Value.isTruthy).getD false

end LogSetup

end RuleCatalogue

/-! ## The logs of a book -/

namespace RuleCatalogue

/-- **A log that was opened.** -/
structure LogFile where
  runId : String
  logger : String
  path : Path
  toConsole : Bool
  isOpen : Bool
deriving DecidableEq, Repr, Inhabited

/-- **The logbook.** -/
structure Logbook where
  /-- The loggers that were set up, with their least severities. -/
  levels : Fields Int := []
  /-- The logs in the order in which they were opened. -/
  logs : List LogFile := []
  /-- The position of the log of the present run. -/
  active : Option Nat := none
  /-- Whether events are written to logs. -/
  takesEvents : Bool := false
  correlation : Correlation := {}
deriving DecidableEq, Repr

/-- **Why no log is opened.** -/
inductive SetupFailure
  | refused (fault : SetupFault)
  | file (e : FileError)
deriving DecidableEq, Repr

/-- The wording of a failure. -/
def SetupFailure.message : SetupFailure → String
  | refused fault => fault.message
  | file e => e.message

/-- **Why no record is made.** -/
inductive RecordFault
  /-- The severity has no name, and too many digits to be written. -/
  | oversizedSeverity (e : Decimal.OversizedInteger)
  /-- A further field has the name of something that a record knows itself. -/
  | clash (name : String)
deriving DecidableEq, Repr

/-- The wording of a fault. -/
def RecordFault.message : RecordFault → String
  | oversizedSeverity e => e.message
  | clash name => "Attempt to overwrite " ++ Text.quoted name ++ " in LogRecord"

namespace Logbook

/-! ## Opening and closing -/

/-- Closes the log at a position, if it is open. -/
def close (book : Logbook) (position : Nat) : Logbook :=
  match book.logs[position]? with
  | some log =>
      if log.isOpen then
        { book with
          logs := book.logs.set position { log with isOpen := false }
          takesEvents := false }
      else book
  | none => book

/-- **Closes a log**: the one at a position, or the one of the present run. -/
def shutDown (book : Logbook) (position : Option Nat) : Logbook :=
  match position.or book.active with
  | none => book
  | some position =>
      let active := if book.active = some position then none else book.active
      close { book with active } position

/-- The logbook after a log was opened; its position is the last. -/
def opened (book : Logbook) (plan : LogPlan) : Logbook :=
  let log : LogFile :=
    { runId := plan.runId, logger := loggerName plan.logger, path := plan.path
      toConsole := plan.toConsole, isOpen := true }
  { book with
    levels := book.levels.insert log.logger plan.level
    logs := book.logs ++ [log]
    active := some book.logs.length
    takesEvents := true }

/-- **The logbook after a setup that was not refused**, from what making its file gave. -/
def start (book : Logbook) (plan : LogPlan) (made : Except FileError Unit) :
    Logbook × Except SetupFailure Nat :=
  let book := book.shutDown none
  match made with
  | .error e => (book, .error (.file e))
  | .ok () => (book.opened plan, .ok book.logs.length)

/-! ## Loggers -/

/-- The names up to the points in a name, the longest first. -/
def namesAbove (s : List Char) : List (List Char) :=
  ((List.range s.length).filter fun n => n ≠ 0 && s[n]? == some '.').reverse.map s.take

/-- **A logger and those that it belongs to**, up to the root. -/
def lineage (logger : String) : List String :=
  let name := loggerName logger
  if name = rootLogger then [rootLogger]
  else name :: (namesAbove name.toList).map String.ofList ++ [rootLogger]

/-- The least severity of a logger; zero leaves it to the loggers above. -/
def levelOf (book : Logbook) (logger : String) : Int :=
  (book.levels.get? logger).getD (if logger = rootLogger then Severity.lastResort else 0)

/-- **Whether a logger takes records of a severity.** -/
def accepts (book : Logbook) (logger : String) (severity : Int) : Bool :=
  let level := (((lineage logger).map book.levelOf).find? (· != 0)).getD 0
  decide (0 < severity) && decide (level ≤ severity)

/-- **The log that gets the records of a logger.** -/
def receiver? (book : Logbook) (logger : String) : Option LogFile :=
  ((lineage logger).find? book.levels.has).bind fun above =>
    book.logs.find? fun log => log.isOpen && log.logger == above

/-! ## Records -/

variable {m : Type → Type} [Monad m] [Host m]

/-- Makes the file of a log, with its directory. -/
def makeFile (path : Path) : m (Except FileError Unit) := do
  match ← Files.makeDirectories path.parent with
  | .error e => return .error e
  | .ok () => Files.append (path.absolute (← Host.workingDirectory)) []

/-- **Sets up a log.**  The one before it is closed even if the new one cannot be opened; its
position is given. -/
def setUp (book : Logbook) (setup : LogSetup) : m (Logbook × Except SetupFailure Nat) := do
  match setup.check with
  | .error fault => return (book, .error (.refused fault))
  | .ok plan => return book.start plan (← makeFile plan.path)

/-- What is printed where a record cannot be written. -/
def recordLost : String := "--- Logging error ---\n"

/-- Writes a record into a log, that is, into its file and perhaps to the console.  Where the record
has no line, both tell of it. -/
def write (log : LogFile) (record : Record) : m Unit := do
  match record.line log.runId (← Host.timestamp) with
  | .error _ =>
      Host.printError recordLost
      if log.toConsole then Host.printError recordLost
  | .ok line =>
      let line := line ++ "\n"
      let _ ← Files.append (log.path.absolute (← Host.workingDirectory)) line.toUTF8.toList
      if log.toConsole then Host.printError line

/-- **Writes a record with its message filled**, to the log of its logger; where there is none, a
message that matters is printed. -/
def deliver (book : Logbook) (record : Record) (values : List Value) : m Unit := do
  let log := book.receiver? record.logger
  if log.isSome || decide (Severity.lastResort ≤ record.severity) then
    match Template.fill? record.message values with
    | none => Host.printError recordLost
    | some message =>
        match log with
        | some log => write log { record with message }
        | none => Host.printError (message ++ "\n")

/-- **Writes a record**, if its logger takes it and the record can be made. -/
def log (book : Logbook) (logger : String) (severity : Int) (message : String)
    (values : List Value) (extras : Fields Value) : m (Except RecordFault Unit) := do
  if book.accepts logger severity then
    if Decimal.Short severity then
      match Record.clash? extras with
      | some name => return .error (.clash name)
      | none =>
          book.deliver
            { severity, logger := loggerName logger, message, correlation := book.correlation.bound
              extras } values
          return .ok ()
    else return .error (.oversizedSeverity ⟨⟩)
  else return .ok ()

/-- The names of what steers an event and is no field of its record. -/
def steeringNames : List String :=
  ["exc_info", "stack_info", "stacklevel"]

/-- **Writes an event**, if a log takes events. -/
def event (book : Logbook) (logger : String) (severity : Int) (name : String)
    (fields : Fields Value) : m (Except RecordFault Unit) := do
  if book.takesEvents then
    book.log logger severity name [] (fields.filter fun (name, _) => !steeringNames.contains name)
  else return .ok ()

/-- **Writes what happened**; a record of it can always be made. -/
def tell (book : Logbook) (logger : String) (e : Event) : m Unit := do
  let _ ← book.event logger e.level.number e.name e.fields

end Logbook

end RuleCatalogue
