import RuleCatalogue.CommandLine.Failure
import RuleCatalogue.CommandLine.Help
import RuleCatalogue.CommandLine.Summary
import RuleCatalogue.Files
import RuleCatalogue.Serialization
import RuleCatalogue.Settings.Layers

/-!
# Runs

A run does what the command line asks for.  The order of its effects decides what is left when it
is broken off: settings come first, then the source files are found, then the log is opened, then
the sources are read, and only what has been read completely is written.

## Main definitions

* `readSources` reads source files and keeps a log of it.
* `perform` does what a request asks for, and `run` reads the request from the command line.
-/

namespace RuleCatalogue.CommandLine

variable {m : Type → Type} [Monad m] [Host m]

/-- The logger of what happens while sources are read. -/
def readingLogger : String := "codenarc_converter.apt.parser"

/-- The absolute path of a text on the command line. -/
def absolutePath (raw : String) : ExceptT Failure m Path := do
  let environment ← (Host.environment : m Environment)
  let directory ← (Host.workingDirectory : m Path)
  ofExcept ((Settings.filePath environment directory (some raw)).mapError .settings)

/-- **The settings of a run**, with the options of its command line. -/
def settingsFor (common : CommonOptions) (options : Fields Value) :
    ExceptT Failure m (Fields Value) := do
  let environment ← (Host.environment : m Environment)
  let directory ← (Host.workingDirectory : m Path)
  let path ← ofExcept
    ((Settings.filePath environment directory common.settingsFile).mapError .settings)
  let contents ← (Files.read path : m (Except FileError Octets))
  ofExcept ((Settings.load environment path common.settingsFile.isSome contents
    environment.bindings options).mapError .settings)

/-- The directory in which sources are looked for. -/
def sourceDirectory (sources : SourceOptions) (settings : RunSettings) :
    ExceptT Failure m Path :=
  match sources.directory.filter fun raw => !raw.isEmpty with
  | some raw => absolutePath raw
  | none => return settings.sourceDirectory

/-- **The source files of a run**: the named ones, or those that are found. -/
def sourcePaths (sources : SourceOptions) (settings : RunSettings) :
    ExceptT Failure m (List Path) := do
  if sources.files.isEmpty then
    let directory ← sourceDirectory sources settings
    let found ← (Discovery.sourceFiles directory settings.fileStart : m (List Path))
    if found.isEmpty then throw (.noSources settings.fileStart directory)
    return found
  else return sources.files.map Path.ofText

/-- The setup of the log of a run; asking for more means that everything is logged. -/
def logSetup (settings : RunSettings) (verbose : Bool) (runId : String) : LogSetup where
  runId := runId
  directory := settings.logDirectory
  level := .named (if verbose then Level.debug.name else settings.logLevel)
  toConsole := settings.logToConsole

/-- Reads source files and writes what happens into the log. -/
def readLogged [Codecs] (settings : RunSettings) (book : Logbook) (paths : List Path) :
    m Batch := do
  let files ← paths.mapM fun path => return (path, ← Files.read path)
  let batch := Batch.ofFiles settings.encoding settings.workers files
  batch.events.forM (book.tell readingLogger)
  return batch

/-- **Reads source files and keeps a log of it.** -/
def readSources [Codecs] (settings : RunSettings) (verbose : Bool) (paths : List Path) :
    ExceptT Failure m Report := do
  let runId ← (Host.newRunId : m String)
  let (book, opened) ← (Logbook.setUp {} (logSetup settings verbose runId) :
    m (Logbook × Except SetupFailure Nat))
  let _ ← ofExcept (opened.mapError .log)
  let bookInRun := { book with correlation := book.correlation.enter [("run_id", some runId)] }
  let batch ← (readLogged settings bookInRun paths : m Batch)
  ofExcept (batch.result.mapError .reading)

/-- Shows notices one after another, up to a text that is refused. -/
def tellAll (coloured : Bool) (notices : List Notice) : ExceptT Failure m Unit :=
  (notices.forM (Notice.tell coloured)).adapt .print

/-- Prints a text as it is. -/
def printText (text : String) : ExceptT Failure m Unit :=
  (ExceptT.mk (Host.print text)).adapt .print

/-- The exit code of a run that came to its end. -/
def codeFor (report : Report) : ExitCode :=
  if report.hasFailures then .readFailure else .success

/-- The options of the command line that are settings. -/
def optionsFor (format : Option String) (destination : Destination) :
    ExceptT Failure m (Fields Value) := do
  let chosen : Fields Value := format.elim [] fun name => [("output.format", .text name)]
  match destination with
  | .file raw => return chosen ++ [("output.path", .text (← absolutePath raw).text)]
  | _ => return chosen

/-- **Parses source files and serializes their rules.** -/
def parseRules [Codecs] (common : CommonOptions) (sources : SourceOptions) (format : Option String)
    (destination : Destination) : ExceptT Failure m ExitCode := do
  let options ← optionsFor format destination
  let settings := Settings.inEffect (← settingsFor common options)
  let coloured ← (Notice.showColoured common.noColours : m Bool)
  let report ← readSources settings common.verbose (← sourcePaths sources settings)
  tellAll coloured (report.warnings common.verbose)
  let text := report.catalogue.serialize settings.format
  match destination with
  | .printed => printText text
  | _ =>
      let written ← (Files.replaceText settings.output text "utf-8" true :
        m (Except Files.WriteError Unit))
      ofExcept (written.mapError .output)
      tellAll coloured (.labelled "Wrote" settings.output.text :: report.summary)
  return codeFor report

/-- The rule that is selected, if its name is not blank. -/
def selectedRule (rule : Option String) : Option String :=
  (rule.map Text.trimmed).filter fun name => !name.isEmpty

/-- **Parses source files and lists their rules.** -/
def showRules [Codecs] (common : CommonOptions) (sources : SourceOptions) (rule : Option String) :
    ExceptT Failure m ExitCode := do
  let settings := Settings.inEffect (← settingsFor common [])
  let coloured ← (Notice.showColoured common.noColours : m Bool)
  let report ← readSources settings common.verbose (← sourcePaths sources settings)
  tellAll coloured (report.warnings common.verbose)
  let selected := selectedRule rule
  match selected.filter fun name => !report.catalogue.contains name with
  | some name => throw (.unknownRule name)
  | none => tellAll coloured (.lines (report.listings selected) :: report.summary)
  return codeFor report

/-- **Shows the settings in effect.** -/
def showSettings (common : CommonOptions) : ExceptT Failure m ExitCode := do
  let settings ← settingsFor common []
  let shown ← ofExcept ((Settings.shown settings).mapError .unwritableSettings)
  tellAll false [.lines [shown]]
  return .success

/-- **Does what a request asks for.** -/
def perform [Codecs] : Request → ExceptT Failure m ExitCode
  | .parse common sources format destination => parseRules common sources format destination
  | .show common sources rule => showRules common sources rule
  | .config common => showSettings common

/-- The number of columns that texts are laid out for. -/
def textColumns : m Int := do
  return columns (← Host.environment) (← Host.terminalColumns)

/-- Prints help.  Only its characters can be at fault, because whether a stream takes help does not
matter. -/
def printHelp (command : Option String) : m Ending := do
  match ← Host.print ((Manual.of command).help (← textColumns)) with
  | .error (.unencodable e) => return .failed (.print (.unencodable e))
  | _ => return .helped

/-- **A run**, from the words of the command line. -/
def run [Codecs] (arguments : List String) : m Ending := do
  match Request.ofArguments arguments with
  | .error e =>
      Host.printError ((Manual.of e.command).usage (← textColumns))
      return .misused e
  | .ok (.help command) => printHelp command
  | .ok (.perform request) =>
      match ← (perform request : ExceptT Failure m ExitCode).run with
      | .ok code => return .done code
      | .error f => return .failed f

end RuleCatalogue.CommandLine
