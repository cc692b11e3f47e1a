import RuleCatalogue.CommandLine.Request
import RuleCatalogue.Log.Logbook
import RuleCatalogue.Settings.Layers
import RuleCatalogue.Text.Character
import RuleCatalogue.Value

/-!
# How a run ends

A run reports how it ended by a number, its exit code.

A run that is broken off tells why.  Failures that a user can mend are foreseen; the others end in
an internal error.
-/

/-! ## Exit codes -/

namespace RuleCatalogue

/-- **How a run ended.** -/
inductive ExitCode
  | success
  /-- Some source file could not be read. -/
  | readFailure
  /-- The command line, the settings or a file that is needed are at fault. -/
  | settingsError
  | internalError
deriving DecidableEq, Repr

namespace ExitCode

/-- The number of an exit code. -/
def number : ExitCode → Nat
  | success => 0
  | readFailure => 1
  | settingsError => 2
  | internalError => 3

/-- The exit codes in the order of their numbers. -/
def all : List ExitCode :=
  [success, readFailure, settingsError, internalError]

/-- The exit code with a number. -/
def ofNumber? (n : Int) : Option ExitCode :=
  all.find? fun code => Int.ofNat code.number == n

theorem ofNumber?_number (code : ExitCode) : ofNumber? code.number = some code := by
  cases code <;> decide

/-- The number of a whole number or a truth value. -/
def wholeNumber? : Value → Option Int
  | .int n => some n
  | .bool b => some (if b then 1 else 0)
  | _ => none

/-- **The exit code of a run that ends with a value**, and what it prints as an error.  Nothing is
success and a number stands for its exit code; anything else is an error, and a text tells which. -/
def ofValue (v : Value) : ExitCode × String :=
  match v, (wholeNumber? v).bind ofNumber? with
  | .null, _ => (success, "")
  | _, some code => (code, "")
  | .text s, none =>
      let message := Text.trimmed s
      (internalError, if message.isEmpty then "" else message ++ "\n")
  | _, none => (internalError, "")

end ExitCode

end RuleCatalogue

/-! ## Failures and endings -/

namespace RuleCatalogue.CommandLine

/-- **Why a run is broken off.** -/
inductive Failure
  | settings (e : Settings.Failure)
  /-- No source file is in the directory. -/
  | noSources (fileStart : String) (directory : Path)
  | log (e : SetupFailure)
  | reading (b : Breakdown)
  | unknownRule (rule : String)
  /-- An integer in the settings has too many digits to be shown. -/
  | unwritableSettings (e : Decimal.OversizedInteger)
  | output (e : Files.WriteError)
  /-- What should be printed is refused. -/
  | print (fault : PrintFault)

namespace Failure

/-- The wording of a failure. -/
def message : Failure → String
  | settings e => e.message
  | noSources fileStart directory =>
      "no rule documentation files matching " ++ fileStart ++ "* in " ++ directory.text
  | log e => e.message
  | reading b => b.message
  | unknownRule rule => "rule not found: " ++ rule
  | unwritableSettings e => e.message
  | output e => e.message
  | print fault => fault.message

/-- **Whether a failure is foreseen.**  The files of the output and of the log may be at fault, but
not their names; and a stream may refuse what is printed, but not for its characters. -/
def isForeseen : Failure → Bool
  | settings e => e.isForeseen
  | noSources _ _ => true
  | log (.file (.refused _ _ _)) => true
  | log _ => false
  | reading _ => false
  | unknownRule _ => true
  | unwritableSettings _ => false
  | output (.file (.refused _ _ _)) => true
  | output _ => false
  | print (.refused _) => true
  | print (.unencodable _) => false

end Failure

/-- **How a run ends.** -/
inductive Ending
  /-- Help was asked for. -/
  | helped
  | done (code : ExitCode)
  /-- The command line is no request. -/
  | misused (e : UsageError)
  | failed (f : Failure)

namespace Ending

/-- **The exit code of a run.** -/
def exitCode : Ending → ExitCode
  | helped => .success
  | done code => code
  | misused _ => .settingsError
  | failed f => if f.isForeseen then .settingsError else .internalError

/-- **What is printed at last**, as an error. -/
def errorText : Ending → String
  | helped => ""
  | done _ => ""
  | misused e => e.message ++ "\n"
  | failed f => (if f.isForeseen then "error: " else "internal error: ") ++ f.message ++ "\n"

end Ending

end RuleCatalogue.CommandLine
