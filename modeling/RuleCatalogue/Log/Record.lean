import RuleCatalogue.Json
import RuleCatalogue.Table
import RuleCatalogue.Text.Character
import RuleCatalogue.Text.Substring

/-!
# Log records

How much a record matters is a number; some numbers have names.

Fields that are bound while something is done stand in every record of that time.  A scope binds
fields and gives back, when it is left, what they hid.

A record becomes one line of JSON.  The fields that are bound stand beside the record's own and
replace them where they share a name; of the further fields three stand beside them too, and the
others stand together under one name.

## Main definitions

* `Correlation.enter` opens a scope and `Correlation.leave` closes the innermost one.
-/

/-! ## Severities -/

namespace RuleCatalogue.Severity

/-- **The severities that have names.**  Of two names for a number the first is shown. -/
def named : Fields Int :=
  [("CRITICAL", 50), ("FATAL", 50), ("ERROR", 40), ("WARNING", 30), ("WARN", 30), ("INFO", 20),
   ("DEBUG", 10), ("NOTSET", 0)]

/-- From this severity on a record is shown even where there is no log for it. -/
def lastResort : Int := 30

/-- A letter as a capital: those of ASCII, and the two others whose capital is in ASCII. -/
def capital (c : Char) : Char :=
  if c = 'ı' then 'I' else if c = 'ſ' then 'S' else c.toUpper

/-- **The severity of a name**, in letters of either case and with space around it. -/
def ofName? (s : String) : Option Int :=
  named.get? ((Text.trimmed s).map capital)

/-- **The name of a severity.** -/
def name (n : Int) : String :=
  match named.find? fun (_, m) => m == n with
  | some (name, _) => name
  | none => "Level " ++ toString n

end RuleCatalogue.Severity

/-! ## Correlation -/

namespace RuleCatalogue

/-- **A scope that is open**: the names that it binds, and the fields that they hide. -/
structure Scope where
  names : List String
  hidden : Fields String
deriving DecidableEq, Repr

/-- **The bound fields**, with the scopes that are open, the innermost first. -/
structure Correlation where
  bound : Fields String := []
  scopes : List Scope := []
deriving DecidableEq, Repr

namespace Correlation

/-- The fields that a scope binds: those with a value that is not blank, which is trimmed. -/
def given (fields : Fields (Option String)) : Fields String :=
  fields.filterMap fun (name, value) =>
    match value.map Text.trimmed with
    | some s => if s.isEmpty then none else some (name, s)
    | none => none

/-- Fields with others bound over them. -/
def bind (bound more : Fields String) : Fields String :=
  more.foldl (fun bound (name, value) => bound.insert name value) bound

/-- Fields without some names. -/
def unbind (bound : Fields String) (names : List String) : Fields String :=
  names.foldl (fun bound name => bound.erase name) bound

/-- **Opens a scope.** -/
def enter (fields : Fields (Option String)) (c : Correlation) : Correlation :=
  let more := given fields
  let hidden := c.bound.filter fun (name, _) => more.has name
  { bound := bind c.bound more, scopes := ⟨more.keys, hidden⟩ :: c.scopes }

/-- **Closes the innermost scope**, if one is open. -/
def leave (c : Correlation) : Correlation :=
  match c.scopes with
  | [] => c
  | scope :: outer => { bound := bind (unbind c.bound scope.names) scope.hidden, scopes := outer }

end Correlation

end RuleCatalogue

/-! ## Records and their lines -/

namespace RuleCatalogue

/-- **A record**, with the fields that are bound when it is made. -/
structure Record where
  severity : Int
  logger : String
  message : String
  correlation : Fields String
  extras : Fields Value
deriving Inhabited

namespace Record

/-- The names of what every record knows about itself, which no further field may have. -/
def ownNames : List String :=
  ["name", "msg", "args", "levelname", "levelno", "pathname", "filename", "module", "exc_info",
   "exc_text", "stack_info", "lineno", "funcName", "created", "msecs", "relativeCreated", "thread",
   "threadName", "processName", "process", "message", "asctime"]

/-- The names of the further fields that stand beside a record's own. -/
def promotedNames : List String :=
  ["run_id", "source_file", "rule"]

/-- The first name among further fields that they may not have. -/
def clash? (extras : Fields Value) : Option String :=
  extras.keys.find? ownNames.contains

/-- Whether a further field is left out of the line. -/
def isHidden (name : String) : Bool :=
  name == "correlation" || ownNames.contains name || Text.startsWith "_" name

/-- The further fields of a line. -/
def shownExtras (record : Record) : Fields Value :=
  record.extras.filter fun (name, _) => !isHidden name

/-- What a line says without further fields: what the record says itself, and above it the fields
that are bound. -/
def baseFields (record : Record) (runId timestamp : String) : Fields Value :=
  let own : Fields Value :=
    [("timestamp", .text timestamp), ("level", .text (Severity.name record.severity)),
     ("logger", .text record.logger), ("message", .text record.message), ("run_id", .text runId)]
  record.correlation.foldl (fun line (name, value) => Fields.insert name (.text value) line) own

/-- **The fields of a line.** -/
def lineFields (record : Record) (runId timestamp : String) : Fields Value :=
  let (promoted, others) :=
    record.shownExtras.partition fun (name, _) => promotedNames.contains name
  let line := promoted.foldl (fun line (name, value) => Fields.insert name value line)
    (record.baseFields runId timestamp)
  if others.isEmpty then line else Fields.insert "fields" (.table others) line

/-- **The line of a record**, unless an integer among its fields has too many digits. -/
def line (record : Record) (runId timestamp : String) : Except Decimal.OversizedInteger String :=
  Json.compact (.table (record.lineFields runId timestamp))

end Record

end RuleCatalogue
