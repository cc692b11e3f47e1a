import RuleCatalogue.Session
import RuleCatalogue.Source
import RuleCatalogue.Value

/-!
# Events

What happens while catalogues are read and merged, as it is told to a log: each event has a level,
a name and named values.
-/

namespace RuleCatalogue

/-- **How much an event matters.** -/
inductive Level
  | debug
  | info
  | warning
  | error
deriving DecidableEq, Repr

namespace Level

/-- The levels by name, in increasing order. -/
def named : List (String × Level) :=
  [("DEBUG", debug), ("INFO", info), ("WARNING", warning), ("ERROR", error)]

/-- The name of a level. -/
def name : Level → String
  | debug => "DEBUG"
  | info => "INFO"
  | warning => "WARNING"
  | error => "ERROR"

/-- The number of a level, by which levels are compared. -/
def number : Level → Int
  | debug => 10
  | info => 20
  | warning => 30
  | error => 40

end Level

/-- **Two descriptions of one rule**, of which the first was kept.  `source` names the file of the
other, where it is known. -/
structure Conflict where
  rule : String
  kept : String
  rejected : String
  source : Option String
deriving DecidableEq, Repr

/-- **Something that happened.** -/
inductive Event
  /-- A title was accepted, in the file of this name. -/
  | title (t : Title) (file : Option String)
  /-- A file was read, with so many rules in it. -/
  | fileRead (path : Path) (rules : Nat)
  /-- A file could not be read. -/
  | fileUnreadable (path : Path) (failure : ReadFailure)
  /-- Two descriptions of a rule were found. -/
  | conflict (c : Conflict)
deriving DecidableEq, Repr

namespace Event

/-- The level of an event. -/
def level : Event → Level
  | title _ _ => .debug
  | fileRead _ _ => .info
  | fileUnreadable _ _ => .warning
  | conflict _ => .info

/-- The name of an event. -/
def name : Event → String
  | title (.opened _) _ => "apt_rule_opened"
  | title (.reopened _) _ => "apt_rule_reopened"
  | fileRead _ _ => "apt_file_parsed"
  | fileUnreadable _ _ => "apt_file_read_failed"
  | conflict _ => "apt_description_conflict"

/-- The name of a file as a value, if it is known. -/
def fileValue (file : Option String) : Value :=
  file.elim .null .text

/-- The rule that a title names. -/
def titleRule : Title → String
  | .opened rule => rule
  | .reopened rule => rule

/-- The named values of an event. -/
def fields : Event → Fields Value
  | title t file => [("rule", .text (titleRule t)), ("source_file", fileValue file)]
  | fileRead path rules => [("source_file", .text path.text), ("rule_count", .int rules)]
  | fileUnreadable path failure =>
      [("source_file", .text path.text), ("reason", .text failure.message)]
  | conflict c =>
      [("rule", .text c.rule), ("source_file", fileValue c.source),
       ("kept_description", .text c.kept), ("rejected_description", .text c.rejected)]

end Event

end RuleCatalogue
