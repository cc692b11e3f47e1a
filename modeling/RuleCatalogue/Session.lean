import RuleCatalogue.Line
import RuleCatalogue.Markup
import RuleCatalogue.RuleEntry

/-!
# Reading a catalogue line by line

A session reads the lines of one file.  Outside a rule it looks for titles; inside one it is in the
description, in example code or in a parameter table.  A line never fails: what fits nothing is
skipped.  A title seen again in the same file resumes the entry it had.

## Main definitions

* `Session.consume` takes one line.
* `Session.finish` closes the rule that is open at the end of the lines.
* `Session.readLines` is the whole reading; it also lists the titles met on the way.

## Design notes

The mode carries what only that mode has: whether a paragraph is open, or the columns of the table
and the parameter that its rows have built up so far.  The columns of a table that example code
interrupts are remembered beside the mode until the rule is closed or another line ends a table.
-/

namespace RuleCatalogue

/-- **Where in a rule the reading is.** -/
inductive Mode
  /-- In the description, inside a paragraph or between two. -/
  | description (paragraphOpen : Bool)
  /-- Between two delimiters of example code. -/
  | code
  /-- In a parameter table with these columns and this parameter in progress. -/
  | table (columns : Columns) (pending : Parameter)
deriving DecidableEq

/-- **The rule being read.** -/
structure OpenRule where
  entry : RuleEntry
  mode : Mode := .description false
  interrupted : Option Columns := none

/-- **A session**: the rules that are closed, and the one that is open, if any. -/
structure Session where
  finished : Catalogue := ∅
  current : Option OpenRule := none
deriving Inhabited

/-- **A title that was accepted**: of a rule new to the session, or of one that it resumes. -/
inductive Title
  | opened (name : String)
  | reopened (name : String)
deriving DecidableEq, Repr

namespace OpenRule

/-- Adds text to the description of the entry. -/
def append (rule : OpenRule) (text : String) : OpenRule :=
  { rule with entry := rule.entry.append text }

/-- Ends the paragraph that is open, if one is. -/
def closeParagraph (rule : OpenRule) : OpenRule :=
  match rule.mode with
  | .description true => { rule.append "</p>\n" with mode := .description false }
  | _ => rule

/-- Files the parameter in progress, if a table is being read, and starts the next one. -/
def flushParameter (rule : OpenRule) : OpenRule :=
  match rule.mode with
  | .table columns pending =>
      { rule with entry := rule.entry.addParameter pending, mode := .table columns {} }
  | _ => rule

/-- The entry as it is when the rule ends here. -/
def close (rule : OpenRule) : RuleEntry :=
  rule.closeParagraph.flushParameter.entry

/-- **A line of prose**, trimmed: a blank one ends the paragraph, any other begins or goes on with
one. -/
def addProse (rule : OpenRule) (paragraphOpen : Bool) (line : List Char) : OpenRule :=
  if line.isEmpty then rule.closeParagraph
  else
    let text := String.ofList (Markup.prose line)
    let lead := if paragraphOpen then " " else "<p>"
    { rule.append (lead ++ text) with mode := .description true }

/-- What a row adds to the parameter in progress: dashes vanish from the key, the first default
value stays, descriptions are joined, and blank cells add nothing. -/
def extendPending (columns : Columns) (pending : Parameter) (row : List Char) : Parameter :=
  let key := Text.trim (columns.keyCell row)
  let value := Text.trim (columns.defaultCell row)
  let description := Text.trim (columns.descriptionCell row)
  let keyed :=
    if key.isEmpty then pending else pending.extendKey (String.ofList (key.filter (· != '-')))
  let valued :=
    if value.isEmpty || keyed.hasDefaultValue then keyed
    else keyed.withDefaultValue (String.ofList (Markup.defaultValue value))
  if description.isEmpty then valued
  else valued.extendDescription (String.ofList (Markup.cell description))

/-- **A table row**, trimmed; a caption row adds nothing. -/
def addRow (rule : OpenRule) (columns : Columns) (pending : Parameter) (row : List Char) :
    OpenRule :=
  if Line.isCaption (columns.keyCell row) then rule
  else { rule with mode := .table columns (extendPending columns pending row) }

/-- Ends a paragraph or a row and begins example code. -/
def beginCode (rule : OpenRule) : OpenRule :=
  let interrupted :=
    match rule.mode with
    | .table columns _ => some columns
    | _ => rule.interrupted
  { rule.closeParagraph.flushParameter.append "<pre>\n" with
    mode := .code, interrupted := interrupted }

/-- Ends a paragraph and begins a parameter table, if the line is a ruler with three columns. -/
def beginTable (rule : OpenRule) (ruler : List Char) : OpenRule :=
  match Columns.ofRuler? ruler with
  | some columns => { rule.closeParagraph with mode := .table columns {}, interrupted := none }
  | none => rule

/-- **One line inside a rule**: `full` is the line as it stands, `line` the same trimmed. -/
def consume (rule : OpenRule) (full line : List Char) : OpenRule :=
  match rule.mode with
  | .code =>
      if Line.isExampleDelimiter line then
        { rule.append "</pre>\n" with mode := .description false }
      else rule.append (String.ofList (Markup.code full ++ ['\n']))
  | .description paragraphOpen =>
      if Line.isExampleDelimiter line then rule.beginCode
      else if Line.isProse line then rule.addProse paragraphOpen line
      else if Line.isTableStart line then rule.beginTable line
      else rule
  | .table columns pending =>
      if Line.isExampleDelimiter line then rule.beginCode
      else if Line.isTableRow line then rule.addRow columns pending line
      else if Line.isTableRuler line then rule.flushParameter
      else { rule.flushParameter with mode := .description false, interrupted := none }

/-- The columns that the rule remembers: of the table being read, or of one that was interrupted. -/
def columns? (rule : OpenRule) : Option Columns :=
  match rule.mode with
  | .table columns _ => some columns
  | _ => rule.interrupted

end OpenRule

namespace Session

/-- The session before the first line. -/
def start : Session := {}

/-- Closes the rule that is open, if any, and files it under its name. -/
def finish (session : Session) : Session :=
  match session.current with
  | none => session
  | some rule =>
      let entry := rule.close
      { finished := session.finished.insert entry.name entry, current := none }

/-- Opens the rule that a title names: a new one, or the one filed under the name. -/
def openRule (session : Session) (name : String) : Session × Title :=
  match session.finished.get? name with
  | some entry => ({ session with current := some { entry } }, .reopened name)
  | none => ({ session with current := some { entry := { name } } }, .opened name)

/-- Whether a line closes the rule before it: it begins like a title at the very first column, and
is not a list item in double braces. -/
def endsRule (full line : List Char) : Bool :=
  Line.titleStart.isPrefixOf full && !Line.listItemStart.isPrefixOf line

/-- Outside a rule: opens one where the line is a title with an acceptable name. -/
def seekTitle (session : Session) (line : List Char) : Session × Option Title :=
  if Line.titleStart.isPrefixOf line then
    match Line.ruleName? line with
    | some name =>
        let (opened, title) := session.openRule (String.ofList name)
        (opened, some title)
    | none => (session, none)
  else (session, none)

/-- **Takes one line**, without its line end. -/
def consume (session : Session) (full : List Char) : Session × Option Title :=
  let line := Text.trim full
  let ready := if endsRule full line then session.finish else session
  match ready.current with
  | none => ready.seekTitle line
  | some rule => ({ ready with current := some (rule.consume full line) }, none)

/-- A line without the carriage returns and line feeds at its end. -/
def dropLineEnd (line : String) : List Char :=
  Text.dropEndWhile (fun c => c == '\r' || c == '\n') line.toList

/-- Takes lines one after another, and lists the titles accepted. -/
def consumeAll (session : Session) (lines : List String) : Session × List Title :=
  lines.foldl
    (fun (session, titles) line =>
      let (next, title) := session.consume (dropLineEnd line)
      (next, titles ++ title.toList))
    (session, [])

/-- **The reading of a whole file**: its rules, and the titles in the order of their lines. -/
def readLines (lines : List String) : Catalogue × List Title :=
  let (session, titles) := start.consumeAll lines
  (session.finish.finished, titles)

end Session

/-- The rules of a file with these lines. -/
def Catalogue.ofLines (lines : List String) : Catalogue :=
  (Session.readLines lines).1

end RuleCatalogue
