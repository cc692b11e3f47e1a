import RuleCatalogue.RuleEntry
import RuleCatalogue.Value

/-!
# The payload of serialized results

A catalogue is written as a table with a version and the list of its rules, sorted by name; a rule
is a table with its name, its description as shown, and its parameters in their order.  Reading
checks every part and names the first one that is wrong.
-/

namespace RuleCatalogue

/-- The version of the payload. -/
def payloadVersion : Int := 1

/-- **Why a value is no payload.**  Indices count from zero. -/
inductive PayloadError
  /-- The payload itself is no table. -/
  | rootNotTable
  /-- The version is missing or another one. -/
  | unsupportedVersion (found : Value)
  | rulesNotList
  | ruleNotTable (index : Nat)
  /-- The name is missing, no text, or blank. -/
  | nameMissing
  | descriptionNotText
  | parametersNotList
  | parameterNotTable (index : Nat)
  | parameterFieldNotText (field : String)
  | duplicateRule (name : String)

/-- The wording of an error. -/
def PayloadError.message : PayloadError → String
  | rootNotTable => "Serialized results root must be an object"
  | unsupportedVersion found =>
      match found.written Value.shown with
      | .ok shown => "Unsupported results version: " ++ shown
      | .error e => e.message
  | rulesNotList => "results.rules must be a list"
  | ruleNotTable index => "results.rules[" ++ toString index ++ "] must be an object"
  | nameMissing => "RuleEntry.name must be a non-empty string"
  | descriptionNotText => "RuleEntry.description must be a string"
  | parametersNotList => "RuleEntry.parameters must be a list"
  | parameterNotTable index => "RuleEntry.parameters[" ++ toString index ++ "] must be an object"
  | parameterFieldNotText field => "RuleParameter." ++ field ++ " must be a string"
  | duplicateRule name => "Duplicate rule name in results: " ++ Text.quoted name

/-- The text at a name, empty where the name is missing; nothing where the value is no text. -/
def Fields.text? (key : String) (fields : Fields Value) : Option String :=
  match Fields.get? key fields with
  | none => some ""
  | some (.text s) => some s
  | some _ => none

/-- The list at a name, empty where the name is missing; nothing where the value is no list. -/
def Fields.list? (key : String) (fields : Fields Value) : Option (List Value) :=
  match Fields.get? key fields with
  | none => some []
  | some (.list items) => some items
  | some _ => none

namespace Parameter

/-- A parameter as a table. -/
def toValue (p : Parameter) : Value :=
  .table [("key", .text p.key), ("description", .text p.description),
    ("default_value", .text p.defaultValue)]

/-- The parameter of a table; each text may be missing. -/
def ofFields (fields : Fields Value) : Except PayloadError Parameter := do
  let text (field : String) : Except PayloadError String :=
    (Fields.text? field fields).elim (.error (.parameterFieldNotText field)) .ok
  return { key := ← text "key", description := ← text "description"
           defaultValue := ← text "default_value" }

end Parameter

namespace RuleEntry

/-- A rule as a table. -/
def toValue (e : RuleEntry) : Value :=
  .table [("name", .text e.name), ("description", .text e.description),
    ("parameters", .list (e.parameters.toList.map Parameter.toValue))]

/-- The parameters of list items, of which the first has this index. -/
def parametersOf (index : Nat) : List Value → Except PayloadError (List Parameter)
  | [] => .ok []
  | v :: rest => do
      match v.fields? with
      | none => .error (.parameterNotTable index)
      | some fields => do
          let p ← Parameter.ofFields fields
          return p :: (← parametersOf (index + 1) rest)

/-- The rule of a table, its name trimmed. -/
def ofFields (fields : Fields Value) : Except PayloadError RuleEntry := do
  let name ←
    match Fields.get? "name" fields with
    | some (.text s) => if Text.isBlankText s then .error .nameMissing else .ok s
    | _ => .error .nameMissing
  let description ← (Fields.text? "description" fields).elim (.error .descriptionNotText) .ok
  let items ← (Fields.list? "parameters" fields).elim (.error .parametersNotList) .ok
  let parameters ← parametersOf 0 items
  return RuleEntry.addParameters
    { name := Text.trimmed name, rawDescription := description } parameters

end RuleEntry

namespace Catalogue

/-- The entries in the order of their names. -/
def sortedEntries (catalogue : Catalogue) : List RuleEntry :=
  (Fields.sorted catalogue.fields).map Prod.snd

/-- **A catalogue as a payload.** -/
def toValue (catalogue : Catalogue) : Value :=
  .table [("version", .int payloadVersion),
    ("rules", .list (catalogue.sortedEntries.map RuleEntry.toValue))]

/-- Files the rules of list items, of which the first has this index, in a catalogue. -/
def addRules (catalogue : Catalogue) (index : Nat) : List Value → Except PayloadError Catalogue
  | [] => .ok catalogue
  | v :: rest =>
      match v.fields? with
      | none => .error (.ruleNotTable index)
      | some fields => do
          let e ← RuleEntry.ofFields fields
          if catalogue.contains e.name then .error (.duplicateRule e.name)
          else addRules (catalogue.insert e.name e) (index + 1) rest

/-- The catalogue of a payload's fields. -/
def ofFields (fields : Fields Value) : Except PayloadError Catalogue :=
  let version := (Fields.get? "version" fields).getD .null
  if version.equalsInt payloadVersion then do
    let rules ← (Fields.list? "rules" fields).elim (.error .rulesNotList) .ok
    addRules ∅ 0 rules
  else .error (.unsupportedVersion version)

/-- **The catalogue of a payload.** -/
def ofValue (v : Value) : Except PayloadError Catalogue :=
  match v.fields? with
  | some fields => ofFields fields
  | none => .error .rootNotTable

end Catalogue

end RuleCatalogue
