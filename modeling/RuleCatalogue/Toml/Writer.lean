import RuleCatalogue.Decimal
import RuleCatalogue.Json
import RuleCatalogue.Payload

/-!
# Writing TOML

A value is written in one line; tables are inline tables whose names are quoted and stand in
increasing order.  TOML has no value for nothing, and numbers with a fraction are not written; nor
are integers of too many digits.

A catalogue is written as a line with the version, and then as an item of the list of rules for
every rule, in the order of names.
-/

/-! ## Writing values as TOML -/

namespace RuleCatalogue.Toml

/-- **Why a value is not written.** -/
inductive Unwritable
  /-- A part is of a kind that is not written. -/
  | unsupported (kind : String)
  /-- A decimal integer has more digits than are written. -/
  | oversizedInteger
deriving DecidableEq, Repr

/-- The wording of an error. -/
def Unwritable.message : Unwritable → String
  | unsupported kind => "Unsupported TOML value type: " ++ kind
  | oversizedInteger => Decimal.OversizedInteger.message ⟨⟩

/-- One character inside the quotes of a text: as in JSON, and the delete character escaped. -/
def escaped (c : Char) : List Char :=
  if c == '\x7f' then "\\u007F".toList else Json.escaped c

/-- A text between quotes. -/
def quotedChars (s : String) : List Char :=
  '"' :: s.toList.flatMap escaped ++ ['"']

mutual

/-- A value in one line, or why one of its parts is not written. -/
def valueChars : Value → Except Unwritable (List Char)
  | .text s => .ok (quotedChars s)
  | .bool b => .ok (if b then "true" else "false").toList
  | .int n => if Decimal.Short n then .ok (toString n).toList else .error .oversizedInteger
  | .list items => do
      let pieces ← itemsChars items
      return '[' :: Json.separated [',', ' '] pieces ++ [']']
  | .table fields => do
      let pieces ← fieldsChars fields
      return '{' :: ' ' :: Json.separated [',', ' '] pieces ++ [' ', '}']
  | v => .error (.unsupported v.kind)

/-- List items. -/
def itemsChars : List Value → Except Unwritable (List (List Char))
  | [] => .ok []
  | v :: rest => do
      let piece ← valueChars v
      return piece :: (← itemsChars rest)

/-- Named fields. -/
def fieldsChars : List (String × Value) → Except Unwritable (List (List Char))
  | [] => .ok []
  | (key, v) :: rest => do
      let piece ← valueChars v
      return (quotedChars key ++ " = ".toList ++ piece) :: (← fieldsChars rest)

end

/-- **A value in one line of TOML**, or why one of its parts is not written: that of the first such
part in the order of writing. -/
def write (v : Value) : Except Unwritable String :=
  (valueChars v.withSortedNames).map String.ofList

end RuleCatalogue.Toml

/-! ## Catalogues as TOML documents -/

namespace RuleCatalogue.Toml

/-- The text of a value that has no parts but texts, lists and tables. -/
def valueText (v : Value) : String :=
  match write v with
  | .ok text => text
  | .error _ => ""

/-- The lines of one rule, with an empty line before them. -/
def ruleLines (e : RuleEntry) : List String :=
  ["", "[[rules]]",
   "name = " ++ valueText (.text e.name),
   "description = " ++ valueText (.text e.description),
   "parameters = " ++ valueText (.list (e.parameters.toList.map Parameter.toValue))]

/-- **A catalogue as a TOML document.** -/
def ofCatalogue (catalogue : Catalogue) : String :=
  let lines := ("version = " ++ toString payloadVersion)
    :: catalogue.sortedEntries.flatMap ruleLines
  String.join (lines.map (· ++ "\n"))

end RuleCatalogue.Toml
