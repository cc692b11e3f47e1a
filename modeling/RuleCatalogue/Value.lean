import RuleCatalogue.Decimal
import RuleCatalogue.Table
import RuleCatalogue.Text.Substring

/-!
# Values read from data files

What a data file holds before anyone has looked at its meaning: the settings, the payload of
serialized results, and the fields of a log record are all made of these values.
-/

namespace RuleCatalogue

/-- **A dynamic value.**  `mapping` is a table some of whose keys are not texts; `other` is a value
of a kind that no rule here inspects, such as a date, with the name of its kind and its text in
messages. -/
inductive Value
  | null
  | bool (b : Bool)
  | int (n : Int)
  | float (x : Float)
  | text (s : String)
  | list (items : List Value)
  | table (fields : List (String × Value))
  | mapping (entries : List (Value × Value))
  | other (kind shown : String)
deriving Inhabited

namespace Value

/-- The name of a value's kind in messages. -/
def kind : Value → String
  | null => "NoneType"
  | bool _ => "bool"
  | int _ => "int"
  | float _ => "float"
  | text _ => "str"
  | list _ => "list"
  | table _ => "dict"
  | mapping _ => "dict"
  | other kind _ => kind

/-- The text of a truth value in messages. -/
def boolText (b : Bool) : String :=
  if b then "True" else "False"

/-- Texts between brackets, with commas between neighbours. -/
def enclose (first : String) (items : List String) (last : String) : String :=
  first ++ String.intercalate ", " items ++ last

mutual

/-- **The text of a value in messages.** -/
def shown : Value → String
  | null => "None"
  | bool b => boolText b
  | int n => toString n
  | float x => Decimal.floatText x
  | text s => Text.quoted s
  | list items => enclose "[" (shownItems items) "]"
  | table fields => enclose "\x7b" (shownFields fields) "\x7d"
  | mapping entries => enclose "\x7b" (shownEntries entries) "\x7d"
  | other _ shown => shown

/-- The texts of list items. -/
def shownItems : List Value → List String
  | [] => []
  | v :: rest => v.shown :: shownItems rest

/-- The texts of named fields. -/
def shownFields : List (String × Value) → List String
  | [] => []
  | (key, v) :: rest => (Text.quoted key ++ ": " ++ v.shown) :: shownFields rest

/-- The texts of the entries of a mapping. -/
def shownEntries : List (Value × Value) → List String
  | [] => []
  | (key, v) :: rest => (key.shown ++ ": " ++ v.shown) :: shownEntries rest

end

/-- The text of a value where it is printed for readers: texts stand without quotes. -/
def plainText : Value → String
  | text s => s
  | v => v.shown

mutual

/-- **Whether every integer in a value can be written.** -/
def isWritable : Value → Bool
  | int n => decide (Decimal.Short n)
  | list items => areWritable items
  | table fields => haveWritable fields
  | mapping entries => entriesAreWritable entries
  | _ => true

/-- Whether every integer in list items can be written. -/
def areWritable : List Value → Bool
  | [] => true
  | v :: rest => v.isWritable && areWritable rest

/-- Whether every integer in named fields can be written. -/
def haveWritable : List (String × Value) → Bool
  | [] => true
  | (_, v) :: rest => v.isWritable && haveWritable rest

/-- Whether every integer in the entries of a mapping can be written. -/
def entriesAreWritable : List (Value × Value) → Bool
  | [] => true
  | (key, v) :: rest => key.isWritable && v.isWritable && entriesAreWritable rest

end

/-- **A text in which a value is written**, unless an integer in it has too many digits. -/
def written (text : Value → String) (v : Value) : Except Decimal.OversizedInteger String :=
  if v.isWritable then .ok (text v) else .error ⟨⟩

/-- The text keys of a mapping, with their values. -/
def textFields : List (Value × Value) → Fields Value
  | [] => []
  | (text key, v) :: rest => (key, v) :: textFields rest
  | _ :: rest => textFields rest

/-- The named fields of a value that is a table. -/
def fields? : Value → Option (Fields Value)
  | table fields => some fields
  | mapping entries => some (textFields entries)
  | _ => none

/-- **Equality with a whole number.**  A float counts if it is that number, and truth values count
as zero and one. -/
def equalsInt (v : Value) (n : Int) : Bool :=
  match v with
  | int m => m == n
  | bool b => (if b then 1 else 0) == n
  | float x => x == Float.ofInt n
  | _ => false

/-- What a condition takes for true: everything but nothing, zero and what is empty. -/
def isTruthy : Value → Bool
  | null => false
  | bool b => b
  | int n => n != 0
  | float x => !(x == 0.0)
  | text s => !s.isEmpty
  | list items => !items.isEmpty
  | table fields => !fields.isEmpty
  | mapping entries => !entries.isEmpty
  | other _ _ => true

end Value

end RuleCatalogue
