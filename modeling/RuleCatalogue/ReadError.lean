import RuleCatalogue.Text.Substring

/-!
# Why a data file cannot be read

The three formats share one type of causes.  A malformed text is reported without detail; the other
causes concern a scalar that is well placed but has no value.
-/

namespace RuleCatalogue

/-- **The data formats.** -/
inductive Format
  | json
  | toml
  | yaml
deriving DecidableEq, Repr

namespace Format

/-- The formats by name, in the order in which they are offered. -/
def named : List (String × Format) :=
  [("json", .json), ("toml", .toml), ("yaml", .yaml)]

/-- The name of a format. -/
def name : Format → String
  | json => "json"
  | toml => "toml"
  | yaml => "yaml"

/-- The format of a name. -/
def ofName? (s : String) : Option Format :=
  named.lookup s

end Format

/-- **Why a text holds no value of its format.** -/
inductive ReadError
  /-- The text breaks the rules of the format. -/
  | malformed (format : Format)
  /-- A decimal integer has more digits than are read. -/
  | oversizedInteger (digits : Nat)
  /-- A scalar that is marked as an integer, but is none in this base. -/
  | notInteger (base : Nat) (text : String)
  /-- A scalar that is marked as a number, but is none. -/
  | notNumber (text : String)
  /-- A scalar that is marked as a truth value, but is none. -/
  | notTruthValue (text : String)
  /-- A scalar that is marked as a point in time, but has not the form of one. -/
  | notTimestamp
  /-- A point in time that does not exist; the text says which part is out of range. -/
  | noSuchTime (reason : String)
  /-- A code point that is no character. -/
  | noSuchCodePoint
  /-- A code point too large to be looked at. -/
  | hugeCodePoint
  /-- An empty scalar that is marked as a number. -/
  | emptyNumber
  /-- A number has so many groups of sixty that the first of them is too large for it. -/
  | hugeNumber
  /-- A mapping that is marked as a point in time. -/
  | mappingAsTimestamp
  /-- A mapping that is marked as a scalar, and is the default value of itself. -/
  | endless
deriving DecidableEq, Repr

/-- The greatest number of digits of a decimal integer. -/
def maxIntegerDigits : Nat := 4300

/-- The wording of an error; a malformed text has none. -/
def ReadError.message : ReadError → String
  | malformed _ => ""
  | oversizedInteger digits =>
      "Exceeds the limit (" ++ toString maxIntegerDigits
        ++ " digits) for integer string conversion: value has " ++ toString digits
        ++ " digits; use sys.set_int_max_str_digits() to increase the limit"
  | notInteger base text =>
      "invalid literal for int() with base " ++ toString base ++ ": " ++ Text.quoted text
  | notNumber text => "could not convert string to float: " ++ Text.quoted text
  | notTruthValue text => Text.quoted text
  | notTimestamp => "'NoneType' object has no attribute 'groupdict'"
  | noSuchTime reason => reason
  | noSuchCodePoint => "chr() arg not in range(0x110000)"
  | hugeCodePoint => "Python int too large to convert to C int"
  | emptyNumber => "string index out of range"
  | hugeNumber => "int too large to convert to float"
  | mappingAsTimestamp => "expected string or bytes-like object, got 'list'"
  | endless => "maximum recursion depth exceeded"

end RuleCatalogue
