import RuleCatalogue.Decimal
import RuleCatalogue.Text.Substring
import RuleCatalogue.Value

/-!
# Reading and writing JSON

The reader follows the grammar of JSON and takes three names for numbers besides: `NaN`, `Infinity`
and `-Infinity`.  A number without fraction and exponent is an integer.  Of a repeated name the
first place and the last value count.

The names of a table stand in increasing order.  Texts keep all characters but quotes, backslashes
and controls.  Two layouts exist: one line without spaces, and one item a line with an indent of
two spaces a level.
-/

/-! ## Reading JSON -/

namespace RuleCatalogue.Json

/-- The error of every text that is no JSON. -/
def malformed {α : Type} : Except ReadError α :=
  .error (.malformed .json)

/-- Space between the parts of a text. -/
def isSpace (c : Char) : Bool :=
  c == ' ' || c == '\t' || c == '\n' || c == '\r'

/-- The text behind the space at its beginning. -/
def skipSpace (s : List Char) : List Char :=
  s.dropWhile isSpace

/-- The character that a letter behind a backslash stands for. -/
def escape? : Char → Option Nat
  | '"' => some 0x22
  | '\\' => some 0x5C
  | '/' => some 0x2F
  | 'b' => some 0x08
  | 'f' => some 0x0C
  | 'n' => some 0x0A
  | 'r' => some 0x0D
  | 't' => some 0x09
  | _ => none

/-- The units of a text up to its closing quote, and what follows the quote.  A code point beyond
the basic plane may be written as two units. -/
def units? : List Char → Option (List Nat × List Char)
  | '"' :: rest => some ([], rest)
  | '\\' :: 'u' :: a :: b :: c :: d :: rest =>
      match Decimal.hexValue? [a, b, c, d] with
      | some unit => (units? rest).map fun (units, after) => (unit :: units, after)
      | none => none
  | '\\' :: c :: rest =>
      match escape? c with
      | some unit => (units? rest).map fun (units, after) => (unit :: units, after)
      | none => none
  | c :: rest =>
      if c.toNat < 0x20 || c == '\\' then none
      else (units? rest).map fun (units, after) => (c.toNat :: units, after)
  | [] => none

/-- The character of one unit; half of a pair without its other half has none and is replaced. -/
def unitChar (n : Nat) : Char :=
  if Text.Surrogate.isEither n then '\uFFFD' else Char.ofNat n

/-- The characters of a sequence of units. -/
def unitsChars : List Nat → List Char
  | high :: low :: rest =>
      if Text.Surrogate.isHigh high && Text.Surrogate.isLow low then
        Text.Surrogate.joined high low :: unitsChars rest
      else unitChar high :: unitsChars (low :: rest)
  | [unit] => [unitChar unit]
  | [] => []

/-- A text behind its opening quote. -/
def text (s : List Char) : Except ReadError (String × List Char) :=
  match units? s with
  | some (units, rest) => .ok (String.ofList (unitsChars units), rest)
  | none => malformed

/-- Decimal digits at the beginning of a text, and what follows them. -/
def spanDigits (s : List Char) : List Char × List Char :=
  s.span Char.isDigit

/-- The digits of a number before its fraction; a zero stands alone. -/
def wholeDigits (s : List Char) : List Char × List Char :=
  match s with
  | '0' :: rest => (['0'], rest)
  | _ => spanDigits s

/-- The fraction of a number, if one with a digit follows. -/
def fraction (s : List Char) : List Char × List Char :=
  match s with
  | '.' :: rest =>
      let (digits, after) := spanDigits rest
      if digits.isEmpty then ([], s) else (digits, after)
  | _ => ([], s)

/-- The exponent of a number, if one with a digit follows. -/
def exponent? (s : List Char) : Option Int × List Char :=
  match s with
  | c :: rest =>
      if c == 'e' || c == 'E' then
        let (negative, unsigned) :=
          match rest with
          | '-' :: more => (true, more)
          | '+' :: more => (false, more)
          | _ => (false, rest)
        let (digits, after) := spanDigits unsigned
        if digits.isEmpty then (none, s)
        else
          let n := Int.ofNat (Decimal.ofDigits 10 digits)
          (some (if negative then -n else n), after)
      else (none, s)
  | [] => (none, s)

/-- A number behind its sign. -/
def unsignedNumber (negative : Bool) (s : List Char) : Except ReadError (Value × List Char) :=
  let (whole, afterWhole) := wholeDigits s
  if whole.isEmpty then malformed
  else
    let (part, afterPart) := fraction afterWhole
    let (power, rest) := exponent? afterPart
    if part.isEmpty && power.isNone then do
      return (.int (← Decimal.integer negative whole), rest)
    else
      let digits := Decimal.ofDigits 10 (whole ++ part)
      let x := Decimal.toFloat digits (power.getD 0 - part.length)
      .ok (.float (if negative then -x else x), rest)

/-- The numbers and other values that are written as words. -/
def words : List (String × Value) :=
  [("null", .null), ("true", .bool true), ("false", .bool false), ("NaN", .float (0.0 / 0.0)),
   ("Infinity", .float (1.0 / 0.0)), ("-Infinity", .float (-1.0 / 0.0))]

/-- A value that begins with neither a quote nor a bracket. -/
def bareValue (s : List Char) : Except ReadError (Value × List Char) :=
  match words.find? fun word => word.1.toList.isPrefixOf s with
  | some (word, v) => .ok (v, s.drop word.length)
  | none =>
      match s with
      | '-' :: rest => unsignedNumber true rest
      | _ => unsignedNumber false s

mutual

/-- A value, and what follows it.  The number bounds the steps that are taken. -/
def value : Nat → List Char → Except ReadError (Value × List Char)
  | 0, _ => malformed
  | steps + 1, s =>
      match s with
      | '"' :: rest => do
          let (content, after) ← text rest
          return (.text content, after)
      | '[' :: rest =>
          match skipSpace rest with
          | ']' :: after => .ok (.list [], after)
          | more => do
              let (items, after) ← items steps more
              return (.list items, after)
      | '{' :: rest =>
          match skipSpace rest with
          | '}' :: after => .ok (.table [], after)
          | more => do
              let (pairs, after) ← pairs steps more
              return (.table (Fields.ofList pairs), after)
      | _ => bareValue s

/-- The items of a list up to its closing bracket; at least one is due. -/
def items : Nat → List Char → Except ReadError (List Value × List Char)
  | 0, _ => malformed
  | steps + 1, s => do
      let (v, after) ← value steps s
      match skipSpace after with
      | ']' :: rest => return ([v], rest)
      | ',' :: rest => do
          let (others, final) ← items steps (skipSpace rest)
          return (v :: others, final)
      | _ => malformed

/-- The names and values of a table up to its closing bracket; at least one pair is due. -/
def pairs : Nat → List Char → Except ReadError (List (String × Value) × List Char)
  | 0, _ => malformed
  | steps + 1, s =>
      match s with
      | '"' :: rest => do
          let (key, afterKey) ← text rest
          match skipSpace afterKey with
          | ':' :: beforeValue => do
              let (v, after) ← value steps (skipSpace beforeValue)
              match skipSpace after with
              | '}' :: final => return ([(key, v)], final)
              | ',' :: more => do
                  let (others, final) ← pairs steps (skipSpace more)
                  return ((key, v) :: others, final)
              | _ => malformed
          | _ => malformed
      | _ => malformed

end

/-- **The value of a JSON text.** -/
def parse (s : String) : Except ReadError Value := do
  let chars := skipSpace s.toList
  let (v, rest) ← value (2 * chars.length + 2) chars
  if (skipSpace rest).isEmpty then return v else malformed

end RuleCatalogue.Json

/-! ## Writing values as JSON -/

namespace RuleCatalogue

mutual

/-- The value with the names of all its tables in increasing order. -/
def Value.withSortedNames : Value → Value
  | .list items => .list (sortNamesInItems items)
  | .table fields => .table (Fields.sorted (sortNamesInFields fields))
  | v => v

/-- The items with the names of all their tables in increasing order. -/
def sortNamesInItems : List Value → List Value
  | [] => []
  | v :: rest => v.withSortedNames :: sortNamesInItems rest

/-- The fields in their own order, with the names inside their values in increasing order. -/
def sortNamesInFields : List (String × Value) → List (String × Value)
  | [] => []
  | (key, v) :: rest => (key, v.withSortedNames) :: sortNamesInFields rest

end

namespace Json

/-- One character inside the quotes of a text. -/
def escaped (c : Char) : List Char :=
  if c == '"' then ['\\', '"']
  else if c == '\\' then ['\\', '\\']
  else if c == '\n' then ['\\', 'n']
  else if c == '\r' then ['\\', 'r']
  else if c == '\t' then ['\\', 't']
  else if c == '\x08' then ['\\', 'b']
  else if c == '\x0c' then ['\\', 'f']
  else if c.toNat < 0x20 then '\\' :: 'u' :: Text.hexDigits 4 c.toNat
  else [c]

/-- A text between quotes. -/
def quotedChars (s : String) : List Char :=
  '"' :: s.toList.flatMap escaped ++ ['"']

/-- A number that has a fraction; the numbers that are none have names. -/
def floatChars (x : Float) : List Char :=
  if x.isNaN then "NaN".toList
  else if x.isInf then (if x < 0 then "-Infinity" else "Infinity").toList
  else (Decimal.floatText x).toList

/-- A value that holds no others. -/
def scalarChars : Value → List Char
  | .null => "null".toList
  | .bool b => (if b then "true" else "false").toList
  | .int n => (toString n).toList
  | .float x => floatChars x
  | .text s => quotedChars s
  | v => quotedChars v.shown

/-- Pieces with a separator between neighbours. -/
def separated (separator : List Char) : List (List Char) → List Char
  | [] => []
  | [piece] => piece
  | piece :: rest => piece ++ separator ++ separated separator rest

mutual

/-- A value in one line. -/
def compactChars : Value → List Char
  | .list items => '[' :: separated [','] (compactItems items) ++ [']']
  | .table fields => '{' :: separated [','] (compactFields fields) ++ ['}']
  | v => scalarChars v

/-- List items in one line each. -/
def compactItems : List Value → List (List Char)
  | [] => []
  | v :: rest => compactChars v :: compactItems rest

/-- Fields in one line each. -/
def compactFields : List (String × Value) → List (List Char)
  | [] => []
  | (key, v) :: rest => (quotedChars key ++ ':' :: compactChars v) :: compactFields rest

end

/-- The line break before an item at a level. -/
def newLine (level : Nat) : List Char :=
  '\n' :: List.replicate (2 * level) ' '

/-- Items between brackets, one a line; brackets without items stand together. -/
def block (first last : Char) (level : Nat) (pieces : List (List Char)) : List Char :=
  if pieces.isEmpty then [first, last]
  else
    first :: newLine (level + 1) ++ separated (',' :: newLine (level + 1)) pieces
      ++ newLine level ++ [last]

mutual

/-- A value with one item a line, inside brackets of a level. -/
def indentedChars (level : Nat) : Value → List Char
  | .list items => block '[' ']' level (indentedItems (level + 1) items)
  | .table fields => block '{' '}' level (indentedFields (level + 1) fields)
  | v => scalarChars v

/-- List items at a level. -/
def indentedItems (level : Nat) : List Value → List (List Char)
  | [] => []
  | v :: rest => indentedChars level v :: indentedItems level rest

/-- Fields at a level. -/
def indentedFields (level : Nat) : List (String × Value) → List (List Char)
  | [] => []
  | (key, v) :: rest =>
      (quotedChars key ++ ':' :: ' ' :: indentedChars level v) :: indentedFields level rest

end

/-- A value as one line of JSON, names in increasing order, however long its integers are. -/
def compactText (v : Value) : String :=
  String.ofList (compactChars v.withSortedNames)

/-- A value as JSON with one item a line, names in increasing order, however long its integers
are. -/
def indentedText (v : Value) : String :=
  String.ofList (indentedChars 0 v.withSortedNames)

/-- **A value as one line of JSON**, unless an integer in it has too many digits. -/
def compact : Value → Except Decimal.OversizedInteger String :=
  Value.written compactText

/-- **A value as JSON with one item a line**, unless an integer in it has too many digits. -/
def indented : Value → Except Decimal.OversizedInteger String :=
  Value.written indentedText

end Json

end RuleCatalogue
