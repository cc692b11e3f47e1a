import RuleCatalogue.Calendar
import RuleCatalogue.Decimal
import RuleCatalogue.Text.Substring

/-!
# Reading TOML

The scalars are texts of four kinds, dates and times, integers in four bases, and numbers with a
fraction or an exponent.  Each reader takes what it can from the beginning of the text and returns
the rest.

A document is a sequence of statements, one a line: a name with a value, the header of a table, or
the header of a new table in a list.  Names may be dotted, and then create the tables on their way.

## Design notes

What has been read is kept as the fields of the root table; which parts of it are closed is kept
beside it, as sets of paths.  A path is *declared* when its table may not be opened again, and
*frozen* when it, and everything below it, is a value that was written in one piece.
-/

/-! ## Scalars of TOML -/

namespace RuleCatalogue.Toml

/-- The error of every text that is no TOML. -/
def malformed {α : Type} : Except ReadError α :=
  .error (.malformed .toml)

/-- Space inside a line. -/
def isSpace (c : Char) : Bool :=
  c == ' ' || c == '\t'

/-- Space inside a line, or its end. -/
def isSpaceOrNewline (c : Char) : Bool :=
  isSpace c || c == '\n'

/-- The text behind the space at its beginning. -/
def skipSpace (s : List Char) : List Char :=
  s.dropWhile isSpace

/-- A control character that no text and no comment of one line may hold. -/
def isControl (c : Char) : Bool :=
  (c.toNat < 0x20 && c != '\t') || c.toNat == 0x7F

/-- A control character that no text of several lines may hold. -/
def isControlInLines (c : Char) : Bool :=
  isControl c && c != '\n'

/-! ## Texts -/

/-- The character that a letter behind a backslash stands for. -/
def escape? : Char → Option Char
  | 'b' => some '\x08'
  | 't' => some '\t'
  | 'n' => some '\n'
  | 'f' => some '\x0c'
  | 'r' => some '\r'
  | '"' => some '"'
  | '\\' => some '\\'
  | _ => none

/-- The character with a code point in hexadecimal digits, if it is one of Unicode's characters. -/
def codePoint? (digits : List Char) : Option Char :=
  (Decimal.hexValue? digits).bind fun n =>
    if n < 0x110000 && !Text.Surrogate.isEither n then some (Char.ofNat n) else none

/-- Puts a character in front of a text that was read. -/
def consRead (c : Char) (read : Option (List Char × List Char)) : Option (List Char × List Char) :=
  read.map fun (text, rest) => (c :: text, rest)

/-- A text of one line with escapes, up to its closing quote. -/
def basicText? : List Char → Option (List Char × List Char)
  | [] => none
  | '"' :: rest => some ([], rest)
  | '\\' :: 'u' :: a :: b :: c :: d :: rest =>
      (codePoint? [a, b, c, d]).bind fun char => consRead char (basicText? rest)
  | '\\' :: 'U' :: a :: b :: c :: d :: e :: f :: g :: h :: rest =>
      (codePoint? [a, b, c, d, e, f, g, h]).bind fun char => consRead char (basicText? rest)
  | '\\' :: c :: rest => (escape? c).bind fun char => consRead char (basicText? rest)
  | c :: rest => if isControl c || c == '\\' then none else consRead c (basicText? rest)

/-- What follows a backslash at the end of a line: the text behind all space and line ends.  The
space before the line end has to reach it. -/
def lineContinuation? (s : List Char) : Option (List Char) :=
  match skipSpace s with
  | '\n' :: rest => some (rest.dropWhile isSpaceOrNewline)
  | _ => none

theorem length_lineContinuation? {s rest : List Char} (h : lineContinuation? s = some rest) :
    rest.length < s.length := by
  unfold lineContinuation? at h
  have hskip : (skipSpace s).length ≤ s.length :=
    (List.dropWhile_sublist isSpace).length_le
  split at h
  · next more heq =>
      have hmore : (more.dropWhile isSpaceOrNewline).length ≤ more.length :=
        (List.dropWhile_sublist isSpaceOrNewline).length_le
      have : rest = more.dropWhile isSpaceOrNewline := (Option.some.inj h).symm
      subst this
      rw [heq] at hskip
      simp only [List.length_cons] at hskip
      omega
  · cases h

/-- A text of several lines with escapes, up to its three closing quotes. -/
def basicLines? (s : List Char) : Option (List Char × List Char) :=
  match s with
  | [] => none
  | '"' :: '"' :: '"' :: rest => some ([], rest)
  | '"' :: rest => consRead '"' (basicLines? rest)
  | '\\' :: 'u' :: a :: b :: c :: d :: rest =>
      (codePoint? [a, b, c, d]).bind fun char => consRead char (basicLines? rest)
  | '\\' :: 'U' :: a :: b :: c :: d :: e :: f :: g :: h :: rest =>
      (codePoint? [a, b, c, d, e, f, g, h]).bind fun char => consRead char (basicLines? rest)
  | '\\' :: rest =>
      match _h : lineContinuation? rest with
      | some after => basicLines? after
      | none =>
          match rest with
          | c :: more => (escape? c).bind fun char => consRead char (basicLines? more)
          | [] => none
  | c :: rest => if isControlInLines c then none else consRead c (basicLines? rest)
termination_by s.length
decreasing_by
  all_goals first
    | (have hlt := length_lineContinuation? ‹_›; simp only [List.length_cons]; omega)
    | (simp only [List.length_cons]; omega)

/-- A text of one line without escapes, up to its closing quote. -/
def literalText? : List Char → Option (List Char × List Char)
  | [] => none
  | '\'' :: rest => some ([], rest)
  | c :: rest => if isControl c then none else consRead c (literalText? rest)

/-- A text of several lines without escapes, up to its three closing quotes. -/
def literalLines? : List Char → Option (List Char × List Char)
  | [] => none
  | '\'' :: '\'' :: '\'' :: rest => some ([], rest)
  | c :: rest => if isControlInLines c then none else consRead c (literalLines? rest)

/-- Up to two quotes directly behind the three closing ones belong to the text. -/
def takeExtraQuotes (quote : Char) (read : List Char × List Char) : List Char × List Char :=
  let extra := ((read.2.take 2).takeWhile (· == quote))
  (read.1 ++ extra, read.2.drop extra.length)

/-- A line end directly behind the three opening quotes does not belong to the text. -/
def dropFirstNewline : List Char → List Char
  | '\n' :: rest => rest
  | s => s

/-- A text of any kind, with its quotes. -/
def text? : List Char → Option (List Char × List Char)
  | '"' :: '"' :: '"' :: rest => (basicLines? (dropFirstNewline rest)).map (takeExtraQuotes '"')
  | '"' :: rest => basicText? rest
  | '\'' :: '\'' :: '\'' :: rest =>
      (literalLines? (dropFirstNewline rest)).map (takeExtraQuotes '\'')
  | '\'' :: rest => literalText? rest
  | _ => none

/-! ## Dates and times -/

/-- A number of so many decimal digits, within bounds. -/
def digits? (count low high : Nat) (s : List Char) : Option (Nat × List Char) :=
  let digits := s.take count
  let n := Decimal.ofDigits 10 digits
  if digits.length = count ∧ digits.all Char.isDigit ∧ low ≤ n ∧ n ≤ high then
    some (n, s.drop count)
  else none

/-- The text behind a character. -/
def behind? (c : Char) (s : List Char) : Option (List Char) :=
  match s with
  | d :: rest => if d == c then some rest else none
  | [] => none

/-- The microseconds that the digits behind a point give; those after the sixth do not count. -/
def microseconds (s : List Char) : Nat × List Char :=
  match s with
  | '.' :: rest =>
      let digits := rest.takeWhile Char.isDigit
      if digits.isEmpty then (0, s)
      else
        let six := (digits ++ List.replicate 6 '0').take 6
        (Decimal.ofDigits 10 six, rest.drop digits.length)
  | _ => (0, s)

/-- A time of day, to the second or finer. -/
def timeOfDay? (s : List Char) : Option (TimeOfDay × List Char) := do
  let (hour, s) ← digits? 2 0 23 s
  let (minute, s) ← digits? 2 0 59 (← behind? ':' s)
  let (second, s) ← digits? 2 0 59 (← behind? ':' s)
  let (microsecond, s) := microseconds s
  return (⟨hour, minute, second, microsecond⟩, s)

/-- A date; that its day exists in its month is not asked here. -/
def date? (s : List Char) : Option (Date × List Char) := do
  let (year, s) ← digits? 4 0 9999 s
  let (month, s) ← digits? 2 1 12 (← behind? '-' s)
  let (day, s) ← digits? 2 1 31 (← behind? '-' s)
  return (⟨year, month, day⟩, s)

/-- An offset from universal time in seconds, if one follows. -/
def offset? (s : List Char) : Option Int × List Char :=
  match s with
  | c :: rest =>
      if c == 'Z' || c == 'z' then (some 0, rest)
      else if c == '+' || c == '-' then
        let read : Option (Int × List Char) := do
          let (hours, rest) ← digits? 2 0 23 rest
          let (minutes, rest) ← digits? 2 0 59 (← behind? ':' rest)
          let seconds := Int.ofNat (hours * 3600 + minutes * 60)
          return (if c == '-' then -seconds else seconds, rest)
        match read with
        | some (seconds, rest) => (some seconds, rest)
        | none => (none, s)
      else (none, s)
  | [] => (none, s)

/-- The time that follows a date, behind a letter or a space. -/
def timeBehindDate? : List Char → Option (TimeOfDay × List Char)
  | 'T' :: rest => timeOfDay? rest
  | 't' :: rest => timeOfDay? rest
  | ' ' :: rest => timeOfDay? rest
  | _ => none

/-- A date, with a time and an offset where they follow. -/
def moment? (s : List Char) : Option (Except ReadError Value × List Char) :=
  (date? s).map fun (date, afterDate) =>
    let (v, rest) :=
      match timeBehindDate? afterDate with
      | none => (date.toValue, afterDate)
      | some (time, afterTime) =>
          let (offset, rest) := offset? afterTime
          (momentValue date time offset, rest)
    (if date.problem?.isSome then malformed else .ok v, rest)

/-! ## Numbers -/

/-- Digits of a base with single underscores between them, without the underscores. -/
def groupedDigits (base : Nat) : List Char → List Char × List Char
  | c :: '_' :: d :: rest =>
      if !Decimal.isDigitOf base c then ([], c :: '_' :: d :: rest)
      else if Decimal.isDigitOf base d then
        let (more, after) := groupedDigits base (d :: rest)
        (c :: more, after)
      else ([c], '_' :: d :: rest)
  | c :: rest =>
      if Decimal.isDigitOf base c then
        let (more, after) := groupedDigits base rest
        (c :: more, after)
      else ([], c :: rest)
  | [] => ([], [])

/-- An integer in base sixteen, eight or two. -/
def basedInteger? (s : List Char) : Option (Int × List Char) :=
  let read (base : Nat) (digits : List Char) : Option (Int × List Char) :=
    let (read, rest) := groupedDigits base digits
    if read.isEmpty then none else some (Int.ofNat (Decimal.ofDigits base read), rest)
  match s with
  | '0' :: 'x' :: rest => read 16 rest
  | '0' :: 'b' :: rest => read 2 rest
  | '0' :: 'o' :: rest => read 8 rest
  | _ => none

/-- The digits of a number before its point; a zero stands alone. -/
def wholeDigits (s : List Char) : List Char × List Char :=
  match s with
  | '0' :: rest => (['0'], rest)
  | _ => groupedDigits 10 s

/-- The digits behind a point, if one with a digit follows. -/
def fractionDigits (s : List Char) : List Char × List Char :=
  match s with
  | '.' :: rest =>
      let (digits, after) := groupedDigits 10 rest
      if digits.isEmpty then ([], s) else (digits, after)
  | _ => ([], s)

/-- An optional sign, and what follows it. -/
def sign (s : List Char) : Bool × List Char :=
  match s with
  | '-' :: rest => (true, rest)
  | '+' :: rest => (false, rest)
  | _ => (false, s)

/-- The exponent, if one with a digit follows. -/
def exponent? (s : List Char) : Option Int × List Char :=
  match s with
  | c :: rest =>
      if c == 'e' || c == 'E' then
        let (negative, unsigned) := sign rest
        let (digits, after) := groupedDigits 10 unsigned
        if digits.isEmpty then (none, s)
        else
          let n := Int.ofNat (Decimal.ofDigits 10 digits)
          (some (if negative then -n else n), after)
      else (none, s)
  | [] => (none, s)

/-- A decimal number: an integer unless a fraction or an exponent follows. -/
def decimalNumber? (s : List Char) : Option (Except ReadError Value × List Char) :=
  let (negative, unsigned) := sign s
  let (whole, afterWhole) := wholeDigits unsigned
  if whole.isEmpty then none
  else
    let (part, afterPart) := fractionDigits afterWhole
    let (power, rest) := exponent? afterPart
    if part.isEmpty && power.isNone then
      some ((Decimal.integer negative whole).map Value.int, rest)
    else
      let digits := Decimal.ofDigits 10 (whole ++ part)
      let x := Decimal.toFloat digits (power.getD 0 - part.length)
      some (.ok (.float (if negative then -x else x)), rest)

/-- The numbers that are written as words, without a sign. -/
def specialNumber? (s : List Char) : Option (Value × List Char) :=
  let (negative, unsigned) := sign s
  match unsigned with
  | 'i' :: 'n' :: 'f' :: rest => some (.float (if negative then -1.0 / 0.0 else 1.0 / 0.0), rest)
  | 'n' :: 'a' :: 'n' :: rest => some (.float (0.0 / 0.0), rest)
  | _ => none

/-- **A scalar that is no text.** -/
def bareScalar (s : List Char) : Except ReadError (Value × List Char) :=
  match s with
  | 't' :: 'r' :: 'u' :: 'e' :: rest => .ok (.bool true, rest)
  | 'f' :: 'a' :: 'l' :: 's' :: 'e' :: rest => .ok (.bool false, rest)
  | _ =>
      match moment? s with
      | some (v, rest) => v.map (·, rest)
      | none =>
          match timeOfDay? s with
          | some (time, rest) => .ok (time.toValue, rest)
          | none =>
              match basedInteger? s with
              | some (n, rest) => .ok (.int n, rest)
              | none =>
                  match decimalNumber? s with
                  | some (v, rest) => v.map (·, rest)
                  | none =>
                      match specialNumber? s with
                      | some read => .ok read
                      | none => malformed

end RuleCatalogue.Toml

/-! ## Documents and what they hold so far -/

namespace RuleCatalogue.Toml

/-- A dotted name. -/
abbrev Path := List String

/-! ## Values -/

/-- A character of a name without quotes. -/
def isBareNameChar (c : Char) : Bool :=
  c.isAlphanum || c == '-' || c == '_'

/-- A character that a name can begin with. -/
def beginsName (c : Char) : Bool :=
  isBareNameChar c || c == '"' || c == '\''

/-- One part of a name. -/
def namePart? (s : List Char) : Option (String × List Char) :=
  match s with
  | '"' :: rest => (basicText? rest).map fun (text, rest) => (String.ofList text, rest)
  | '\'' :: rest => (literalText? rest).map fun (text, rest) => (String.ofList text, rest)
  | _ =>
      let bare := s.takeWhile isBareNameChar
      if bare.isEmpty then none else some (String.ofList bare, s.drop bare.length)

/-- A dotted name, and what follows it and the space behind it. -/
def name? : Nat → List Char → Option (Path × List Char)
  | 0, _ => none
  | steps + 1, s => do
      let (part, rest) ← namePart? s
      match skipSpace rest with
      | '.' :: more => do
          let (parts, final) ← name? steps (skipSpace more)
          return (part :: parts, final)
      | after => return ([part], after)

/-- The text behind a comment, which reaches to the end of its line; nothing if the comment holds a
control character. -/
def skipComment? (s : List Char) : Option (List Char) :=
  match s with
  | '#' :: rest =>
      if (rest.takeWhile (· != '\n')).any isControl then none
      else some (rest.dropWhile (· != '\n'))
  | _ => some s

/-- The text behind space, line ends and comments. -/
def skipLines? : Nat → List Char → Option (List Char)
  | 0, _ => none
  | steps + 1, s =>
      let ahead := s.dropWhile isSpaceOrNewline
      match ahead with
      | '#' :: _ => (skipComment? ahead).bind (skipLines? steps)
      | _ => some ahead

/-- A part of a text that is no TOML, if it is missing. -/
def required {α : Type} : Option α → Except ReadError α
  | some x => .ok x
  | none => malformed

/-- The table at a path inside other tables, changed by `change`; tables on the way are created.
With `throughLists`, a list on the way stands for its last item. -/
def updateNest (throughLists : Bool) (change : Fields Value → Option (Fields Value)) :
    Path → Fields Value → Option (Fields Value)
  | [], fields => change fields
  | key :: path, fields =>
      match (Fields.get? key fields).getD (.table []) with
      | .table inner => do
          let changed ← updateNest throughLists change path inner
          return Fields.insert key (.table changed) fields
      | .list items =>
          match items.getLast? with
          | some (.table inner) =>
              if throughLists then do
                let changed ← updateNest throughLists change path inner
                return Fields.insert key (.list (items.dropLast ++ [.table changed])) fields
              else none
          | _ => none
      | _ => none

/-- A new field; nothing if the name is taken. -/
def addField (key : String) (v : Value) (fields : Fields Value) : Option (Fields Value) :=
  if Fields.has key fields then none else some (Fields.insert key v fields)

/-- Whether a value was written in one piece. -/
def isCompound : Value → Bool
  | .table _ => true
  | .list _ => true
  | _ => false

/-- Whether a path lies at or below one of the frozen paths. -/
def isBelow (frozen : List Path) (path : Path) : Bool :=
  frozen.any fun p => p.isPrefixOf path

/-- Adds a field to an inline table. -/
def addInline (frozen : List Path) (path : Path) (v : Value) (fields : Fields Value) :
    Option (Fields Value) :=
  if isBelow frozen path then none
  else
    match path.getLast? with
    | some key => updateNest false (addField key v) path.dropLast fields
    | none => none

mutual

/-- A value, and what follows it.  The number bounds the steps that are taken. -/
def value : Nat → List Char → Except ReadError (Value × List Char)
  | 0, _ => malformed
  | steps + 1, s =>
      match s with
      | '[' :: rest => do
          let ahead ← required (skipLines? steps rest)
          match ahead with
          | ']' :: after => return (.list [], after)
          | _ => do
              let (items, after) ← items steps ahead
              return (.list items, after)
      | '{' :: rest =>
          match skipSpace rest with
          | '}' :: after => .ok (.table [], after)
          | more => inlineFields steps [] [] more
      | c :: _ =>
          if c == '"' || c == '\'' then do
            let (text, rest) ← required (text? s)
            return (.text (String.ofList text), rest)
          else bareScalar s
      | [] => malformed

/-- The items of a list up to its closing bracket; at least one is due. -/
def items : Nat → List Char → Except ReadError (List Value × List Char)
  | 0, _ => malformed
  | steps + 1, s => do
      let (v, after) ← value steps s
      match ← required (skipLines? steps after) with
      | ']' :: rest => return ([v], rest)
      | ',' :: rest => do
          match ← required (skipLines? steps rest) with
          | ']' :: final => return ([v], final)
          | more => do
              let (others, final) ← items steps more
              return (v :: others, final)
      | _ => malformed

/-- The fields of an inline table up to its closing bracket; at least one is due. -/
def inlineFields : Nat → List Path → Fields Value → List Char →
    Except ReadError (Value × List Char)
  | 0, _, _, _ => malformed
  | steps + 1, frozen, fields, s => do
      let (path, v, after) ← field steps s
      let fields ← required (addInline frozen path v fields)
      match skipSpace after with
      | '}' :: rest => return (.table fields, rest)
      | ',' :: rest =>
          let frozen := if isCompound v then path :: frozen else frozen
          inlineFields steps frozen fields (skipSpace rest)
      | _ => malformed

/-- A name, an equals sign and a value. -/
def field : Nat → List Char → Except ReadError (Path × Value × List Char)
  | 0, _ => malformed
  | steps + 1, s => do
      let (path, afterName) ← required (name? steps s)
      match afterName with
      | '=' :: rest => do
          let (v, after) ← value steps (skipSpace rest)
          return (path, v, after)
      | _ => malformed

end

/-! ## Documents -/

/-- **What has been read of a document.**  `header` is the path of the table that fields belong to;
`pending` are the paths that the next header declares. -/
structure Document where
  root : Fields Value := []
  header : Path := []
  declared : List Path := []
  pending : List Path := []
  frozen : List Path := []

namespace Document

/-- Declares what is pending. -/
def settle (d : Document) : Document :=
  { d with declared := d.pending ++ d.declared, pending := [] }

/-- Opens the table at a path, which must be neither declared nor frozen. -/
def openTable (d : Document) (path : Path) : Option Document :=
  if d.declared.contains path || isBelow d.frozen path then none
  else do
    let root ← updateNest true some path d.root
    return { d with root, header := path, declared := path :: d.declared }

/-- Adds an empty table to the list under a name, and creates the list if need be. -/
def appendTable (key : String) (fields : Fields Value) : Option (Fields Value) :=
  match Fields.get? key fields with
  | none => some (Fields.insert key (.list [.table []]) fields)
  | some (.list items) => some (Fields.insert key (.list (items ++ [.table []])) fields)
  | some _ => none

/-- Opens a new table in the list at a path.  What was declared or frozen below the path concerned
the table before it. -/
def openItem (d : Document) (path : Path) : Option Document :=
  if isBelow d.frozen path then none
  else
    let outside (p : Path) : Bool := !path.isPrefixOf p
    match path.getLast? with
    | none => none
    | some key => do
        let root ← updateNest true (appendTable key) path.dropLast d.root
        return { d with
          root, header := path, declared := path :: d.declared.filter outside,
          frozen := d.frozen.filter outside }

/-- The proper beginnings of a path that are not empty, behind a header. -/
def waypoints (header path : Path) : List Path :=
  (List.range (path.length - 1)).map fun n => header ++ path.take (n + 1)

/-- Adds a field under the current header. -/
def addValue (d : Document) (path : Path) (v : Value) : Option Document :=
  let parent := d.header ++ path.dropLast
  let onTheWay := waypoints d.header path
  if onTheWay.any d.declared.contains || isBelow d.frozen parent then none
  else
    match path.getLast? with
    | none => none
    | some key => do
        let root ← updateNest true (addField key v) parent d.root
        let full := d.header ++ path
        return { d with
          root, pending := onTheWay ++ d.pending
          frozen := if isCompound v then full :: d.frozen else d.frozen }

/-- One statement, without the space before it; and what follows it. -/
def statement (steps : Nat) (d : Document) (s : List Char) :
    Except ReadError (Document × List Char) :=
  match s with
  | '[' :: '[' :: rest => do
      let (path, after) ← required (name? steps (skipSpace rest))
      let next ← required (d.settle.openItem path)
      match after with
      | ']' :: ']' :: final => return (next, final)
      | _ => malformed
  | '[' :: rest => do
      let (path, after) ← required (name? steps (skipSpace rest))
      let next ← required (d.settle.openTable path)
      match after with
      | ']' :: final => return (next, final)
      | _ => malformed
  | c :: _ =>
      if beginsName c then do
        let (path, v, rest) ← field steps s
        return (← required (d.addValue path v), rest)
      else .ok (d, s)
  | [] => .ok (d, s)

/-- The statements of a text, one a line. -/
def statements : Nat → Document → List Char → Except ReadError Document
  | 0, _, _ => malformed
  | steps + 1, d, s => do
      let (next, rest) ← d.statement steps (skipSpace s)
      match ← required (skipComment? (skipSpace rest)) with
      | [] => return next
      | '\n' :: more => statements steps next more
      | _ => malformed

end Document

/-- **The root table of a TOML text.** -/
def parse (s : String) : Except ReadError Value := do
  let chars := Text.replaceAll ['\r', '\n'] ['\n'] s.toList
  let document ← Document.statements (4 * chars.length + 4) {} chars
  return .table document.root

end RuleCatalogue.Toml
