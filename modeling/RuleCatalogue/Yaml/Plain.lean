import RuleCatalogue.Decimal

/-!
# What a plain scalar is

A scalar without quotes and without a tag is a text unless it looks like something else: a truth
value, a number, nothing, a point in time, or one of the two marks that have a meaning as keys.
-/

namespace RuleCatalogue.Yaml

/-- **What a plain scalar looks like.** -/
inductive PlainKind
  | text
  | bool
  | float
  | int
  | merge
  | null
  | timestamp
  | default
deriving DecidableEq, Repr

namespace PlainKind

/-- The words for truth values, with the value of each. -/
def truthWords : List (String × Bool) :=
  [("yes", true), ("no", false), ("true", true), ("false", false), ("on", true), ("off", false)]

/-- The three spellings of a word that count: in lower case, capitalised, and in upper case. -/
def spellings (word : String) : List (List Char) :=
  let chars := word.toList
  let upper := chars.map Char.toUpper
  [chars, upper.take 1 ++ chars.drop 1, upper]

/-- A truth value. -/
def isBool (s : List Char) : Bool :=
  truthWords.any fun word => (spellings word.1).contains s

/-- Nothing. -/
def isNull (s : List Char) : Bool :=
  s.isEmpty || s == ['~'] || (spellings "null").contains s

/-- The text behind a sign, where one stands. -/
def dropSign : List Char → List Char
  | '-' :: rest => rest
  | '+' :: rest => rest
  | s => s

/-- A decimal digit or an underscore. -/
def isDigitOrLow (c : Char) : Bool :=
  c.isDigit || c == '_'

/-- A digit of a base or an underscore. -/
def isBaseDigitOrLow (base : Nat) (c : Char) : Bool :=
  Decimal.isDigitOf base c || c == '_'

/-- Nothing, or an exponent with a sign up to the end. -/
def isExponentOrEnd : List Char → Bool
  | [] => true
  | e :: sign :: digits =>
      (e == 'e' || e == 'E') && (sign == '-' || sign == '+') && !digits.isEmpty
        && digits.all Char.isDigit
  | _ => false

/-- Groups of sixty behind colons, at least one, and then `final` on the rest. -/
def sixties (final : List Char → Bool) : Nat → List Char → Bool
  | 0, _ => false
  | steps + 1, s =>
      match s with
      | ':' :: a :: rest =>
          if a.isDigit then
            let single := final rest || sixties final steps rest
            match rest with
            | b :: more =>
                single
                  || ('0' ≤ a && a ≤ '5' && b.isDigit && (final more || sixties final steps more))
            | [] => single
          else false
      | _ => false

/-- The end of a number in groups of sixty that has a fraction. -/
def isFractionOfSixties : List Char → Bool
  | '.' :: digits => digits.all isDigitOrLow
  | _ => false

/-- A number with a point. -/
def isFloat (s : List Char) : Bool :=
  let unsigned := dropSign s
  let isWord (word : String) : Bool := (spellings word).any fun w => unsigned == '.' :: w
  let isNaN : Bool := ["nan", "NaN", "NAN"].any fun w => s == '.' :: w.toList
  let behindDigits := unsigned.dropWhile isDigitOrLow
  let pointed : Bool :=
    match unsigned, behindDigits with
    | c :: _, '.' :: rest =>
        c.isDigit && isExponentOrEnd (rest.dropWhile isDigitOrLow)
    | _, _ => false
  let pointFirst : Bool :=
    match s with
    | '.' :: c :: rest => c.isDigit && isExponentOrEnd (rest.dropWhile isDigitOrLow)
    | _ => false
  let sixty : Bool :=
    match unsigned with
    | c :: _ => c.isDigit && sixties isFractionOfSixties s.length behindDigits
    | [] => false
  pointed || pointFirst || sixty || isWord "inf" || isNaN

/-- An integer in one of five notations. -/
def isInt (s : List Char) : Bool :=
  match dropSign s with
  | '0' :: 'b' :: rest => !rest.isEmpty && rest.all (isBaseDigitOrLow 2)
  | '0' :: 'x' :: rest => !rest.isEmpty && rest.all (isBaseDigitOrLow 16)
  | '0' :: rest => rest.all (isBaseDigitOrLow 8)
  | c :: rest =>
      c.isDigit && (rest.all isDigitOrLow
        || sixties List.isEmpty s.length (rest.dropWhile isDigitOrLow))
  | [] => false

/-- So many digits at the beginning of a text, at least `least` and at most `most`; all ways to cut
them off. -/
def digitCuts (least most : Nat) (s : List Char) : List (List Char × List Char) :=
  let run := (s.takeWhile Char.isDigit).length
  ((List.range (most + 1)).filter fun n => least ≤ n && n ≤ run).map fun n => (s.take n, s.drop n)

/-- The parts of a point in time, as they are written.  The zone is a sign with hours and minutes,
or the mark of universal time. -/
structure Stamp where
  year : List Char
  month : List Char
  day : List Char
  time : Option (List Char × List Char × List Char) := none
  fraction : List Char := []
  zone : Option (Option (Char × List Char × List Char)) := none
deriving Inhabited

/-- The text behind a character. -/
def behind? (c : Char) : List Char → Option (List Char)
  | d :: rest => if d == c then some rest else none
  | [] => none

/-- The text behind the mark between a date and a time: a letter, or spaces and tabs. -/
def behindDate? : List Char → Option (List Char)
  | c :: rest =>
      if c == 'T' || c == 't' then some rest
      else if c == ' ' || c == '\t' then some (rest.dropWhile fun d => d == ' ' || d == '\t')
      else none
  | [] => none

/-- A zone up to the end of the text. -/
def zoneToEnd? (s : List Char) : Option (Option (Option (Char × List Char × List Char))) :=
  match s with
  | [] => some none
  | _ =>
      match s.dropWhile fun d => d == ' ' || d == '\t' with
      | ['Z'] => some (some none)
      | sign :: rest =>
          if sign == '+' || sign == '-' then
            (digitCuts 1 2 rest).findSome? fun (hours, rest) =>
              match rest with
              | [] => some (some (some (sign, hours, [])))
              | ':' :: minutes =>
                  if minutes.length = 2 ∧ minutes.all Char.isDigit then
                    some (some (some (sign, hours, minutes)))
                  else none
              | _ => none
          else none
      | [] => none

/-- The fraction of a second behind a point, possibly empty, and what follows. -/
def fractionOfSecond : List Char → List Char × List Char
  | '.' :: rest => (rest.takeWhile Char.isDigit, rest.dropWhile Char.isDigit)
  | s => ([], s)

/-- The time of a point in time, up to the end of the text. -/
def stampTime? (date : Stamp) (s : List Char) : Option Stamp :=
  (digitCuts 1 2 s).findSome? fun (hour, s) => do
    let (minute, s) ← (digitCuts 2 2 (← behind? ':' s)).head?
    let (second, s) ← (digitCuts 2 2 (← behind? ':' s)).head?
    let (fraction, s) := fractionOfSecond s
    let zone ← zoneToEnd? s
    return { date with time := some (hour, minute, second), fraction, zone }

/-- **The parts of a point in time**: a date, which a time and a zone may follow. -/
def stamp? (s : List Char) : Option Stamp := do
  let (year, s) ← (digitCuts 4 4 s).head?
  let s ← behind? '-' s
  (digitCuts 1 2 s).findSome? fun (month, s) => do
    let s ← behind? '-' s
    (digitCuts 1 2 s).findSome? fun (day, s) =>
      match s with
      | [] => some { year, month, day }
      | _ => (behindDate? s).bind (stampTime? { year, month, day })

/-- A point in time, as it counts without a tag: a date alone has two digits in month and day. -/
def isTimestamp (s : List Char) : Bool :=
  match stamp? s with
  | some stamp => stamp.time.isSome || (stamp.month.length == 2 && stamp.day.length == 2)
  | none => false

/-- The text without a line break at its end. -/
def withoutFinalBreak (s : List Char) : List Char :=
  if s.getLast? = some '\n' then s.dropLast else s

/-- **What a plain scalar looks like.** -/
def ofText (s : List Char) : PlainKind :=
  if isBool s then .bool
  else if isFloat s then .float
  else if isInt s then .int
  else if s == ['<', '<'] then .merge
  else if isNull s then .null
  else if isTimestamp s then .timestamp
  else if s == ['='] then .default
  else .text

/-- **What a scalar looks like whose content decides**, plain or not: a line break at its end does
not count. -/
def ofContent (s : List Char) : PlainKind :=
  if s = ['\n'] then .text else ofText (withoutFinalBreak s)

end PlainKind

end RuleCatalogue.Yaml
