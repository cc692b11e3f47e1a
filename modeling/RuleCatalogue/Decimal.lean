import RuleCatalogue.ReadError
import RuleCatalogue.Text.Character

/-!
# Numbers as text

Integers are read from digits in a base between two and thirty-six; the number of decimal digits
is limited, for what is read as for what is written.

A binary floating-point number stands for every real that rounds to it.  Its shortest decimal is
the one with the fewest digits among those reals, and of several the nearest to the number itself.
All arithmetic is exact, on natural numbers.

Numbers are written with their shortest digits: with a point and at least one digit behind it as
long as the point stands at most three zeros before the digits or sixteen places behind their
beginning, and with an exponent of at least two digits otherwise.  Reading rounds to the nearest.

They are also written with a given number of digits: behind the point, or in all.  The number is
taken exactly; of two decimals that are equally near the one with an even last digit is taken.

A numeral is a text that is a number and nothing else.  Space around it does not count, digits may
be of any script, and single underscores may stand between digits.
-/

/-! ## Digits and the integers they write -/

namespace RuleCatalogue.Decimal

/-- The value of a digit or letter in a large enough base. -/
def digitValue (c : Char) : Nat :=
  if '0' ≤ c && c ≤ '9' then c.toNat - '0'.toNat
  else if 'a' ≤ c && c ≤ 'z' then c.toNat - 'a'.toNat + 10
  else if 'A' ≤ c && c ≤ 'Z' then c.toNat - 'A'.toNat + 10
  else 36

/-- A digit of a base. -/
def isDigitOf (base : Nat) (c : Char) : Bool :=
  digitValue c < base

/-- The number that digits write. -/
def ofDigits (base : Nat) (digits : List Char) : Nat :=
  digits.foldl (fun n c => n * base + digitValue c) 0

/-- The number that hexadecimal digits write, or nothing where another character stands. -/
def hexValue? (digits : List Char) : Option Nat :=
  if digits.all (isDigitOf 16) then some (ofDigits 16 digits) else none

/-- **The integer of a sign and decimal digits**, unless there are too many. -/
def integer (negative : Bool) (digits : List Char) : Except ReadError Int :=
  if maxIntegerDigits < digits.length then .error (.oversizedInteger digits.length)
  else
    let n := Int.ofNat (ofDigits 10 digits)
    .ok (if negative then -n else n)

/-- **Few enough digits** for an integer to be written and read back. -/
def Short (n : Int) : Prop :=
  (Nat.toDigits 10 n.natAbs).length ≤ maxIntegerDigits

instance (n : Int) : Decidable (Short n) :=
  inferInstanceAs (Decidable (_ ≤ _))

/-- **An integer has too many digits to be written.**  Which one it is, is not told. -/
structure OversizedInteger where
deriving DecidableEq, Repr

/-- The wording of the error. -/
def OversizedInteger.message (_ : OversizedInteger) : String :=
  "Exceeds the limit (" ++ toString maxIntegerDigits
    ++ " digits) for integer string conversion; use sys.set_int_max_str_digits() "
    ++ "to increase the limit"

/-- **The text of an integer**, unless it has too many digits. -/
def integerText (n : Int) : Except OversizedInteger String :=
  if Short n then .ok (toString n) else .error ⟨⟩

end RuleCatalogue.Decimal

/-! ## The shortest decimal that reads back -/

namespace RuleCatalogue.Decimal

/-- **A positive binary number** `mantissa * 2 ^ (exponent - bias)`, as the fields of its bits give
it; `bias` is 1075. -/
structure Binary where
  mantissa : Nat
  exponent : Nat
deriving DecidableEq, Repr

/-- The magnitude of a finite double. -/
def Binary.ofFloat (x : Float) : Binary :=
  let bits := x.toBits.toNat
  let fraction := bits % Nat.pow 2 52
  let field := bits / Nat.pow 2 52 % Nat.pow 2 11
  if field = 0 then ⟨fraction, 1⟩ else ⟨fraction + Nat.pow 2 52, field⟩

/-- Whether the sign bit of a double is set. -/
def isNegative (x : Float) : Bool :=
  decide (Nat.pow 2 63 ≤ x.toBits.toNat)

/-- The number as a fraction with a positive denominator. -/
def Binary.toFraction (b : Binary) : Nat × Nat :=
  if 1075 ≤ b.exponent then (b.mantissa * Nat.pow 2 (b.exponent - 1075), 1)
  else (b.mantissa, Nat.pow 2 (1075 - b.exponent))

/-- **A decimal number** `digits * 10 ^ exponent`. -/
structure Scaled where
  digits : Nat
  exponent : Int
deriving DecidableEq, Repr, Inhabited

/-- The numerator and denominator of a power of ten. -/
def powerOfTen (exponent : Int) : Nat × Nat :=
  if 0 ≤ exponent then (Nat.pow 10 exponent.toNat, 1) else (1, Nat.pow 10 (-exponent).toNat)

/-- Whether `digits * 10 ^ exponent` rounds to `b`: it lies between the midpoints to the two
neighbours of `b`, which count themselves when the mantissa is even. -/
def Binary.rounds (b : Binary) (d : Scaled) : Bool :=
  let (num, den) := b.toFraction
  let (p, q) := powerOfTen d.exponent
  -- compare `4 * mantissa * d` with `(4 * mantissa ± 2) * value`, both sides without fractions
  let shown := 4 * b.mantissa * (d.digits * p * den)
  let unit := num * q
  let below := if b.mantissa = Nat.pow 2 52 ∧ 1 < b.exponent then 1 else 2
  let low := (4 * b.mantissa - below) * unit
  let high := (4 * b.mantissa + 2) * unit
  if b.mantissa % 2 = 0 then low ≤ shown && shown ≤ high else low < shown && shown < high

/-- The number of digits before the point of a fraction; for one below `1/10`, minus the number of
zeros that follow the point. -/
def pointOf (num den : Nat) : Int :=
  if den ≤ num then Int.ofNat (Nat.toDigits 10 (num / den)).length
  else
    let zeros := (List.range 330).find? fun j => den ≤ num * Nat.pow 10 (j + 1)
    Int.neg (zeros.getD 330)

/-- The neighbours of a fraction among the multiples of `10 ^ exponent`, the nearer one first. -/
def neighbours (num den : Nat) (exponent : Int) : List Scaled :=
  let (p, q) := powerOfTen exponent
  let floor := num * q / (den * p)
  let rest := 2 * (num * q % (den * p))
  let up := den * p < rest || (rest = den * p && floor % 2 = 1)
  let lower : Scaled := ⟨floor, exponent⟩
  let upper : Scaled := ⟨floor + 1, exponent⟩
  if up then [upper, lower] else [lower, upper]

/-- **The shortest decimal of a positive number**: the nearest on the coarsest grid that has one. -/
def Binary.shortest (b : Binary) : Scaled :=
  let (num, den) := b.toFraction
  let point := pointOf num den
  ((List.range 17).findSome? fun n =>
    (neighbours num den (point - Int.ofNat (n + 1))).find? b.rounds).getD ⟨num / den, 0⟩

end RuleCatalogue.Decimal

/-! ## Floating-point numbers as text -/

namespace RuleCatalogue.Decimal

/-- The digits of a positive number, without zeros at the end, and the place of the point counted
from their beginning. -/
def digitsAndPoint (b : Binary) : List Char × Int :=
  let d := b.shortest
  let digits := Nat.toDigits 10 d.digits
  let point := d.exponent + digits.length
  ((digits.reverse.dropWhile (· == '0')).reverse, point)

/-- An exponent with its sign and at least two digits. -/
def exponentText (e : Int) : List Char :=
  let digits := Nat.toDigits 10 e.natAbs
  (if e < 0 then '-' else '+') :: (List.replicate (2 - digits.length) '0' ++ digits)

/-- Digits with a point at its place. -/
def positionalText (digits : List Char) (point : Int) : List Char :=
  if point ≤ 0 then '0' :: '.' :: List.replicate (-point).toNat '0' ++ digits
  else
    let place := point.toNat
    let padded := digits ++ List.replicate (place - digits.length) '0'
    let tail := padded.drop place
    padded.take place ++ '.' :: (if tail.isEmpty then ['0'] else tail)

/-- Digits with an exponent. -/
def scientificText (digits : List Char) (point : Int) : List Char :=
  let mantissa :=
    match digits with
    | [] => ['0']
    | [d] => [d]
    | d :: rest => d :: '.' :: rest
  mantissa ++ 'e' :: exponentText (point - 1)

/-- The text of a positive finite number. -/
def magnitudeText (x : Float) : String :=
  let (digits, point) := digitsAndPoint (Binary.ofFloat x)
  String.ofList
    (if -4 < point && point ≤ 16 then positionalText digits point else scientificText digits point)

/-- **The text of a number.** -/
def floatText (x : Float) : String :=
  if x.isNaN then "nan"
  else
    let sign := if isNegative x then "-" else ""
    sign ++ (if x.isInf then "inf" else if x == 0.0 then "0.0" else magnitudeText x)

/-- **The double nearest to a decimal** `digits * 10 ^ exponent`; magnitudes beyond all doubles are
infinite, those below all doubles are zero. -/
def toFloat (digits : Nat) (exponent : Int) : Float :=
  let magnitude := exponent + (Nat.toDigits 10 digits).length
  if digits = 0 || magnitude < -400 then 0.0
  else if 400 < magnitude then 1.0 / 0.0
  else Float.ofScientific digits (decide (exponent < 0)) exponent.natAbs

end RuleCatalogue.Decimal

/-! ## Rounded decimals -/

namespace RuleCatalogue.Decimal

/-- **A fraction rounded to a whole number**; a half goes to the even neighbour. -/
def roundQuotient (num den : Nat) : Nat :=
  let floor := num / den
  let rest := 2 * (num % den)
  if den < rest || (rest = den && floor % 2 = 1) then floor + 1 else floor

/-- Digits with zeros before them, so that there are at least so many. -/
def padded (count : Nat) (digits : List Char) : List Char :=
  List.replicate (count - digits.length) '0' ++ digits

/-- A fraction behind a point; the point of an empty one is left out unless it is asked for. -/
def fractionText (keepPoint : Bool) (fraction : List Char) : List Char :=
  if fraction.isEmpty && !keepPoint then [] else '.' :: fraction

/-- **A number with so many places** behind the point. -/
def fixedText (b : Binary) (places : Nat) (keepPoint : Bool) : List Char :=
  let (num, den) := b.toFraction
  let digits := padded (places + 1) (Nat.toDigits 10 (roundQuotient (num * Nat.pow 10 places) den))
  let whole := digits.length - places
  digits.take whole ++ fractionText keepPoint (digits.drop whole)

/-- **The leading digits of a number**, at least one, and the power of ten of the first. -/
def leadingDigits (b : Binary) (count : Nat) : List Char × Int :=
  if b.mantissa = 0 then (List.replicate count '0', 0)
  else
    let (num, den) := b.toFraction
    let point := pointOf num den
    let (p, q) := powerOfTen (Int.ofNat count - point)
    let digits := Nat.toDigits 10 (roundQuotient (num * p) (den * q))
    if count < digits.length then (digits.take count, point) else (digits, point - 1)

/-- Leading digits as a text with an exponent. -/
def withExponent (digits : List Char) (exponent : Int) (keepPoint : Bool) : List Char :=
  digits.take 1 ++ fractionText keepPoint (digits.drop 1) ++ 'e' :: exponentText exponent

/-- **A number with an exponent** and so many places behind the point. -/
def exponentialText (b : Binary) (places : Nat) (keepPoint : Bool) : List Char :=
  let (digits, exponent) := leadingDigits b (places + 1)
  withExponent digits exponent keepPoint

/-- Digits without the zeros at their end. -/
def dropZeros (digits : List Char) : List Char :=
  (digits.reverse.dropWhile (· == '0')).reverse

/-- **A number with so many digits in all**, with an exponent if it is very small or has more
digits before the point.  Zeros at the end of the fraction are dropped unless they are asked for. -/
def generalText (b : Binary) (count : Nat) (keepZeros : Bool) : List Char :=
  let (digits, exponent) := leadingDigits b (max count 1)
  let kept (fraction : List Char) : List Char := if keepZeros then fraction else dropZeros fraction
  if -4 ≤ exponent && exponent < Int.ofNat (max count 1) then
    if exponent < 0 then
      '0' :: fractionText keepZeros
        (kept (List.replicate (-exponent - 1).toNat '0' ++ digits))
    else
      let whole := exponent.toNat + 1
      digits.take whole ++ fractionText keepZeros (kept (digits.drop whole))
  else withExponent (digits.take 1 ++ kept (digits.drop 1)) exponent keepZeros

end RuleCatalogue.Decimal

/-! ## Numerals -/

namespace RuleCatalogue.Decimal

/-- Digits of every script as those of ASCII. -/
def plainDigit (c : Char) : Char :=
  match Text.decimalDigit? c with
  | some n => Char.ofNat ('0'.toNat + n)
  | none => c

/-- Digits of a base with single underscores between them, to the end of the text. -/
def groupedToEnd? (base : Nat) : List Char → Option (List Char)
  | [] => none
  | [c] => if isDigitOf base c then some [c] else none
  | c :: '_' :: rest =>
      if isDigitOf base c then (groupedToEnd? base rest).map (c :: ·) else none
  | c :: rest => if isDigitOf base c then (groupedToEnd? base rest).map (c :: ·) else none

/-- A sign, where one stands, and what follows it. -/
def takeSign : List Char → Bool × List Char
  | '-' :: rest => (true, rest)
  | '+' :: rest => (false, rest)
  | s => (false, s)

/-- The letter that may mark a numeral of a base, behind a zero. -/
def baseLetter? (base : Nat) : Option Char :=
  if base = 16 then some 'x' else if base = 8 then some 'o' else if base = 2 then some 'b' else none

/-- The digits behind the mark of a base, where the numeral has it. -/
def dropBaseMark (base : Nat) (s : List Char) : List Char :=
  match s with
  | '0' :: c :: rest =>
      if baseLetter? base == some c.toLower then
        match rest with
        | '_' :: digits => digits
        | _ => rest
      else s
  | _ => s

/-- **The integer of a numeral** in a base. -/
def parseInteger (base : Nat) (s : String) : Except ReadError Int :=
  let (negative, unsigned) := takeSign ((Text.trim s.toList).map plainDigit)
  match groupedToEnd? base (dropBaseMark base unsigned) with
  | none => .error (.notInteger base s)
  | some digits =>
      if base = 10 then integer negative digits
      else
        let n := Int.ofNat (ofDigits base digits)
        .ok (if negative then -n else n)

/-- The names of the numbers that are none, in lower case. -/
def specialFloat? (s : List Char) : Option Float :=
  if s == "inf".toList || s == "infinity".toList then some (1.0 / 0.0)
  else if s == "nan".toList then some (0.0 / 0.0)
  else none

/-- Digits with single underscores between them, possibly none at all. -/
def optionalDigits? (s : List Char) : Option (List Char) :=
  if s.isEmpty then some [] else groupedToEnd? 10 s

/-- The exponent of a numeral, from its letter to its end. -/
def exponentToEnd? (s : List Char) : Option Int :=
  match s with
  | [] => some 0
  | _ :: rest =>
      let (negative, digits) := takeSign rest
      (groupedToEnd? 10 digits).map fun digits =>
        let n := Int.ofNat (ofDigits 10 digits)
        if negative then -n else n

/-- The number of a numeral without a sign. -/
def unsignedFloat? (s : List Char) : Option Float :=
  let isExponentLetter (c : Char) : Bool := c == 'e' || c == 'E'
  let mantissa := s.takeWhile (!isExponentLetter ·)
  let whole := mantissa.takeWhile (· != '.')
  let behindPoint := (mantissa.drop whole.length).drop 1
  match optionalDigits? whole, optionalDigits? behindPoint,
      exponentToEnd? (s.drop mantissa.length) with
  | some whole, some part, some power =>
      if whole.isEmpty && part.isEmpty then none
      else some (toFloat (ofDigits 10 (whole ++ part)) (power - part.length))
  | _, _, _ => none

/-- **The number of a numeral**, with or without a fraction or an exponent. -/
def parseFloat? (s : String) : Option Float :=
  let (negative, unsigned) := takeSign ((Text.trim s.toList).map plainDigit)
  let x := (specialFloat? (unsigned.map Char.toLower)).or (unsignedFloat? unsigned)
  x.map fun x => if negative then -x else x

end RuleCatalogue.Decimal
