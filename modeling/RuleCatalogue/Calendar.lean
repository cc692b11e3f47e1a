import RuleCatalogue.Decimal
import RuleCatalogue.Value

/-!
# Dates, times and points in time

Data files may hold dates and times.  No rule of a catalogue uses them, but a date that does not
exist is refused, and messages show the ones that were found.

A point in time is counted in milliseconds from the beginning of the year 1970, in coordinated
universal time, and written as a date and a time of day.
-/

/-! ## Dates and times -/

namespace RuleCatalogue

/-- **A date** of the Gregorian calendar. -/
structure Date where
  year : Nat
  month : Nat
  day : Nat
deriving DecidableEq, Repr

/-- **A time of day**, to the microsecond. -/
structure TimeOfDay where
  hour : Nat
  minute : Nat
  second : Nat := 0
  microsecond : Nat := 0
deriving DecidableEq, Repr

namespace Date

/-- Whether a year has a twenty-ninth of February. -/
def isLeap (year : Nat) : Bool :=
  year % 4 == 0 && (year % 100 != 0 || year % 400 == 0)

/-- The number of days of a month. -/
def daysIn (year month : Nat) : Nat :=
  if month = 2 then (if isLeap year then 29 else 28)
  else if month = 4 ∨ month = 6 ∨ month = 9 ∨ month = 11 then 30
  else 31

/-- Which part of a date is out of range, if one is. -/
def problem? (d : Date) : Option String :=
  if d.year < 1 ∨ 9999 < d.year then some ("year " ++ toString d.year ++ " is out of range")
  else if d.month < 1 ∨ 12 < d.month then some "month must be in 1..12"
  else if d.day < 1 ∨ daysIn d.year d.month < d.day then some "day is out of range for month"
  else none

/-- The number of days from the first day of year one, counted from one. -/
def ordinal (d : Date) : Nat :=
  let before := d.year - 1
  let months := (List.range (d.month - 1)).map fun m => daysIn d.year (m + 1)
  before * 365 + before / 4 - before / 100 + before / 400 + months.foldl (· + ·) 0 + d.day

/-- The parts as messages list them. -/
def parts (d : Date) : List String :=
  [toString d.year, toString d.month, toString d.day]

/-- The value of a date. -/
def toValue (d : Date) : Value :=
  .other "date" (Value.enclose "datetime.date(" d.parts ")")

end Date

namespace TimeOfDay

/-- Which part of a time is out of range, if one is. -/
def problem? (t : TimeOfDay) : Option String :=
  if 23 < t.hour then some "hour must be in 0..23"
  else if 59 < t.minute then some "minute must be in 0..59"
  else if 59 < t.second then some "second must be in 0..59"
  else none

/-- The parts as messages list them: seconds and microseconds only as far as they are not zero. -/
def parts (t : TimeOfDay) : List String :=
  [toString t.hour, toString t.minute]
    ++ (if t.second = 0 ∧ t.microsecond = 0 then [] else [toString t.second])
    ++ (if t.microsecond = 0 then [] else [toString t.microsecond])

/-- The value of a time of day. -/
def toValue (t : TimeOfDay) : Value :=
  .other "time" (Value.enclose "datetime.time(" t.parts ")")

end TimeOfDay

/-- The text of an offset from universal time, given in seconds. -/
def offsetText (seconds : Int) : String :=
  let day : Int := 86400
  let days := seconds / day
  let rest := seconds % day
  let parts :=
    (if days = 0 then [] else ["days=" ++ toString days])
      ++ (if rest = 0 then [] else ["seconds=" ++ toString rest])
  Value.enclose "datetime.timedelta(" parts ")"

/-- The text of a time zone with a fixed offset in seconds. -/
def zoneText (seconds : Int) : String :=
  if seconds = 0 then "datetime.timezone.utc"
  else "datetime.timezone(" ++ offsetText seconds ++ ")"

/-- The value of a date with a time, and with an offset in seconds where one is given. -/
def momentValue (d : Date) (t : TimeOfDay) (offset : Option Int) : Value :=
  let zone := offset.toList.map fun seconds => "tzinfo=" ++ zoneText seconds
  .other "datetime" (Value.enclose "datetime.datetime(" (d.parts ++ t.parts ++ zone) ")")

end RuleCatalogue

/-! ## Points in time -/

namespace RuleCatalogue

/-- Divides a number of days among months that begin with this one, as long as `fuel` lasts. -/
def Date.advance (year month days : Nat) : Nat → Date
  | 0 => ⟨year, month, days + 1⟩
  | fuel + 1 =>
      let length := daysIn year month
      if days < length then ⟨year, month, days + 1⟩
      else if month = 12 then advance (year + 1) 1 (days - length) fuel
      else advance year (month + 1) (days - length) fuel

/-- **The date so many days after the first of January 1970.**  No month has fewer than twenty-eight
days, so the fuel lasts. -/
def Date.ofDays (days : Nat) : Date :=
  advance 1970 1 days (days / 28)

/-- **A point in time.** -/
structure Moment where
  milliseconds : Nat
deriving DecidableEq, Repr

namespace Moment

/-- A number with so many digits. -/
def digits (count n : Nat) : String :=
  String.ofList (Decimal.padded count (Nat.toDigits 10 n))

/-- The date, with a text between its parts. -/
def dateText (t : Moment) (mark : String) : String :=
  let date := Date.ofDays (t.milliseconds / 86400000)
  digits 4 date.year ++ mark ++ digits 2 date.month ++ mark ++ digits 2 date.day

/-- The time of day, with a text between its parts. -/
def timeText (t : Moment) (mark : String) : String :=
  let seconds := t.milliseconds / 1000
  digits 2 (seconds / 3600 % 24) ++ mark ++ digits 2 (seconds / 60 % 60) ++ mark
    ++ digits 2 (seconds % 60)

/-- **The text of a point in time**, to the millisecond. -/
def text (t : Moment) : String :=
  t.dateText "-" ++ "T" ++ t.timeText ":" ++ "." ++ digits 3 (t.milliseconds % 1000) ++ "Z"

/-- **A point in time in the name of a run**, to the second. -/
def stamp (t : Moment) : String :=
  t.dateText "" ++ "T" ++ t.timeText "" ++ "Z"

end Moment

end RuleCatalogue
