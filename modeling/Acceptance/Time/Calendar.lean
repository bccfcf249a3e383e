import Acceptance.Text.Basic

/-! # The calendar

Dates of the proleptic Gregorian calendar and their day numbers, counted from 1 for the first day of
year 1.
-/

namespace Acceptance

/-- A date, by year, month and day; `Date.isValid` says which exist. -/
structure Date where
  year : Nat
  month : Nat
  day : Nat
  deriving DecidableEq

namespace Date

/-! ## Years and months -/

def isLeapYear (year : Nat) : Bool := year % 4 == 0 && (year % 100 != 0 || year % 400 == 0)

/-- The days of all years before `year`. -/
def daysBeforeYear (year : Nat) : Nat :=
  let past := year - 1
  past * 365 + past / 4 - past / 100 + past / 400

/-- The lengths of the months. -/
def monthLengths (leap : Bool) : List Nat :=
  [31, if leap then 29 else 28, 31, 30, 31, 30, 31, 31, 30, 31, 30, 31]

def daysInMonth (year month : Nat) : Nat := (monthLengths (isLeapYear year)).getD (month - 1) 0

/-- The days of the year before `month`. -/
def daysBeforeMonth (year month : Nat) : Nat :=
  ((monthLengths (isLeapYear year)).take (month - 1)).foldl (· + ·) 0

/-- The last year that dates reach. -/
def lastYear : Nat := 9999

/-- How many dates there are. -/
def count : Nat := daysBeforeYear (lastYear + 1)

def isValid (d : Date) : Bool :=
  1 ≤ d.year && d.year ≤ lastYear && 1 ≤ d.month && d.month ≤ 12 && 1 ≤ d.day &&
    d.day ≤ daysInMonth d.year d.month

/-! ## Day numbers -/

/-- The day number of a date, 1 for the first. -/
def ordinal (d : Date) : Nat := daysBeforeYear d.year + daysBeforeMonth d.year d.month + d.day

/-- The month and day that lie `days` after the start of a year whose months from number `month` on
have the given lengths. -/
def monthAndDay (month days : Nat) : List Nat → Nat × Nat
  | [] => (month, days + 1)
  | length :: lengths =>
    if days < length then (month, days + 1) else monthAndDay (month + 1) (days - length) lengths

/-- The date of a day number from 1 on. -/
def ofOrdinal (n : Nat) : Date :=
  let days := n - 1
  let era := days % 146097
  let century := min (era / 36524) 3
  let inCentury := era - century * 36524
  let inCycle := inCentury % 1461
  let single := min (inCycle / 365) 3
  let year := days / 146097 * 400 + century * 100 + inCentury / 1461 * 4 + single + 1
  let (month, day) := monthAndDay 1 (inCycle - single * 365) (monthLengths (isLeapYear year))
  { year, month, day }

/-- The day of the week of a day number, Monday being 0. -/
def weekday (ordinal : Nat) : Nat := (ordinal + 6) % 7

/-! ## Weeks -/

/-- The day number of the Monday of week 1: the week with the first Thursday. It may lie before the
first date. -/
def firstMonday (year : Nat) : Int :=
  let newYear := daysBeforeYear year + 1
  let day := weekday newYear
  (newYear : Int) - day + if 3 < day then 7 else 0

/-- Does the year have a week 53? -/
def hasLongYear (year : Nat) : Bool :=
  let day := weekday (daysBeforeYear year + 1)
  day == 3 || (day == 2 && isLeapYear year)

/-- The day number of a day of a week, if the year has that week and the week that day. -/
def ordinalOfWeek? (year week day : Nat) : Option Int :=
  if 1 ≤ week && (week ≤ 52 || (week == 53 && hasLongYear year)) &&
      1 ≤ day && day ≤ 7 then
    some (firstMonday year + ((week - 1) * 7 + (day - 1) : Nat))
  else none

/-! ## Text -/

/-- Year, month and day with dashes. -/
def toText (d : Date) : Text :=
  Text.padded 4 d.year ++ "-" ++ Text.padded 2 d.month ++ "-" ++ Text.padded 2 d.day

end Date

/-- A time of day, by hour, minute, second and microsecond. -/
structure ClockTime where
  hour : Nat
  minute : Nat
  second : Nat
  micro : Nat
  deriving DecidableEq

namespace ClockTime

def isValid (t : ClockTime) : Bool :=
  t.hour ≤ 23 && t.minute ≤ 59 && t.second ≤ 59 && t.micro ≤ 999999

/-- The microseconds since midnight. -/
def micros (t : ClockTime) : Nat := ((t.hour * 60 + t.minute) * 60 + t.second) * 1000000 + t.micro

/-- The time of day that many microseconds after midnight. -/
def ofMicros (n : Nat) : ClockTime :=
  let seconds := n / 1000000
  { hour := seconds / 3600
    minute := seconds / 60 % 60
    second := seconds % 60
    micro := n % 1000000 }

/-- Hour, minute and second with colons, and six decimals if there are any microseconds. -/
def toText (t : ClockTime) : Text :=
  let fraction : Text := if t.micro = 0 then [] else "." ++ Text.padded 6 t.micro
  Text.padded 2 t.hour ++ ":" ++ Text.padded 2 t.minute ++ ":" ++ Text.padded 2 t.second ++ fraction

end ClockTime

end Acceptance
