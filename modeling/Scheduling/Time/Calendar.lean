/-!
# The Gregorian calendar

Civil dates as day counts and back, month lengths and weekdays. Day 0 is 1970-01-01, and years
before 1 are numbered on without a gap, so every day of the past and future has a date.
-/

namespace Scheduling

/-- A day named by year, month (1 to 12) and day of the month (from 1). -/
structure Date where
  year : Int
  month : Nat
  day : Nat
deriving DecidableEq, Repr, Inhabited

namespace Calendar

/-- Every fourth year is a leap year, except the centuries that 400 does not divide. -/
def isLeap (year : Int) : Bool :=
  year % 4 = 0 && (year % 100 != 0 || year % 400 = 0)

/-- The lengths of the twelve months. -/
def monthLengths (leap : Bool) : List Nat :=
  [31, if leap then 29 else 28, 31, 30, 31, 30, 31, 31, 30, 31, 30, 31]

/-- The number of days of a month, counted from 1. -/
def monthLength (year : Int) (month : Nat) : Nat :=
  (monthLengths (isLeap year)).getD (month - 1) 0

/-- The days from 1970-01-01 to the first day of a year. -/
def daysBeforeYear (year : Int) : Int :=
  let y := year - 1
  365 * y + y / 4 - y / 100 + y / 400 - 719162

/-- The days of a year before the first of a month. -/
def daysBeforeMonth (leap : Bool) (month : Nat) : Nat :=
  ((monthLengths leap).take (month - 1)).foldl (· + ·) 0

/-- The year that holds a day: whole cycles of 400 years first, then centuries, fours and years,
where the last century and the last year of a cycle take its extra day. -/
def yearOfDay (day : Int) : Int :=
  let n := day + 719162
  let r400 := n % 146097
  let centuries := min 3 (r400 / 36524)
  let r100 := r400 - centuries * 36524
  let r4 := r100 % 1461
  let years := min 3 (r4 / 365)
  400 * (n / 146097) + 100 * centuries + 4 * (r100 / 1461) + years + 1

/-- Month and day of the month of a day counted from 0 within its year. -/
def monthOfDay : List Nat → Nat → Nat → Nat × Nat
  | [], month, day => (month, day + 1)
  | length :: rest, month, day =>
    if day < length then (month, day + 1) else monthOfDay rest (month + 1) (day - length)

/-- The weekday of a day, 1 for Sunday to 7 for Saturday. -/
def weekday (day : Int) : Nat :=
  ((day + 4) % 7).toNat + 1

end Calendar

namespace Date

open Calendar

/-- The days from 1970-01-01 to a date. -/
def toDays (date : Date) : Int :=
  daysBeforeYear date.year + daysBeforeMonth (isLeap date.year) date.month + (date.day - 1)

/-- The date of a day counted from 1970-01-01. -/
def ofDays (day : Int) : Date :=
  let year := yearOfDay day
  let (month, dayOfMonth) :=
    monthOfDay (monthLengths (isLeap year)) 1 (day - daysBeforeYear year).toNat
  ⟨year, month, dayOfMonth⟩

end Date

/-- A date and a time of day, without a zone. -/
structure LocalTime where
  date : Date
  hour : Nat
  minute : Nat
  second : Nat
deriving DecidableEq, Repr, Inhabited

namespace LocalTime

/-- The seconds from 1970-01-01 00:00:00 to a local time, both read in the same zone. -/
def toSeconds (t : LocalTime) : Int :=
  t.date.toDays * 86400 + (t.hour * 3600 + t.minute * 60 + t.second : Nat)

/-- The local time that is a number of seconds after 1970-01-01 00:00:00. -/
def ofSeconds (s : Int) : LocalTime :=
  let clock := (s % 86400).toNat
  ⟨Date.ofDays (s / 86400), clock / 3600, clock / 60 % 60, clock % 60⟩

end LocalTime

end Scheduling
