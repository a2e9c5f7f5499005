import Scheduling.Time.Calendar
/-!
# Timestamps

Wall-clock instants in UTC, counted in nanoseconds from 1970-01-01, and their text in RFC 3339.
-/

namespace Scheduling

/-- An instant of the wall clock: nanoseconds since 1970-01-01 00:00:00 UTC. -/
structure Timestamp where
  nanos : Int
deriving DecidableEq, Repr, Inhabited

namespace Timestamp

/-- The instant a number of milliseconds after 1970-01-01. -/
def ofMillis (millis : Int) : Timestamp := ⟨millis * 1000000⟩

/-- The instant a number of seconds after 1970-01-01. -/
def ofSeconds (seconds : Int) : Timestamp := ⟨seconds * 1000000000⟩

/-- The last whole second at or before an instant. -/
def seconds (t : Timestamp) : Int := t.nanos / 1000000000

/-- A number padded with zeros on the left. -/
def padded (width n : Nat) : String :=
  let digits := Nat.toDigits 10 n
  String.ofList (List.replicate (width - digits.length) '0' ++ digits)

/-- Years 0 to 9999 have four digits, all others a sign and at least four digits. -/
def yearText (year : Int) : String :=
  if 0 ≤ year ∧ year ≤ 9999 then padded 4 year.toNat
  else (if year < 0 then "-" else "+") ++ padded 4 year.natAbs

/-- The fraction of a second: absent when zero, else 3, 6 or 9 digits, the fewest that are exact. -/
def fractionText (nanos : Nat) : String :=
  if nanos = 0 then ""
  else if nanos % 1000000 = 0 then "." ++ padded 3 (nanos / 1000000)
  else if nanos % 1000 = 0 then "." ++ padded 6 (nanos / 1000)
  else "." ++ padded 9 nanos

/-- The RFC 3339 text of an instant, in UTC and marked `Z`. -/
def text (t : Timestamp) : String :=
  let time := LocalTime.ofSeconds t.seconds
  yearText time.date.year ++ "-" ++ padded 2 time.date.month ++ "-" ++ padded 2 time.date.day ++ "T"
    ++ padded 2 time.hour ++ ":" ++ padded 2 time.minute ++ ":" ++ padded 2 time.second
    ++ fractionText (t.nanos % 1000000000).toNat ++ "Z"

end Timestamp

end Scheduling
