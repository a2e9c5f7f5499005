/-!
# Durations

Spans of time counted in whole nanoseconds, and the readable text in which a remaining time is
reported.
-/

namespace Scheduling

/-- A span of time, exact to the nanosecond and never negative. -/
structure Duration where
  nanos : Nat
deriving DecidableEq, Repr, Inhabited

namespace Duration

/-- The empty span. -/
def zero : Duration := ⟨0⟩

/-- A span of whole seconds and a number of nanoseconds on top. -/
def ofSeconds (seconds : Nat) (nanos : Nat := 0) : Duration :=
  ⟨seconds * 1000000000 + nanos⟩

/-- A span of whole milliseconds. -/
def ofMillis (millis : Nat) : Duration :=
  ⟨millis * 1000000⟩

/-- The whole seconds of a span. -/
def seconds (d : Duration) : Nat :=
  d.nanos / 1000000000

/-- The whole milliseconds of a span; what is left of a millisecond is dropped. -/
def millis (d : Duration) : Nat :=
  d.nanos / 1000000

/-- The largest number of milliseconds that a document can hold. -/
def maxMillis : Nat := UInt64.size - 1

/-- The milliseconds written into documents: whole ones, at most `maxMillis`. -/
def storedMillis (d : Duration) : Nat :=
  min d.millis maxMillis

/-- The span from one wall-clock reading to another, empty when the second is earlier. -/
def between (start stop : Int) : Duration :=
  ⟨(stop - start).toNat⟩

theorem millis_ofMillis (n : Nat) : (ofMillis n).millis = n := by
  simp [millis, ofMillis]

/-- The digits of a fraction of `width` places without its trailing zeros. -/
def fractionDigits (width part : Nat) : String :=
  let digits := (Nat.toDigits 10 part)
  let padded := List.replicate (width - digits.length) '0' ++ digits
  String.ofList (padded.reverse.dropWhile (· == '0')).reverse

/-- `count / 10 ^ places` in decimal, exact and without trailing zeros, with the unit behind. -/
def decimalText (count places : Nat) (unit : String) : String :=
  let whole := toString (count / Nat.pow 10 places)
  let part := count % Nat.pow 10 places
  if part = 0 then whole ++ unit else whole ++ "." ++ fractionDigits places part ++ unit

/-- The readable text of a span: the largest of the units s, ms, µs and ns that has a whole part,
with the exact fraction. -/
def text (d : Duration) : String :=
  if d.nanos ≥ 1000000000 then decimalText d.nanos 9 "s"
  else if d.nanos ≥ 1000000 then decimalText d.nanos 6 "ms"
  else if d.nanos ≥ 1000 then decimalText d.nanos 3 "µs"
  else toString d.nanos ++ "ns"

end Duration

end Scheduling
