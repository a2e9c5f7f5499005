import Scheduling.Time.Duration
import Scheduling.Time.Timestamp
/-!
# The steady clock

Deadlines are instants of a clock that only runs forward. Its timers go off at whole milliseconds:
one that is due within a millisecond goes off at the end of it.
-/

namespace Scheduling

/-- An instant of the steady clock: nanoseconds since it was started. -/
abbrev Instant := Nat

namespace Instant

/-- The clock counts fewer than 2 to the power 63 seconds. -/
def limit : Nat := UInt64.size / 2 * 1000000000

/-- The message of an instant that the clock cannot count. -/
def overflowText : String := "overflow when adding duration to instant"

/-- The instant some time later, if the clock can count it. -/
def add? (t : Instant) (d : Duration) : Option Instant :=
  if t + d.nanos < limit then some (t + d.nanos) else none

/-- Thirty years, the longest sleep that stands in for one beyond the end of the clock. -/
def farFuture : Duration := Duration.ofSeconds 946080000

/-- When a sleep that starts now ends; one beyond the end of the clock lasts thirty years. -/
def wake (t : Instant) (d : Duration) : Instant :=
  (t.add? d).getD (t + farFuture.nanos)

/-- The first whole millisecond at or after an instant, when a timer for it goes off. -/
def ceilMillis (t : Instant) : Nat := (t + 999999) / 1000000

/-- The time from one instant to a later one, empty if it is not later. -/
def until_ (t later : Instant) : Duration := ⟨later - t⟩

end Instant

/-- The steady clock and the wall clock that runs beside it. -/
structure Clock where
  /-- The wall clock at the start of the steady clock, in milliseconds since 1970-01-01. -/
  origin : Int
  /-- Whole milliseconds since the start. -/
  millis : Nat
deriving DecidableEq, Repr, Inhabited

namespace Clock

/-- The present instant of the steady clock. -/
-- The number of milliseconds stands last: the product unfolds along it and stops there.
def now (c : Clock) : Instant := 1000000 * c.millis

/-- The present reading of the wall clock. -/
def wall (c : Clock) : Timestamp := Timestamp.ofMillis (c.origin + c.millis)

end Clock

end Scheduling
