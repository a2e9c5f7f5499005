import Scheduling.Cron.Search
import Scheduling.Time.Duration
/-!
# Slots of a timer

A timer fires slot after slot of its schedule. It reads the wall clock twice for each: once to find
the slot and once to find how long to sleep. The search starts from the later of the first reading
and the slot fired last, so a slot does not come twice when the timer wakes early or the clock is
set back.
-/

namespace Scheduling.Cron

namespace Schedule

/-- The instant from which the next slot is searched. -/
def searchStart (lastFired : Option Int) (reading : Timestamp) : Timestamp :=
  match lastFired with
  | none => reading
  | some slot =>
    if reading.nanos ≤ (Timestamp.ofSeconds slot).nanos then Timestamp.ofSeconds slot else reading

/-- The next slot of a timer that last fired at `lastFired` and reads `reading` on the clock. -/
def nextSlot (s : Schedule) (zone : Zone) (lastFired : Option Int) (reading : Timestamp) : Next :=
  s.nextAfter zone (searchStart lastFired reading)

/-- How long to sleep until a slot: not at all if the clock is past it. -/
def delayUntil (slot : Int) (reading : Timestamp) : Duration :=
  Duration.between reading.nanos (Timestamp.ofSeconds slot).nanos

end Schedule

end Scheduling.Cron
