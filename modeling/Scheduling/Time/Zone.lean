import Scheduling.Time.Calendar
/-!
# Time zones

A zone is the offset from UTC that holds at first and the list of instants at which it changes.
An instant has one local time; a local time has one instant, none when the clock was set forward
over it, or several when the clock was set back.
-/

namespace Scheduling

/-- The offset of local time from UTC over all of time, in seconds east. -/
structure Zone where
  /-- The offset before the first change. -/
  start : Int
  /-- Instants in seconds since 1970-01-01 UTC, ascending, each with the offset from then on. -/
  changes : List (Int × Int)
deriving DecidableEq, Repr, Inhabited

namespace Zone

/-- A zone whose offset never changes. -/
def fixed (offset : Int) : Zone := ⟨offset, []⟩

/-- Local time is UTC. -/
def utc : Zone := fixed 0

/-- The offset at an instant, when `offset` holds before the first of the changes. -/
def offsetAfter (offset : Int) : List (Int × Int) → Int → Int
  | [], _ => offset
  | (moment, next) :: rest, u => if u < moment then offset else offsetAfter next rest u

/-- The offset that a zone has at an instant. -/
def offsetAt (zone : Zone) (u : Int) : Int :=
  offsetAfter zone.start zone.changes u

/-- The local time of an instant, in seconds since 1970-01-01 00:00:00 of local time. -/
def localSeconds (zone : Zone) (u : Int) : Int :=
  u + zone.offsetAt u

/-- The instants from `since` on that have a local time, when `offset` holds there and before the
first of the changes. -/
def instantsAfter (since : Option Int) (offset : Int) : List (Int × Int) → Int → List Int
  | [], t => if since.all (· ≤ t - offset) then [t - offset] else []
  | (moment, next) :: rest, t =>
    let later := instantsAfter (some moment) next rest t
    if since.all (· ≤ t - offset) && t - offset < moment then (t - offset) :: later else later

/-- Every instant that has a local time, ascending. -/
def instantsOf (zone : Zone) (t : Int) : List Int :=
  instantsAfter none zone.start zone.changes t

/-- The instant of a local time that has exactly one. -/
def instantOf? (zone : Zone) (t : Int) : Option Int :=
  match zone.instantsOf t with
  | [u] => some u
  | _ => none

/-- Whether some instant has a local time. -/
def occurs (zone : Zone) (t : Int) : Bool :=
  !(zone.instantsOf t).isEmpty

end Zone

end Scheduling
