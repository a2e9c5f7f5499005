import Scheduling.Cron.Schedule
import Scheduling.Time.Zone
import Scheduling.Time.Timestamp
/-!
# The next time of a schedule

The search runs through local times in ascending order, from the second after the given instant:
years, months, days, hours, minutes, seconds. The starting month, day and time of day bound the
first allowed year, also when that year is later than the starting one. A local time counts only
if it belongs to exactly one instant.
-/

namespace Scheduling.Cron

/-- How a search ends. -/
inductive Next
  /-- The schedule is met at this second since 1970-01-01 UTC. -/
  | at (second : Int)
  /-- No allowed year has a time that meets the schedule. -/
  | never
  /-- The search came to a local date that the zone skips as a whole. -/
  | skippedDate
deriving DecidableEq, Repr, Inhabited

/-- What trying one local time tells about the rest of its day. -/
inductive Trial
  | meets (second : Int)
  | otherWeekday
  | skippedDate
deriving DecidableEq, Repr

namespace Schedule

/-- Whether a zone skips a local date: neither its first nor its last second occurs. -/
def skips (zone : Zone) (date : Date) : Bool :=
  let midnight := date.toDays * 86400
  !zone.occurs midnight && !zone.occurs (midnight + 86399)

/-- Tries one local time; `none` if it is none or several instants. -/
def attempt (s : Schedule) (zone : Zone) (t : LocalTime) : Option Trial :=
  if skips zone t.date then some .skippedDate
  else
    match zone.instantOf? t.toSeconds with
    | none => none
    | some u =>
      if Calendar.weekday t.date.toDays ∈ s.daysOfWeek then some (.meets u)
      else some .otherWeekday

/-- The values from `floor` on while the search is still bound by its start, else all. -/
def fromFloor (bound : Bool) (floor : Nat) (values : List Nat) : List Nat :=
  if bound then values.filter (floor ≤ ·) else values

/-- Tries the allowed times of one day; `bound` if the start's time of day bounds it. -/
def tryDay (s : Schedule) (zone : Zone) (start : LocalTime) (bound : Bool) (date : Date) :
    Option Trial :=
  (fromFloor bound start.hour s.hours).findSome? fun h =>
    let bound := bound && h == start.hour
    (fromFloor bound start.minute s.minutes).findSome? fun m =>
      let bound := bound && m == start.minute
      (fromFloor bound start.second s.seconds).findSome? fun sec =>
        s.attempt zone ⟨date, h, m, sec⟩

/-- What the times of one day tell about the search: a day of a wrong weekday lets it go on. -/
def searchDay (s : Schedule) (zone : Zone) (start : LocalTime) (bound : Bool) (date : Date) :
    Option Next :=
  match s.tryDay zone start bound date with
  | some (.meets u) => some (.at u)
  | some .skippedDate => some .skippedDate
  | some .otherWeekday => none
  | none => none

/-- Searches one month; `bound` if the start's day bounds it. A starting day that the month does
not have counts as its last day. -/
def searchMonth (s : Schedule) (zone : Zone) (start : LocalTime) (bound : Bool) (year : Int)
    (month : Nat) : Option Next :=
  let length := Calendar.monthLength year month
  let floor := min start.date.day length
  let days := (fromFloor bound floor s.daysOfMonth).filter (· ≤ length)
  days.findSome? fun day =>
    let bound := bound && day == floor && s.daysOfMonth.contains start.date.day
    s.searchDay zone start bound ⟨year, month, day⟩

/-- Searches one year; `bound` if the start's month bounds it. -/
def searchYear (s : Schedule) (zone : Zone) (start : LocalTime) (bound : Bool) (year : Int) :
    Option Next :=
  (fromFloor bound start.date.month s.months).findSome? fun month =>
    s.searchMonth zone start (bound && month == start.date.month) year month

/-- The allowed years from the starting one on; no year follows one before year 0. -/
def yearsFrom (s : Schedule) (start : Int) : List Int :=
  if start < 0 then [] else (s.years.map Int.ofNat).filter (start ≤ ·)

/-- The first time that meets the schedule, from a local time on. -/
def searchFrom (s : Schedule) (zone : Zone) (start : LocalTime) : Next :=
  match s.yearsFrom start.date.year with
  | [] => .never
  | first :: later =>
    match s.searchYear zone start true first with
    | some next => next
    | none => (later.findSome? (s.searchYear zone start false)).getD .never

/-- The first time that meets the schedule after an instant; a fraction of a second is ignored. -/
def nextAfter (s : Schedule) (zone : Zone) (after : Timestamp) : Next :=
  s.searchFrom zone (LocalTime.ofSeconds (zone.localSeconds (after.seconds + 1)))

/-- The next `count` times, each searched from the one before; the list ends early with a search
that found none. -/
def upcoming (s : Schedule) (zone : Zone) : Timestamp → Nat → List Next
  | _, 0 => []
  | after, count + 1 =>
    match s.nextAfter zone after with
    | .at second => .at second :: s.upcoming zone (Timestamp.ofSeconds second) count
    | next => [next]

end Schedule

end Scheduling.Cron
