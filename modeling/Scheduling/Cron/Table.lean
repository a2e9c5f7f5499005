import Scheduling.Cron.Slots
import Scheduling.Registry
import Scheduling.Time.Clock
import Scheduling.Time.Zone.Choice
/-!
# Cron tables

A table registers schedules, each with something to give out whenever it fires. While the table is
running, every entry has a timer; an entry holds its timer so that stopping the table or removing
the entry ends it. A timer whose schedule has no further slot ends by itself.
-/

namespace Scheduling.Cron

/-- The number of an entry, from 1 on. -/
abbrev EntryId := Nat

abbrev TimerId := Nat

structure Entry (α : Type) where
  schedule : Schedule
  payload : α
  /-- The timer that was last armed for the entry and not ended from outside. -/
  timer : Option TimerId

/-- Where a timer stands. -/
inductive TimerPoint
  /-- It is about to look for its next slot. -/
  | seeking
  | sleeping (slot : Int) (wake : Instant)
deriving DecidableEq, Repr, Inhabited

structure Timer (α : Type) where
  schedule : Schedule
  payload : α
  /-- The slot it fired last. -/
  lastFired : Option Int
  point : TimerPoint

def Timer.wake? {α : Type} (timer : Timer α) : Option Instant :=
  match timer.point with
  | .seeking => none
  | .sleeping _ wake => some wake

/-- A table of cron entries and their live timers. -/
structure Table (α : Type) where
  zone : ZoneChoice
  entries : Registry EntryId (Entry α)
  nextId : EntryId
  running : Bool
  timers : Registry TimerId (Timer α)
  nextTimer : TimerId

namespace Table

variable {α : Type}

def create (zone : ZoneChoice) : Table α :=
  ⟨zone, Registry.empty, 1, false, Registry.empty, 0⟩

instance : Inhabited (Table α) := ⟨create .localTime⟩

def size (t : Table α) : Nat := t.entries.size

/-- Makes a new timer for an entry that has none. -/
def arm (t : Table α) (id : EntryId) : Table α :=
  match t.entries.get? id with
  | some ⟨schedule, payload, none⟩ =>
    { t with
      entries := t.entries.insert id ⟨schedule, payload, some t.nextTimer⟩
      timers := t.timers.insert t.nextTimer ⟨schedule, payload, none, .seeking⟩
      nextTimer := t.nextTimer + 1 }
  | _ => t

/-- Registers a schedule under the next number; it is armed at once if the table is running. -/
def add (t : Table α) (schedule : Schedule) (payload : α) : EntryId × Table α :=
  let added :=
    { t with
      entries := t.entries.insert t.nextId ⟨schedule, payload, none⟩
      nextId := t.nextId + 1 }
  (t.nextId, if t.running then added.arm t.nextId else added)

def abort (entries : List (Entry α)) (timers : Registry TimerId (Timer α)) :
    Registry TimerId (Timer α) :=
  entries.foldl
    (fun timers e => match e.timer with
      | some timer => timers.erase timer
      | none => timers)
    timers

/-- Takes an entry out; tells whether it was there. -/
def remove (t : Table α) (id : EntryId) : Bool × Table α :=
  match t.entries.get? id with
  | some e => (true, { t with entries := t.entries.erase id, timers := abort [e] t.timers })
  | none => (false, t)

/-- Arms every entry that has no timer. -/
def start (t : Table α) : Table α :=
  t.entries.keys.foldl arm { t with running := true }

/-- Ends all timers and keeps the entries. -/
def stop (t : Table α) : Table α :=
  { t with
    running := false
    timers := abort t.entries.values t.timers
    entries := t.entries.keys.foldl
      (fun es id => es.modify id fun e => { e with timer := none }) t.entries }

def clear (t : Table α) : Table α :=
  { t with timers := abort t.entries.values t.timers, entries := Registry.empty }

/-- Lets a timer go on, if it can: it looks for its next slot, or fires what it was armed with. -/
def advance (t : Table α) (clock : Clock) (id : TimerId) : Option (Option α × Table α) :=
  match t.timers.get? id with
  | none => none
  | some timer =>
    match timer.point with
    | .seeking =>
      match timer.schedule.nextSlot t.zone.zone timer.lastFired clock.wall with
      | .at slot =>
        let wake := clock.now.wake (Schedule.delayUntil slot clock.wall)
        some (none,
          { t with timers := t.timers.insert id { timer with point := .sleeping slot wake } })
      | _ => some (none, { t with timers := t.timers.erase id })
    | .sleeping slot wake =>
      if wake ≤ clock.now then
        let fired := { timer with lastFired := some slot, point := .seeking }
        some (some timer.payload, { t with timers := t.timers.insert id fired })
      else none

def describe (t : Table α) : String :=
  "CronTable \x7b timezone: " ++ t.zone.describe ++ ", entries: " ++ toString t.size
    ++ ", running: " ++ toString t.running ++ " \x7d"

end Table

end Scheduling.Cron
