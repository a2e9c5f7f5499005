import Scheduling.System.Calls
/-!
# Steps of a system

Everything that acts on its own account is an actor: timers, runs, calls, the loops and workers of
schedulers. A step is one move of one actor; which actor moves, and which of its moves it makes, is
left open here. Time may only go on when no actor can move, and not beyond the next instant for
which one has set a timer. One schedule of the steps settles a system: the actors take turns, each
moving as long as it can.
-/

namespace Scheduling

/-- Whatever acts on its own account. -/
inductive Actor
  /-- The timer of a context with a timeout. -/
  | deadline (context : ContextId)
  | run (run : RunId)
  | call (call : CallId)
  | tableTimer (table : TableId) (timer : Cron.TimerId)
  | planTimer (scheduler : SchedulerId) (timer : Cron.TimerId)
  | fetch (scheduler : SchedulerId) (session : SessionId)
  | dispatch (scheduler : SchedulerId) (session : SessionId)
  /-- The one who notices that the loops of a session have ended. -/
  | supervisor (scheduler : SchedulerId) (session : SessionId)
  | worker (scheduler : SchedulerId) (session : SessionId) (executor : ExecutorId)
deriving DecidableEq, Repr

namespace System

/-- The states to which a move of an actor can lead. -/
def moves (y : System) : Actor → List System
  | .deadline c =>
    if y.contexts.isDue y.now c then [{ y with contexts := y.contexts.expire c }] else []
  | .run r => y.runMoves r
  | .call k => y.callMoves k
  | .tableTimer i timer => y.tableTimerMoves i timer
  | .planTimer i timer => y.planTimerMoves i timer
  | .fetch i j => y.fetchMoves i j
  | .dispatch i j => y.dispatchMoves i j
  | .supervisor i j => y.closeMoves i j
  | .worker i j e => y.workerMoves i j e

def sessionActors (i : SchedulerId) (j : SessionId) (n : Session) : List Actor :=
  (if n.closed then [] else [.fetch i j, .dispatch i j, .supervisor i j])
    ++ n.workers.map fun w => .worker i j w.executor

def schedulerActors (i : SchedulerId) (s : Scheduler) : List Actor :=
  s.cron.timers.keys.map (.planTimer i)
    ++ (s.sessions.toList.mapIdx (sessionActors i)).flatten

/-- All actors that may be able to move. -/
def actors (y : System) : List Actor :=
  y.contexts.timers.map .deadline
    ++ y.runs.keys.map .run
    ++ (List.range y.calls.size).map .call
    ++ (y.tables.toList.mapIdx fun i t => t.timers.keys.map (.tableTimer i)).flatten
    ++ (y.schedulers.toList.mapIdx schedulerActors).flatten

def Settled (y : System) : Prop := ∀ a, y.moves a = []

/-- One move of some actor. -/
def Moves (y z : System) : Prop := ∃ a, z ∈ y.moves a

/-! ## Time -/

def wakes (y : System) : List Instant :=
  y.contexts.timers.filterMap y.contexts.deadline
    ++ y.runs.values.filterMap Run.wake?
    ++ y.calls.toList.filterMap Call.wake?
    ++ (y.tables.toList.map fun t => t.timers.values.filterMap (·.wake?)).flatten
    ++ (y.schedulers.toList.map fun s =>
        s.cron.timers.values.filterMap (·.wake?)
          ++ (s.sessions.toList.map fun n => n.workers.filterMap (·.point.wake?)).flatten).flatten

/-- The millisecond at which the next timer goes off. -/
def nextWake (y : System) : Option Nat :=
  (y.wakes.map Instant.ceilMillis).min?

/-- Lets the clock show a later millisecond. -/
def advanceTo (y : System) (millis : Nat) : System :=
  { y with clock := { y.clock with millis := max y.clock.millis millis } }

/-- Time passes: nothing can move before, and no timer is passed over. -/
def Passes (y z : System) : Prop :=
  y.Settled ∧ ∃ millis, y.clock.millis < millis ∧ (∀ next ∈ y.nextWake, millis ≤ next) ∧
    z = y.advanceTo millis

/-! ## Settling -/

/-- Lets an actor move as long as it can, at most `fuel` times; tells whether it moved. -/
def exhaust : Nat → System → Actor → Bool → System × Bool
  | 0, y, _, moved => (y, moved)
  | fuel + 1, y, a, moved =>
    match y.moves a with
    | [] => (y, moved)
    | z :: _ => exhaust fuel z a true

def turn (fuel : Nat) (y : System) (as : List Actor) : System × Bool :=
  as.foldl (fun (y, moved) a => exhaust fuel y a moved) (y, false)

/-- Gives all actors their turn until none of them moves, at most `fuel` times. -/
def settleFor : Nat → System → System
  | 0, y => y
  | fuel + 1, y =>
    match turn (fuel + 1) y y.actors with
    | (z, true) => settleFor fuel z
    | (z, false) => z

/-- More moves than any system makes at one instant in practice. -/
def patience : Nat := 1 <<< 62

/-- Lets all work be done that needs no time. -/
def settle (y : System) : System := settleFor patience y

/-- Settles a system and lets time pass until a condition holds or the clock shows a millisecond;
a settled system goes on at the next timer. -/
def passFor (done : System → Bool) (limit : Nat) : Nat → System → System
  | 0, y => y
  | fuel + 1, y =>
    let y := y.settle
    if done y then y
    else
      match y.nextWake with
      | some next =>
        if next ≤ limit && y.clock.millis < next then passFor done limit fuel (y.advanceTo next)
        else y.advanceTo limit
      | none => y.advanceTo limit

/-- Settles a system and lets time pass until a condition holds or the clock shows a
millisecond. -/
def pass (y : System) (done : System → Bool) (limit : Nat) : System :=
  passFor done limit patience y

end System

end Scheduling
