import Scheduling.System.Sessions
/-!
# Calls that wait

What a call may do when it is its turn: go on waiting, or end with its value.
-/

namespace Scheduling.System

/-- A call goes to another point. -/
def callAt (y : System) (k : CallId) (call : Call) : System :=
  { y with calls := y.calls.modify k fun _ => call }

def endCall (y : System) (k : CallId) (value : CallValue) : System :=
  y.callAt k (.ended y.clock.millis value)

/-- Asks the session in progress to end; the first who also wants to wait for its end gets it. -/
def requestStop (y : System) (i : SchedulerId) (wait : Bool) : Option SessionId × System :=
  match y.schedulers[i]? with
  | none => (none, y)
  | some s =>
    let y :=
      match s.shutdown with
      | some c => y.cancelContext c
      | none => y
    if wait then (s.supervised, y.setScheduler i { s with supervised := none })
    else (none, y)

def isRunning (y : System) (i : SchedulerId) : Bool :=
  y.schedulers[i]?.any (·.running)

def callMoves (y : System) (k : CallId) : List System :=
  match y.calls[k]? with
  | none => []
  | some call =>
    match call with
    | .sleep context wake =>
      (if y.contexts.isDone context then
        [y.endCall k (.outcome (.error (y.doneError context)))]
      else []) ++
        (if wake ≤ y.now then [y.endCall k (.outcome (.ok ()))] else [])
    | .awaitContext context =>
      if y.contexts.isDone context then
        [y.endCall k (.contextError (y.contexts.error? context))]
      else []
    | .awaitTask t =>
      if y.tasks[t]?.any (·.pending) then [] else [y.endCall k (.state (y.state t))]
    | .start e context point =>
      (y.executionMoves e context point).map fun (y, status) =>
        match status with
        | .at point => y.callAt k (.start e context point)
        | .ended (.returned outcome) => y.endCall k (.outcome outcome)
        | .ended (.panicked text) => y.endCall k (.panicked text)
    | .stop e wait =>
      match y.executors[e]? with
      | none => []
      | some executor =>
        let y := (y.cancelExecutor e).2
        if wait then [y.callAt k (.awaitTask executor.task)]
        else [y.endCall k (.state (y.state executor.task))]
    | .pop q point =>
      match y.queues[q]? with
      | none => []
      | some queue =>
        match queue.pop y.planOrder point with
        | none => []
        | some (result, queue) =>
          let y := { y with queues := y.queues.modify q fun _ => queue }
          match result with
          | .ended plan => [y.endCall k (.plan (plan.map fun p => (p, y.state p.task)))]
          | .waits point => [y.callAt k (.pop q point)]
    | .stopScheduler i wait =>
      match y.requestStop i wait with
      | (some j, y) => [y.callAt k (.awaitSession i j)]
      | (none, y) => [y.endCall k (.running (y.isRunning i))]
    | .awaitSession i j =>
      if y.schedulers[i]?.any (·.isClosed j) then [y.endCall k (.running (y.isRunning i))] else []
    | .ended _ _ => []

/-- When a call wants to wake up by itself. -/
def Call.wake? : Call → Option Instant
  | .sleep _ wake => some wake
  | .start _ _ point => point.wake?
  | _ => none

end Scheduling.System
