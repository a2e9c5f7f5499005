import Scheduling.System.Runs
/-!
# Start calls of executors

A start call is admitted or refused, and then makes one attempt after the other: each gets a
context of its own, waits for the run to end and sets the time of rest. A failed attempt is
followed by another after the delay, unless the call is asked to stop.
-/

namespace Scheduling.System

/-- Where a start call stands after a move, or how it ended. -/
inductive CallStatus
  | at (point : CallPoint)
  | ended (result : CallEnd)

/-- Raises the current halt flag of an executor and cancels its task; tells whether the task was
running. -/
def cancelExecutor (y : System) (e : ExecutorId) : Bool × System :=
  match y.executors[e]? with
  | none => (false, y)
  | some executor => (y.modifyExecutor e Executor.raiseHalt).cancelTask executor.task

/-- Whether a failed attempt is the last one: the task was canceled, the call was asked to stop,
the error is a conflict, or all attempts were made. -/
def endsCycle (y : System) (executor : Executor) (context : ContextId) (retry : RetryPolicy)
    (attempt halt : Nat) (err : Error) : Bool :=
  y.state executor.task == .canceled || y.contexts.isDone context || executor.isHalted halt
    || err.isConflict || max retry.attempts 1 ≤ attempt + 1

/-- Goes on after an attempt: without a retry policy the call ends with it. -/
def afterAttempt (y : System) (e : ExecutorId) (executor : Executor) (context : ContextId)
    (attempt halt : Nat) (outcome : Outcome) : System × CallStatus :=
  match executor.options.effectiveRetry with
  | none => (y, .ended (.returned outcome))
  | some retry =>
    let recorded := y.modifyExecutor e (·.record attempt outcome)
    match outcome with
    | .ok () => (recorded, .ended (.returned (.ok ())))
    | .error err =>
      if y.endsCycle executor context retry attempt halt err then
        (recorded, .ended (.returned (.error err)))
      else
        (recorded, .at (.pausing (attempt + 1) halt (Instant.wake y.now retry.delay) err))

/-- Adds the context of an attempt; `none` if its timeout is beyond the clock. -/
def attemptContext (y : System) (executor : Executor) (context : ContextId) :
    Option (ContextId × System) :=
  match executor.options.timeout with
  | none => some (y.newChild context)
  | some timeout => y.newChildFor context timeout

/-- Begins an attempt: starts the task in a context of its own. -/
def beginAttempt (y : System) (e : ExecutorId) (executor : Executor) (context : ContextId)
    (attempt halt : Nat) : System × CallStatus :=
  match y.attemptContext executor context with
  | none => (y, .ended (.panicked Instant.overflowText))
  | some (c, y) =>
    match y.startTask executor.task c with
    | (true, y) => (y, .at (.running attempt halt c))
    | (false, y) =>
      let id := (y.tasks[executor.task]?.map Task.id).getD ""
      (y.cancelContext c).afterAttempt e executor context attempt halt
        (.error (.alreadyRunning id))

/-- Ends an attempt whose run has ended: cancels its context and sets the time of rest. -/
def endAttempt (y : System) (e : ExecutorId) (executor : Executor) (task : Task)
    (context : ContextId) (attempt halt : Nat) (runContext : ContextId) : System × CallStatus :=
  let y := y.cancelContext runContext
  let outcome : Outcome :=
    match task.error with
    | none => .ok ()
    | some err => .error err
  match executor.options.cooldown with
  | none => y.afterAttempt e executor context attempt halt outcome
  | some cooldown =>
    match Instant.add? y.now cooldown with
    | none => (y, .ended (.panicked Instant.overflowText))
    | some instant =>
      (y.modifyExecutor e fun x => { x with cooldownUntil := some instant }).afterAttempt
        e executor context attempt halt outcome

/-- Enters a start call: it is refused, or takes a new halt flag and begins the first attempt. -/
def enter (y : System) (e : ExecutorId) (executor : Executor) (task : Task)
    (context : ContextId) : System × CallStatus :=
  match executor.mayStart task y.now with
  | .error err => (y, .ended (.returned (.error err)))
  | .ok () =>
    match y.contexts.error? context with
    | some err => (y, .ended (.returned (.error err)))
    | none =>
      let executor := executor.renewHalt
      (y.modifyExecutor e Executor.renewHalt).beginAttempt e executor context 0
        executor.currentHalt

def executionMoves (y : System) (e : ExecutorId) (context : ContextId) (point : CallPoint) :
    List (System × CallStatus) :=
  match y.executors[e]? with
  | none => []
  | some executor =>
    match y.tasks[executor.task]? with
    | none => []
    | some task =>
      match point with
      | .entered => [y.enter e executor task context]
      | .running attempt halt runContext =>
        if task.pending then []
        else [y.endAttempt e executor task context attempt halt runContext]
      | .pausing attempt halt wake last =>
        (if y.contexts.isDone context then [(y, .ended (.returned (.error last)))] else []) ++
          (if executor.isHalted halt then [(y, .ended (.returned (.error last)))] else []) ++
            (if wake ≤ y.now then [y.beginAttempt e executor context attempt halt] else [])

end Scheduling.System

namespace Scheduling

/-- When a start call wants to wake up by itself. -/
def CallPoint.wake? : CallPoint → Option Instant
  | pausing _ _ wake _ => some wake
  | _ => none

end Scheduling
