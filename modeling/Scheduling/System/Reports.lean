import Scheduling.System.Steps
import Scheduling.Text.Quoted
/-!
# Reports

What can be seen of tasks, executors, contexts, plans, tables and schedulers from outside.
-/

namespace Scheduling

structure TaskStats where
  id : String
  state : State
  progress : UInt64
  result : Option Json
  error : Option Error
  labels : List (String × String)
  createdAt : Timestamp
  startedAt : Option Timestamp
  endedAt : Option Timestamp
  executionTime : Duration

structure ExecutorStats where
  task : TaskStats
  attempts : Nat
  /-- The error of each failed attempt, by its index from 0. -/
  errors : List (Nat × Error)
  cooldownRemaining : Duration

structure ContextReport where
  done : Bool
  error : Option Error
  /-- The deadline in milliseconds of the steady clock: the whole ones from now until it, or back
  to it. -/
  deadline : Option Int

structure SchedulerReport where
  running : Bool
  /-- The keys of the executing plans, ascending. -/
  executing : List String
  pending : Nat
  scheduled : Nat
  maxConcurrency : Nat
  description : String

def Task.describe (t : Task) : String :=
  "Task \x7b id: " ++ Text.quote t.id ++ ", state: " ++ t.state.title ++ ", .. \x7d"

def RunView.describe (v : RunView) : String :=
  "TaskContext \x7b task: " ++ Text.quote v.id ++ ", done: " ++ toString v.done ++ " \x7d"

/-- A snapshot of a task at a reading of the wall clock. -/
def Task.stats (t : Task) (now : Timestamp) : TaskStats :=
  { id := t.id
    state := t.state
    progress := t.progress
    result := t.result
    error := t.error
    labels := t.labels
    createdAt := t.createdAt
    startedAt := t.startedAt
    endedAt := t.endedAt
    executionTime := t.executionTime now }

def Scheduler.report (s : Scheduler) : SchedulerReport :=
  { running := s.running
    executing := s.executing.keys.mergeSort fun a b => compare a b != .gt
    pending := s.pending
    scheduled := s.scheduled
    maxConcurrency := s.maxConcurrency
    description := s.describe }

namespace System

def executorStats (y : System) (e : Executor) : ExecutorStats :=
  { task := ((y.tasks[e.task]?).getD default).stats y.clock.wall
    attempts := e.attempts
    errors := e.errors.entries
    cooldownRemaining := e.cooldownRemaining y.now }

def planStats (y : System) (i : SchedulerId) (key : String) : Option ExecutorStats := do
  let s ← y.schedulers[i]?
  let x ← s.executing.get? key
  let e ← y.executors[x.executor]?
  return y.executorStats e

def contextReport (y : System) (c : ContextId) : ContextReport :=
  { done := y.contexts.isDone c
    error := y.contexts.error? c
    deadline := (y.contexts.deadline c).map fun instant =>
      (y.clock.millis : Int) + (Instant.until_ y.now instant).millis
        - (Instant.until_ instant y.now).millis }

end System

end Scheduling
