import Scheduling.Scheduler
/-!
# Systems

A system holds all contexts, tasks, executors, queues, cron tables and schedulers on one clock,
with the runs in progress and the calls that were made and have not ended.
-/

namespace Scheduling

abbrev QueueId := Nat

abbrev TableId := Nat

abbrev RunId := Nat

abbrev CallId := Nat

/-- Where a run of a task stands. -/
inductive RunPoint
  /-- It was launched and its body has not begun. -/
  | launched
  /-- These actions are left. -/
  | acting (rest : List Action)
  /-- It sleeps until an instant, or until `context` is done; `strict` if that ends the run. -/
  | sleeping (wake : Instant) (context : Option ContextId) (strict : Bool) (rest : List Action)
  /-- It waits until its context is done. -/
  | awaiting (rest : List Action)
  /-- Its body has ended, which its task has not been told. -/
  | ended (outcome : Outcome)

/-- A run in progress. -/
structure Run where
  task : TaskId
  /-- Which run of the task it is, counted from 0, once its body has begun. -/
  index : Nat
  context : ContextId
  point : RunPoint

inductive CallValue
  | outcome (outcome : Outcome)
  | contextError (error : Option Error)
  | state (state : State)
  | plan (plan : Except Error (Plan × State))
  | running (running : Bool)
  | panicked (text : String)

/-- A call that may have to wait. -/
inductive Call
  | sleep (context : ContextId) (wake : Instant)
  | awaitContext (context : ContextId)
  /-- Wait until a task has no run in progress. -/
  | awaitTask (task : TaskId)
  | start (executor : ExecutorId) (context : ContextId) (point : CallPoint)
  | stop (executor : ExecutorId) (wait : Bool)
  | pop (queue : QueueId) (point : PopPoint)
  | stopScheduler (scheduler : SchedulerId) (wait : Bool)
  | awaitSession (scheduler : SchedulerId) (session : SessionId)
  | ended (millis : Nat) (value : CallValue)
deriving Inhabited

/-- Something that happened and is kept on record. -/
inductive Event
  | run (task : TaskId) (index : Nat) (note : Note)
  /-- An entry of a standalone cron table fired. -/
  | fired (name : String)

/-- Everything there is at an instant. -/
structure System where
  clock : Clock
  contexts : ContextTree
  tasks : Array Task
  executors : Array Executor
  queues : Array (Queue Plan)
  tables : Array (Cron.Table String)
  schedulers : Array Scheduler
  runs : Registry RunId Run
  nextRun : RunId
  calls : Array Call
  /-- What happened, each with its millisecond, latest first. -/
  journal : List (Nat × Event)

namespace System

/-- Nothing but a clock. -/
def create (origin : Int) : System :=
  { clock := ⟨origin, 0⟩
    contexts := ContextTree.empty
    tasks := #[]
    executors := #[]
    queues := #[]
    tables := #[]
    schedulers := #[]
    runs := Registry.empty
    nextRun := 0
    calls := #[]
    journal := [] }

instance : Inhabited System := ⟨create 0⟩

def now (y : System) : Instant := y.clock.now

def state (y : System) (t : TaskId) : State := (y.tasks[t]?.map Task.state).getD .created

/-- The rank of a task's present state in the order of dispatch. -/
def phase (y : System) (t : TaskId) : Nat := (y.state t).phase

/-- The present order of dispatch. -/
def planOrder (y : System) : Plan → Plan → Ordering := Plan.order y.phase

def record (y : System) (e : Event) : System :=
  { y with journal := (y.clock.millis, e) :: y.journal }

def modifyTask (y : System) (t : TaskId) (f : Task → Task) : System :=
  { y with tasks := y.tasks.modify t f }

def modifyExecutor (y : System) (e : ExecutorId) (f : Executor → Executor) : System :=
  { y with executors := y.executors.modify e f }

/-- Puts a scheduler into another state. -/
def setScheduler (y : System) (i : SchedulerId) (s : Scheduler) : System :=
  { y with schedulers := y.schedulers.modify i fun _ => s }

def cancelContext (y : System) (c : ContextId) : System :=
  { y with contexts := y.contexts.cancel c }

/-- Adds a context without a parent. -/
def newContext (y : System) : ContextId × System :=
  let (c, contexts) := y.contexts.background
  (c, { y with contexts := contexts })

/-- Adds a context below another. -/
def newChild (y : System) (parent : ContextId) : ContextId × System :=
  let (c, contexts) := y.contexts.child parent
  (c, { y with contexts := contexts })

/-- Adds a context below another with a timeout from now; `none` if the clock cannot count so
far. -/
def newChildFor (y : System) (parent : ContextId) (timeout : Duration) :
    Option (ContextId × System) :=
  (Instant.add? y.now timeout).map fun expiry =>
    let (c, contexts) := y.contexts.childUntil parent expiry
    (c, { y with contexts := contexts })

end System

end Scheduling
