import Scheduling.Cron.Table
import Scheduling.Executor
import Scheduling.Plan
/-!
# Schedulers

A scheduler keeps a cron table and a queue of plans. From an accepted start until its loops have
ended, a session runs two loops: the fetch loop pops the best plan and hands it over through a
channel with one place; the dispatch loop takes one of a bounded number of permits, receives a plan
and admits it, each admitted plan running in a worker under its own executor. Exclusive plans are
held back until nothing is in flight, and nothing is popped until they have ended.

This module says what each loop may do in each state of the scheduler. What an admission or the end
of the dispatch loop do to executors and contexts is left to the caller.
-/

namespace Scheduling

/-- Where the fetch loop stands. -/
inductive FetchPoint
  /-- It takes a plan from the queue. -/
  | popping (point : PopPoint)
  /-- It holds an exclusive plan until nothing is in flight. -/
  | holding (plan : Plan)
  /-- It puts a plan, counted as in flight, into the channel. -/
  | sending (plan : Plan)
  /-- It waits until the exclusive plan that it sent has ended. -/
  | draining
  | ended
deriving Inhabited

/-- Where the dispatch loop stands. -/
inductive DispatchPoint
  /-- It is about to make the permits. -/
  | opening
  /-- It waits for a permit. -/
  | acquiring
  /-- It holds a permit and waits for a plan. -/
  | receiving
  | ended
  /-- It panicked because the permits could not be made. -/
  | crashed
deriving DecidableEq, Repr, Inhabited

/-- Whether a dispatch loop is over, so that its end of the channel is closed. -/
def DispatchPoint.isOver : DispatchPoint → Bool
  | ended | crashed => true
  | _ => false

/-- An admitted plan that has not ended. -/
structure Worker where
  plan : Plan
  executor : ExecutorId
  /-- The context from which the contexts of its runs derive. -/
  context : ContextId
  point : CallPoint
deriving Inhabited

def Worker.key (w : Worker) : String := w.plan.key

/-- What the two loops of one session work on. -/
structure Session where
  /-- The context that ends the session when it is done. -/
  shutdown : ContextId
  fetch : FetchPoint
  dispatch : DispatchPoint
  /-- The plan in the channel. -/
  slot : Option Plan
  /-- The count of plans handed over and not ended. -/
  inFlight : Nat
  /-- The permits that nobody holds. -/
  permits : Nat
  workers : List Worker
  /-- Whether the end of both loops was noticed. -/
  closed : Bool
deriving Inhabited

/-- The number of a session within its scheduler. -/
abbrev SessionId := Nat

/-- What is known of a plan that is executing. -/
structure Execution where
  executor : ExecutorId
  context : ContextId
deriving DecidableEq, Repr, Inhabited

structure Scheduler where
  maxConcurrency : Nat
  /-- The policies for plans that bring none. -/
  defaults : ExecutorOptions
  queue : Queue Plan
  cron : Cron.Table Plan
  cronIds : Registry String Cron.EntryId
  executing : Registry String Execution
  /-- The context of the session in progress. -/
  shutdown : Option ContextId
  /-- The session whose end can still be waited for. -/
  supervised : Option SessionId
  running : Bool
  sessions : Array Session

abbrev SchedulerId := Nat

namespace Scheduler

/-- A scheduler that was never started. -/
def create (maxConcurrency : Nat) (zone : ZoneChoice) (defaults : ExecutorOptions) : Scheduler :=
  { maxConcurrency := maxConcurrency
    defaults := defaults
    queue := Queue.create true
    cron := Cron.Table.create zone
    cronIds := Registry.empty
    executing := Registry.empty
    shutdown := none
    supervised := none
    running := false
    sessions := #[] }

instance : Inhabited Scheduler := ⟨create 1 .localTime {}⟩

/-- More permits than this cannot be made. -/
def permitLimit : Nat := 1 <<< 61 - 1

def modifySession (s : Scheduler) (j : SessionId) (f : Session → Session) : Scheduler :=
  { s with sessions := s.sessions.modify j f }

/-! ## Registration -/

/-- Whether a plan is taken into account: it has a key. -/
def accepts (p : Plan) : Bool := p.key != ""

/-- Registers one plan whose schedule can be read: with a schedule it replaces the cron entry of
its key, without one it is queued. -/
def register (s : Scheduler) (p : Plan) : Scheduler :=
  match p.schedule with
  | none => { s with queue := s.queue.push [p] }
  | some expression =>
    match Cron.Schedule.parse expression with
    | .error _ => s
    | .ok schedule =>
      let (id, cron) := s.cron.add schedule p
      let cron :=
        match s.cronIds.get? p.key with
        | some previous => (cron.remove previous).2
        | none => cron
      { s with cron := cron, cronIds := s.cronIds.insert p.key id }

/-- The error of the first schedule that cannot be read. -/
def firstBadSchedule : List Plan → Option Error
  | [] => none
  | p :: rest =>
    match p.schedule with
    | none => firstBadSchedule rest
    | some expression =>
      match Cron.Schedule.parse expression with
      | .error e => some e
      | .ok _ => firstBadSchedule rest

/-- Registers plans, or none of them if a schedule cannot be read; plans without a key are
ignored. -/
def add (s : Scheduler) (plans : List Plan) : Except Error Scheduler :=
  let plans := plans.filter accepts
  match firstBadSchedule plans with
  | some e => .error e
  | none => .ok (plans.foldl register s)

def unschedule (s : Scheduler) (key : String) : Scheduler :=
  match s.cronIds.get? key with
  | some id => { s with cron := (s.cron.remove id).2, cronIds := s.cronIds.erase key }
  | none => s

/-- Drops the queued plan of a key. -/
def dequeue (s : Scheduler) (key : String) : Scheduler :=
  { s with queue := (s.queue.removeKey key).2 }

/-- Lets a timer of the cron table go on, if it can; what fires is queued. -/
def advanceTimer (s : Scheduler) (clock : Clock) (timer : Cron.TimerId) : Option Scheduler :=
  match s.cron.advance clock timer with
  | none => none
  | some (none, cron) => some { s with cron := cron }
  | some (some plan, cron) => some { s with cron := cron, queue := s.queue.push [plan] }

/-! ## Sessions -/

/-- A new session that ends with the context `shutdown`. -/
def Session.create (shutdown : ContextId) : Session :=
  { shutdown := shutdown
    fetch := .popping .fresh
    dispatch := .opening
    slot := none
    inFlight := 0
    permits := 0
    workers := []
    closed := false }

def start (s : Scheduler) (shutdown : ContextId) : Scheduler :=
  { s with
    running := true
    shutdown := some shutdown
    cron := s.cron.start
    supervised := some s.sessions.size
    sessions := s.sessions.push (Session.create shutdown) }

/-- The fetch loop ends and empties the queue. -/
def endFetch (s : Scheduler) (j : SessionId) : Scheduler :=
  { s with queue := s.queue.reset }.modifySession j fun n => { n with fetch := .ended }

/-- The fetch loop goes to another point. -/
def fetchAt (s : Scheduler) (j : SessionId) (point : FetchPoint) : Scheduler :=
  s.modifySession j fun n => { n with fetch := point }

def countUp (s : Scheduler) (j : SessionId) : Scheduler :=
  s.modifySession j fun n => { n with inFlight := n.inFlight + 1 }

def countDown (s : Scheduler) (j : SessionId) : Scheduler :=
  s.modifySession j fun n => { n with inFlight := n.inFlight - 1 }

/-- Gives one permit back. -/
def release (s : Scheduler) (j : SessionId) : Scheduler :=
  s.modifySession j fun n => { n with permits := n.permits + 1 }

/-- The fetch loop has popped a plan: it holds an exclusive one back and sends any other. -/
def fetched (s : Scheduler) (j : SessionId) (plan : Plan) : Scheduler :=
  if plan.exclusive then s.fetchAt j (.holding plan)
  else (s.countUp j).fetchAt j (.sending plan)

/-- What the fetch loop does next after sending a plan. -/
def afterSending (plan : Plan) : FetchPoint :=
  if plan.exclusive then .draining else .popping .fresh

/-- What the fetch loop of a session may do; `stopping` tells whether the session's context is
done. -/
def fetchMoves (s : Scheduler) (j : SessionId) (stopping : Bool)
    (order : Plan → Plan → Ordering) : List Scheduler :=
  match s.sessions[j]? with
  | none => []
  | some n =>
    match n.fetch with
    | .popping point =>
      (if stopping then [s.endFetch j] else []) ++
        match s.queue.pop order point with
        | none => []
        | some (.ended (.ok plan), queue) => [{ s with queue := queue }.fetched j plan]
        | some (.ended (.error _), queue) => [{ s with queue := queue }.endFetch j]
        | some (.waits point, queue) => [{ s with queue := queue }.fetchAt j (.popping point)]
    | .holding plan =>
      (if stopping then [s.endFetch j] else []) ++
        (if n.inFlight = 0 then [(s.countUp j).fetchAt j (.sending plan)] else [])
    | .sending plan =>
      (if stopping then [(s.countDown j).endFetch j] else []) ++
        (if n.dispatch.isOver then [(s.countDown j).endFetch j]
        else if n.slot.isNone then
          [(s.modifySession j fun n => { n with slot := some plan }).fetchAt j (afterSending plan)]
        else [])
    | .draining =>
      (if stopping then [s.endFetch j] else []) ++
        (if n.inFlight = 0 then [s.fetchAt j (.popping .fresh)] else [])
    | .ended => []

/-- The dispatch loop goes to another point. -/
def dispatchAt (s : Scheduler) (j : SessionId) (point : DispatchPoint) : Scheduler :=
  s.modifySession j fun n => { n with dispatch := point }

/-- The dispatch loop ends: it closes the channel and clears the cron table. -/
def endDispatch (s : Scheduler) (j : SessionId) : Scheduler :=
  { s with cronIds := Registry.empty, cron := s.cron.clear.stop }.modifySession j fun n =>
    { n with dispatch := .ended, slot := none }

/-- What a move of the dispatch loop asks for beyond the scheduler itself. -/
inductive DispatchEffect
  | none
  /-- Admit a plan that was received. -/
  | accept (plan : Plan)
  /-- Cancel all executing plans, the loop having ended. -/
  | cancelAll

def dispatchMoves (s : Scheduler) (j : SessionId) (stopping : Bool) :
    List (Scheduler × DispatchEffect) :=
  match s.sessions[j]? with
  | none => []
  | some n =>
    match n.dispatch with
    | .opening =>
      if s.maxConcurrency ≤ permitLimit then
        [((s.modifySession j fun n => { n with permits := s.maxConcurrency }).dispatchAt j
          .acquiring, .none)]
      else [((s.modifySession j fun n => { n with slot := none }).dispatchAt j .crashed, .none)]
    | .acquiring =>
      (if stopping then [(s.endDispatch j, .cancelAll)] else []) ++
        (if 0 < n.permits then
          [((s.modifySession j fun n => { n with permits := n.permits - 1 }).dispatchAt j
            .receiving, .none)]
        else [])
    | .receiving =>
      (if stopping then [((s.release j).endDispatch j, .cancelAll)] else []) ++
        match n.slot, n.fetch with
        | some plan, _ =>
          [((s.modifySession j fun n => { n with slot := none }).dispatchAt j .acquiring,
            .accept plan)]
        | none, .ended => [((s.release j).endDispatch j, .cancelAll)]
        | none, _ => []
    | .ended => []
    | .crashed => []

/-- Whether a plan would be skipped because its key is already executing. -/
def isExecuting (s : Scheduler) (key : String) : Bool := s.executing.contains key

/-- A received plan is skipped: its permit and count are given back. -/
def skip (s : Scheduler) (j : SessionId) : Scheduler :=
  (s.countDown j).release j

/-- A received plan is admitted: it is executing, and a worker begins. -/
def enter (s : Scheduler) (j : SessionId) (plan : Plan) (execution : Execution) : Scheduler :=
  { s with executing := s.executing.insert plan.key execution }.modifySession j fun n =>
    { n with
      workers := n.workers ++ [Worker.mk plan execution.executor execution.context .entered] }

def worker? (s : Scheduler) (j : SessionId) (executor : ExecutorId) : Option Worker :=
  s.sessions[j]?.bind fun n => n.workers.find? (·.executor == executor)

/-- A worker goes to another point of its start call. -/
def workerAt (s : Scheduler) (j : SessionId) (executor : ExecutorId) (point : CallPoint) :
    Scheduler :=
  s.modifySession j fun n =>
    { n with
      workers := n.workers.map fun w =>
        if w.executor = executor then { w with point := point } else w }

def dropWorker (s : Scheduler) (j : SessionId) (executor : ExecutorId) : Scheduler :=
  s.modifySession j fun n => { n with workers := n.workers.filter (·.executor ≠ executor) }

/-- A worker's start call has returned: its plan is no longer executing. -/
def endWorker (s : Scheduler) (j : SessionId) (w : Worker) : Scheduler :=
  ((({ s with executing := s.executing.erase w.key }.dropWorker j w.executor).release j).countDown
    j)

/-- A worker has panicked: only its permit is given back. -/
def crashWorker (s : Scheduler) (j : SessionId) (w : Worker) : Scheduler :=
  (s.dropWorker j w.executor).release j

/-- Notices that both loops of a session have ended, after which the scheduler may be started
again. -/
def close? (s : Scheduler) (j : SessionId) : Option Scheduler :=
  match s.sessions[j]? with
  | none => none
  | some n =>
    match n.fetch with
    | .ended =>
      if n.dispatch.isOver && !n.closed then
        some ({ s with shutdown := none, running := false }.modifySession j fun n =>
          { n with closed := true })
      else none
    | _ => none

/-- Whether the loops of a session have ended and that was noticed. -/
def isClosed (s : Scheduler) (j : SessionId) : Bool :=
  s.sessions[j]?.any (·.closed)

/-! ## Descriptions -/

/-- The number of queued plans. -/
def pending (s : Scheduler) : Nat := s.queue.size

/-- The number of keys with a cron entry. -/
def scheduled (s : Scheduler) : Nat := s.cronIds.size

def describe (s : Scheduler) : String :=
  "Scheduler \x7b max_concurrency: " ++ toString s.maxConcurrency ++ ", running: "
    ++ toString s.running ++ ", pending: " ++ toString s.pending ++ ", cron: " ++ s.cron.describe
    ++ ", .. \x7d"

end Scheduler

end Scheduling
