import Scheduling.System.Executions
/-!
# Schedulers within a system

What a scheduler's operations and the moves of its loops, workers and timers do to the contexts,
tasks and executors around it.
-/

namespace Scheduling.System

/-- Stops the run of an executing plan and any retry to come: first the executor, so that the task
is canceling before its context is done. -/
def cancelExecution (y : System) (x : Execution) : System :=
  (y.cancelExecutor x.executor).2.cancelContext x.context

def addPlans (y : System) (i : SchedulerId) (plans : List Plan) : Except Error System :=
  match y.schedulers[i]? with
  | none => .ok y
  | some s =>
    match s.add plans with
    | .error e => .error e
    | .ok s => .ok (y.setScheduler i s)

/-- Takes one plan out of a scheduler: its cron entry goes, its run is cancelled, executing or not,
and its queued copy goes. -/
def removePlan (y : System) (i : SchedulerId) (p : Plan) : System :=
  match y.schedulers[i]? with
  | none => y
  | some s =>
    let y := y.setScheduler i ((s.unschedule p.key).dequeue p.key)
    match s.executing.get? p.key with
    | some x => y.cancelExecution x
    | none => (y.cancelTask p.task).2

def removePlans (y : System) (i : SchedulerId) (plans : List Plan) : System :=
  plans.foldl (fun y p => y.removePlan i p) y

def cancelPlan (y : System) (i : SchedulerId) (key : String) : Except Error System :=
  match y.schedulers[i]?.bind fun s => s.executing.get? key with
  | none => .error (.notFound ("plan `" ++ key ++ "` is not executing"))
  | some x => .ok (y.cancelExecution x)

/-- Starts a scheduler; nothing happens if it is running. -/
def startScheduler (y : System) (i : SchedulerId) (context : ContextId) : System :=
  match y.schedulers[i]? with
  | none => y
  | some s =>
    if s.running then y
    else
      let (shutdown, y) := y.newChild context
      y.setScheduler i (s.start shutdown)

def fetchMoves (y : System) (i : SchedulerId) (j : SessionId) : List System :=
  match y.schedulers[i]? with
  | none => []
  | some s =>
    let stopping := s.sessions[j]?.any fun n => y.contexts.isDone n.shutdown
    (s.fetchMoves j stopping y.planOrder).map (y.setScheduler i)

/-- Admits a received plan, or skips it if its key is executing. -/
def admitPlan (y : System) (i : SchedulerId) (s : Scheduler) (j : SessionId) (p : Plan) :
    System :=
  if s.isExecuting p.key then y.setScheduler i (s.skip j)
  else
    let executor := y.executors.size
    let (c, y) := y.newChild p.context
    let y := { y with
      executors := y.executors.push (Executor.create p.task (p.options.getD s.defaults)) }
    y.setScheduler i (s.enter j p ⟨executor, c⟩)

/-- Carries out what a move of the dispatch loop asks for. -/
def applyDispatch (y : System) (i : SchedulerId) (j : SessionId)
    (move : Scheduler × Scheduler.DispatchEffect) : System :=
  match move with
  | (s, .none) => y.setScheduler i s
  | (s, .accept p) => y.admitPlan i s j p
  | (s, .cancelAll) => s.executing.values.foldl cancelExecution (y.setScheduler i s)

def dispatchMoves (y : System) (i : SchedulerId) (j : SessionId) : List System :=
  match y.schedulers[i]? with
  | none => []
  | some s =>
    let stopping := s.sessions[j]?.any fun n => y.contexts.isDone n.shutdown
    (s.dispatchMoves j stopping).map (y.applyDispatch i j)

/-- Carries out a move of a worker's start call. -/
def applyWorker (y : System) (i : SchedulerId) (j : SessionId) (w : Worker)
    (status : CallStatus) : System :=
  match y.schedulers[i]? with
  | none => y
  | some s =>
    match status with
    | .at point => y.setScheduler i (s.workerAt j w.executor point)
    | .ended (.returned _) => (y.setScheduler i (s.endWorker j w)).cancelContext w.context
    | .ended (.panicked _) => y.setScheduler i (s.crashWorker j w)

def workerMoves (y : System) (i : SchedulerId) (j : SessionId) (e : ExecutorId) : List System :=
  match y.schedulers[i]?.bind fun s => s.worker? j e with
  | none => []
  | some w =>
    (y.executionMoves w.executor w.context w.point).map fun (y, status) =>
      y.applyWorker i j w status

/-- Notices that both loops of a session have ended. -/
def closeMoves (y : System) (i : SchedulerId) (j : SessionId) : List System :=
  match y.schedulers[i]?.bind fun s => s.close? j with
  | none => []
  | some s => [y.setScheduler i s]

def planTimerMoves (y : System) (i : SchedulerId) (timer : Cron.TimerId) : List System :=
  match y.schedulers[i]?.bind fun s => s.advanceTimer y.clock timer with
  | none => []
  | some s => [y.setScheduler i s]

def tableTimerMoves (y : System) (i : TableId) (timer : Cron.TimerId) : List System :=
  match y.tables[i]?.bind fun t => t.advance y.clock timer with
  | none => []
  | some (fired, table) =>
    let y := { y with tables := y.tables.modify i fun _ => table }
    match fired with
    | some name => [y.record (.fired name)]
    | none => [y]

end Scheduling.System
