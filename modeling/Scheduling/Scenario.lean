import Scheduling.System.Reports
import Scheduling.Text.Sorted
/-!
# Scenarios

A scenario is a system whose parts have names and are worked on by commands. After each command all
work is done that needs no time; time passes only in commands that wait. A call that waits runs in
the background and is joined later, under its own name or, without one, under the empty name.
-/

namespace Scheduling

/-- A plan with its parts given by name; without a context its runs derive from a new one. -/
structure PlanRequest where
  task : String
  schedule : Option String
  priority : Int
  exclusive : Bool
  options : Option ExecutorOptions
  context : Option String

/-- How a call that waits is made: in the background under a name, or joined at once. -/
structure CallMode where
  name : Option String
  /-- The longest to wait for it, in milliseconds. -/
  limit : Nat

/-- The commands of a scenario, with the parts they work on given by name. -/
inductive Command
  | wait (d : Duration)
  | join (call : String) (limit : Nat)
  | log
  | context (name : String) (parent : Option String) (timeout : Option Duration)
  | cancelContext (name : String)
  | cancelSilently (name : String)
  | showContext (name : String)
  | sleep (mode : CallMode) (context : String) (d : Duration)
  | awaitContext (mode : CallMode) (context : String)
  | task (name : String) (id : Option String) (labels : List (String × String))
      (body : Nat → List Action)
  | startTask (task : String) (context : Option String)
  | cancelTask (task : String)
  | awaitTask (mode : CallMode) (task : String)
  | showTask (task : String)
  | resultAs (task : String) (shape : Json.Shape)
  | sameTask (task other : String)
  | executor (name task : String) (options : ExecutorOptions)
  | start (mode : CallMode) (executor : String) (context : Option String)
  | cancelExecutor (executor : String)
  | stopExecutor (mode : CallMode) (executor : String) (wait : Bool)
  | resetExecutor (executor : String)
  | showExecutor (executor : String)
  | queue (name : String) (blocking : Bool)
  | push (queue : String) (plans : List PlanRequest)
  | tryPop (queue : String)
  | pop (mode : CallMode) (queue : String)
  | update (queue : String) (plan : PlanRequest)
  | removeQueued (queue : String) (plan : PlanRequest)
  | queued (queue : String)
  | table (name : String) (zone : ZoneChoice)
  | addEntry (table : String) (name expression : String)
  | removeEntry (table : String) (id : Cron.EntryId)
  | startTable (table : String)
  | stopTable (table : String)
  | clearTable (table : String)
  | dropTable (table : String)
  | showTable (table : String)
  | scheduler (name : String) (scheduler : Scheduler)
  | addPlans (scheduler : String) (plans : List PlanRequest)
  | removePlans (scheduler : String) (plans : List PlanRequest)
  | startScheduler (scheduler : String) (context : Option String)
  | stopScheduler (mode : CallMode) (scheduler : String) (wait : Bool)
  | cancelPlan (scheduler key : String)
  | planStats (scheduler key : String)
  | showScheduler (scheduler : String)

inductive Joined
  | ended (millis : Nat) (value : CallValue)
  | panicked (text : String)
  | pending
  /-- There is no such call, or it was joined before. -/
  | absent

/-- What a command answers. -/
inductive Answer
  | done
  /-- A part was named that does not exist. -/
  | unknown
  | flag (value : Bool)
  | outcome (outcome : Outcome)
  | entry (id : Except Error Cron.EntryId)
  | spawned
  | joined (result : Joined)
  | log (events : List (String × List (Nat × Event)))
  | context (report : ContextReport)
  | task (task : Task) (now : Timestamp)
  | result (value : Except Error Json)
  | executor (stats : ExecutorStats) (options : ExecutorOptions)
  | plan (plan : Except Error (Plan × State))
  | plans (plans : List (Plan × State))
  | table (size : Nat) (running : Bool) (description : String)
  | stats (stats : Option ExecutorStats)
  | scheduler (report : SchedulerReport)

/-- A system whose parts have names. -/
structure Scenario where
  system : System
  contexts : Registry String ContextId
  tasks : Registry String TaskId
  /-- The name under which each task was made. -/
  taskNames : Array String
  executors : Registry String ExecutorId
  queues : Registry String QueueId
  tables : Registry String TableId
  schedulers : Registry String SchedulerId
  calls : Registry String CallId
  /-- How many events were taken by `log`. -/
  taken : Nat

namespace Scenario

/-- Nothing but a clock, with the wall clock at its start in milliseconds since 1970-01-01. -/
def create (origin : Int) : Scenario :=
  ⟨System.create origin, Registry.empty, Registry.empty, #[], Registry.empty, Registry.empty,
    Registry.empty, Registry.empty, Registry.empty, 0⟩

/-- The identifier of a task that was given none. -/
def generatedId (n : Nat) : String :=
  "00000000-0000-4000-8000-" ++ Timestamp.padded 12 n

/-- The context with a name, or a new one if none is named; `none` if there is no such context. -/
def contextOr (s : Scenario) (name : Option String) : Option (ContextId × Scenario) :=
  match name with
  | some name => (s.contexts.get? name).map (·, s)
  | none =>
    let (c, y) := s.system.newContext
    some (c, { s with system := y })

/-- Makes a plan; `none` if a part is named that does not exist. -/
def plan (s : Scenario) (r : PlanRequest) : Option (Plan × Scenario) := do
  let t ← s.tasks.get? r.task
  let task ← s.system.tasks[t]?
  let (c, s) ← s.contextOr r.context
  return (⟨t, task.id, task.createdAt, c, r.schedule, r.priority, r.exclusive, r.options⟩, s)

/-- Makes plans one after the other. -/
def plans (s : Scenario) : List PlanRequest → Option (List Plan × Scenario)
  | [] => some ([], s)
  | r :: rest => do
    let (p, s) ← s.plan r
    let (ps, s) ← s.plans rest
    return (p :: ps, s)

def shown (s : Scenario) (p : Plan) : Plan × State := (p, s.system.state p.task)

def eventName (s : Scenario) : Event → String
  | .run t _ _ => s.taskNames[t]?.getD ""
  | .fired name => name

/-- The events that were not taken yet, by name, each list in order of time. -/
def newEvents (s : Scenario) : List (String × List (Nat × Event)) :=
  let journal := s.system.journal
  let fresh := (journal.take (journal.length - s.taken)).reverse
  let grouped := fresh.foldl
    (fun (groups : Registry String (List (Nat × Event))) e =>
      let name := s.eventName e.2
      groups.insert name (e :: (groups.get? name).getD []))
    Registry.empty
  grouped.entries.map fun (name, events) => (name, events.reverse)

/-- Takes the events that were not taken yet. -/
def takeEvents (s : Scenario) : List (String × List (Nat × Event)) × Scenario :=
  (s.newEvents, { s with taken := s.system.journal.length })

def callEnded (k : CallId) (y : System) : Bool :=
  match y.calls[k]? with
  | some (.ended _ _) => true
  | _ => false

/-- Lets time pass until a call has ended, at most some milliseconds. -/
def join (s : Scenario) (name : String) (limit : Nat) : Joined × Scenario :=
  match s.calls.get? name with
  | none => (.absent, s)
  | some k =>
    let y := s.system.pass (callEnded k) (s.system.clock.millis + limit)
    let s := { s with system := y }
    match y.calls[k]? with
    | some (.ended _ (.panicked text)) => (.panicked text, { s with calls := s.calls.erase name })
    | some (.ended millis value) => (.ended millis value, { s with calls := s.calls.erase name })
    | _ => (.pending, s)

/-- Makes a call in the background, or joins it at once. -/
def call (s : Scenario) (mode : CallMode) (c : Call) : Answer × Scenario :=
  let k := s.system.calls.size
  let s := { s with
    system := { s.system with calls := s.system.calls.push c }
    calls := s.calls.insert (mode.name.getD "") k }
  match mode.name with
  | some _ => (.spawned, s)
  | none =>
    let (joined, s) := s.join "" mode.limit
    (.joined joined, s)

def onContext (s : Scenario) (name : String) (f : ContextId → Answer × Scenario) :
    Answer × Scenario :=
  ((s.contexts.get? name).map f).getD (.unknown, s)

def onTask (s : Scenario) (name : String) (f : TaskId → Task → Answer × Scenario) :
    Answer × Scenario :=
  ((do
    let t ← s.tasks.get? name
    let task ← s.system.tasks[t]?
    return f t task : Option _)).getD (.unknown, s)

def onExecutor (s : Scenario) (name : String)
    (f : ExecutorId → Executor → Answer × Scenario) : Answer × Scenario :=
  ((do
    let e ← s.executors.get? name
    let executor ← s.system.executors[e]?
    return f e executor : Option _)).getD (.unknown, s)

/-- Works on the queue with a name: a new state of it and an answer. -/
def onQueue (s : Scenario) (name : String)
    (f : Queue Plan → Answer × Queue Plan) : Answer × Scenario :=
  ((do
    let q ← s.queues.get? name
    let queue ← s.system.queues[q]?
    let (answer, queue) := f queue
    return (answer,
      { s with system :=
          { s.system with queues := s.system.queues.modify q fun _ => queue } }) :
      Option _)).getD (.unknown, s)

/-- Works on the cron table with a name: a new state of it and an answer. -/
def onTable (s : Scenario) (name : String)
    (f : Cron.Table String → Answer × Cron.Table String) : Answer × Scenario :=
  ((do
    let i ← s.tables.get? name
    let table ← s.system.tables[i]?
    let (answer, table) := f table
    return (answer,
      { s with system :=
          { s.system with tables := s.system.tables.modify i fun _ => table } }) :
      Option _)).getD (.unknown, s)

def onScheduler (s : Scenario) (name : String)
    (f : SchedulerId → Scheduler → Answer × Scenario) : Answer × Scenario :=
  ((do
    let i ← s.schedulers.get? name
    let scheduler ← s.system.schedulers[i]?
    return f i scheduler : Option _)).getD (.unknown, s)

def withPlans (s : Scenario) (rs : List PlanRequest)
    (f : List Plan → Scenario → Answer × Scenario) : Answer × Scenario :=
  match s.plans rs with
  | some (ps, s) => f ps s
  | none => (.unknown, s)

def withPlan (s : Scenario) (r : PlanRequest)
    (f : Plan → Scenario → Answer × Scenario) : Answer × Scenario :=
  match s.plan r with
  | some (p, s) => f p s
  | none => (.unknown, s)

def withContext (s : Scenario) (name : Option String)
    (f : ContextId → Scenario → Answer × Scenario) : Answer × Scenario :=
  match s.contextOr name with
  | some (c, s) => f c s
  | none => (.unknown, s)

def addContext (s : Scenario) (name : String) (parent : Option String)
    (timeout : Option Duration) : Answer × Scenario :=
  let named (c : ContextId) (y : System) : Answer × Scenario :=
    (.done, { s with system := y, contexts := s.contexts.insert name c })
  match parent, timeout with
  | none, none =>
    let (c, y) := s.system.newContext
    named c y
  | some parent, none =>
    s.onContext parent fun p =>
      let (c, y) := s.system.newChild p
      named c y
  | parent, some timeout =>
    s.withContext parent fun p s =>
      match s.system.newChildFor p timeout with
      | some (c, y) => named c y
      | none => (.joined (.panicked Instant.overflowText), s)

def addTask (s : Scenario) (name : String) (id : Option String)
    (labels : List (String × String)) (body : Nat → List Action) : Answer × Scenario :=
  let t := s.system.tasks.size
  let task := Task.create (id.getD (generatedId t)) (Text.sortByKey labels) s.system.clock.wall body
  (.done,
    { s with
      system := { s.system with tasks := s.system.tasks.push task }
      tasks := s.tasks.insert name t
      taskNames := s.taskNames.push name })

/-- Carries out a command on a settled system; what it sets off is not yet settled. -/
def perform (s : Scenario) (command : Command) : Answer × Scenario :=
  let y := s.system
  let on (y : System) : Scenario := { s with system := y }
  match command with
  | .wait d =>
    (.done, on (y.pass (fun _ => false) (Instant.wake y.now d).ceilMillis))
  | .join name limit =>
    let (joined, s) := s.join name limit
    (.joined joined, s)
  | .log =>
    let (events, s) := s.takeEvents
    (.log events, s)
  | .context name parent timeout => s.addContext name parent timeout
  | .cancelContext name => s.onContext name fun c => (.done, on (y.cancelContext c))
  | .cancelSilently name =>
    s.onContext name fun c => (.done, on { y with contexts := y.contexts.cancelSilently c })
  | .showContext name => s.onContext name fun c => (.context (y.contextReport c), s)
  | .sleep mode context d =>
    s.onContext context fun c => s.call mode (.sleep c (Instant.wake y.now d))
  | .awaitContext mode context => s.onContext context fun c => s.call mode (.awaitContext c)
  | .task name id labels body => s.addTask name id labels body
  | .startTask task context =>
    s.onTask task fun t _ => s.withContext context fun c s =>
      let (started, y) := s.system.startTask t c
      (.flag started, { s with system := y })
  | .cancelTask task =>
    s.onTask task fun t _ =>
      let (cancelled, y) := y.cancelTask t
      (.flag cancelled, on y)
  | .awaitTask mode task => s.onTask task fun t _ => s.call mode (.awaitTask t)
  | .showTask task => s.onTask task fun _ task => (.task task y.clock.wall, s)
  | .resultAs task shape => s.onTask task fun _ task => (.result (task.resultAs shape), s)
  | .sameTask task other =>
    s.onTask task fun _ a => s.onTask other fun _ b => (.flag (a.id == b.id), s)
  | .executor name task options =>
    s.onTask task fun t _ =>
      (.done,
        { s with
          system := { y with executors := y.executors.push (Executor.create t options) }
          executors := s.executors.insert name y.executors.size })
  | .start mode executor context =>
    s.onExecutor executor fun e _ => s.withContext context fun c s =>
      s.call mode (.start e c .entered)
  | .cancelExecutor executor =>
    s.onExecutor executor fun e _ =>
      let (cancelled, y) := y.cancelExecutor e
      (.flag cancelled, on y)
  | .stopExecutor mode executor wait =>
    s.onExecutor executor fun e _ => s.call mode (.stop e wait)
  | .resetExecutor executor =>
    s.onExecutor executor fun e _ => (.done, on (y.modifyExecutor e Executor.reset))
  | .showExecutor executor =>
    s.onExecutor executor fun _ x => (.executor (y.executorStats x) x.options, s)
  | .queue name blocking =>
    (.done,
      { s with
        system := { y with queues := y.queues.push (Queue.create blocking) }
        queues := s.queues.insert name y.queues.size })
  | .push queue plans =>
    s.withPlans plans fun ps s => s.onQueue queue fun q => (.done, q.push ps)
  | .tryPop queue =>
    s.onQueue queue fun q =>
      let (plan, q) := q.tryPop y.planOrder
      (.plan (plan.map s.shown), q)
  | .pop mode queue =>
    ((do
      let q ← s.queues.get? queue
      let _ ← y.queues[q]?
      return s.call mode (.pop q .fresh) : Option _)).getD (.unknown, s)
  | .update queue plan =>
    s.withPlan plan fun p s => s.onQueue queue fun q =>
      let (outcome, q) := q.update p
      (.outcome outcome, q)
  | .removeQueued queue plan =>
    s.withPlan plan fun p s => s.onQueue queue fun q =>
      let (removed, q) := q.removeKey p.key
      (.flag removed, q)
  | .queued queue =>
    s.onQueue queue fun q => (.plans ((q.items y.planOrder).map s.shown), q)
  | .table name zone =>
    let dropped :=
      match s.tables.get? name with
      | some i => { y with tables := y.tables.modify i Cron.Table.clear }
      | none => y
    (.done,
      { s with
        system := { dropped with tables := dropped.tables.push (Cron.Table.create zone) }
        tables := s.tables.insert name dropped.tables.size })
  | .addEntry table name expression =>
    s.onTable table fun t =>
      match Cron.Schedule.parse expression with
      | .error e => (.entry (.error e), t)
      | .ok schedule =>
        let (id, t) := t.add schedule name
        (.entry (.ok id), t)
  | .removeEntry table id =>
    s.onTable table fun t =>
      let (removed, t) := t.remove id
      (.flag removed, t)
  | .startTable table => s.onTable table fun t => (.done, t.start)
  | .stopTable table => s.onTable table fun t => (.done, t.stop)
  | .clearTable table => s.onTable table fun t => (.done, t.clear)
  | .dropTable table =>
    let (answer, s) := s.onTable table fun t => (.done, t.clear)
    (answer, { s with tables := s.tables.erase table })
  | .showTable table =>
    s.onTable table fun t => (.table t.size t.running t.describe, t)
  | .scheduler name scheduler =>
    (.done,
      { s with
        system := { y with schedulers := y.schedulers.push scheduler }
        schedulers := s.schedulers.insert name y.schedulers.size })
  | .addPlans scheduler plans =>
    s.withPlans plans fun ps s => s.onScheduler scheduler fun i _ =>
      match s.system.addPlans i ps with
      | .ok y => (.outcome (.ok ()), { s with system := y })
      | .error e => (.outcome (.error e), s)
  | .removePlans scheduler plans =>
    s.withPlans plans fun ps s => s.onScheduler scheduler fun i _ =>
      (.done, { s with system := s.system.removePlans i ps })
  | .startScheduler scheduler context =>
    s.withContext context fun c s => s.onScheduler scheduler fun i _ =>
      (.done, { s with system := s.system.startScheduler i c })
  | .stopScheduler mode scheduler wait =>
    s.onScheduler scheduler fun i _ => s.call mode (.stopScheduler i wait)
  | .cancelPlan scheduler key =>
    s.onScheduler scheduler fun i _ =>
      match y.cancelPlan i key with
      | .ok y => (.outcome (.ok ()), on y)
      | .error e => (.outcome (.error e), s)
  | .planStats scheduler key =>
    s.onScheduler scheduler fun i _ => (.stats (y.planStats i key), s)
  | .showScheduler scheduler =>
    s.onScheduler scheduler fun _ x => (.scheduler x.report, s)

/-- Carries out a command and all work that it sets off and that needs no time. -/
def step (s : Scenario) (command : Command) : Answer × Scenario :=
  let (answer, s) := s.perform command
  (answer, { s with system := s.system.settle })

def states (s : Scenario) : List (String × State) :=
  s.tasks.entries.map fun (name, t) => (name, s.system.state t)

end Scenario

end Scheduling
