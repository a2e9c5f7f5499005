import Scheduling.Settings
import Scheduling.System.Steps
import Scheduling.Text.Sorted
/-!
# Reachable systems

What can happen to a system: something is asked of it from outside, one of its actors makes one of
its moves, or time passes. Requests may come between any two moves, any actor may move next, and
time may pass although work is left, so what holds in all reachable systems holds in every order of
events.
-/

namespace Scheduling

/-- What can be asked of a system from outside. -/
inductive Request
  | newContext
  | newChild (parent : ContextId)
  | newChildFor (parent : ContextId) (timeout : Duration)
  | cancelContext (context : ContextId)
  | cancelSilently (context : ContextId)
  | newTask (id : String) (labels : List (String × String)) (body : Nat → List Action)
  | startTask (task : TaskId) (context : ContextId)
  | cancelTask (task : TaskId)
  | newExecutor (task : TaskId) (options : ExecutorOptions)
  | cancelExecutor (executor : ExecutorId)
  | resetExecutor (executor : ExecutorId)
  | newQueue (blocking : Bool)
  | push (queue : QueueId) (plans : List Plan)
  | tryPop (queue : QueueId)
  | update (queue : QueueId) (plan : Plan)
  | removeQueued (queue : QueueId) (key : String)
  | newTable (zone : ZoneChoice)
  | addEntry (table : TableId) (name expression : String)
  | removeEntry (table : TableId) (id : Cron.EntryId)
  | startTable (table : TableId)
  | stopTable (table : TableId)
  | clearTable (table : TableId)
  | newScheduler (blueprint : Blueprint)
  | addPlans (scheduler : SchedulerId) (plans : List Plan)
  | removePlan (scheduler : SchedulerId) (plan : Plan)
  | startScheduler (scheduler : SchedulerId) (context : ContextId)
  | cancelPlan (scheduler : SchedulerId) (key : String)
  /-- Make a call that may have to wait. -/
  | call (call : Call)

/-- One thing that happens to a system. -/
inductive Step
  | request (request : Request)
  /-- An actor makes one of the moves that it can make, by its place in their list. -/
  | move (actor : Actor) (choice : Nat)
  /-- The clock goes on to a later millisecond. -/
  | pass (millis : Nat)

namespace System

/-! ## Requests -/

/-- Whether a context exists. -/
def hasContext (y : System) (c : ContextId) : Bool := c < y.contexts.nodes.size

/-- Whether an executor belongs to a worker of a scheduler; such executors are not handed out. -/
def isWorking (y : System) (e : ExecutorId) : Bool :=
  y.schedulers.any fun s => s.sessions.any fun n => n.workers.any (·.executor == e)

/-- Whether an executor exists and may be used from outside. -/
def lends (y : System) (e : ExecutorId) : Bool := e < y.executors.size && !y.isWorking e

/-- Whether a plan is made of a task and a context that exist, and carries the identifier and the
time of creation of its task. -/
def knows (y : System) (p : Plan) : Bool :=
  y.hasContext p.context &&
    y.tasks[p.task]?.any fun task => p.key == task.id && p.createdAt == task.createdAt

/-- Whether a call can be made: it stands at its beginning, and what it names exists. -/
def acceptsCall (y : System) : Call → Bool
  | .sleep c _ => y.hasContext c
  | .awaitContext c => y.hasContext c
  | .awaitTask t => t < y.tasks.size
  | .start e c .entered => y.lends e && y.hasContext c
  | .stop e _ => y.lends e
  | .pop q .fresh => q < y.queues.size
  | .stopScheduler i _ => i < y.schedulers.size
  | _ => false

/-- Whether a request can be made: everything that it names exists. -/
def accepts (y : System) : Request → Bool
  | .newContext | .newTask _ _ _ | .newQueue _ | .newTable _ | .newScheduler _ => true
  | .newChild c | .newChildFor c _ | .cancelContext c | .cancelSilently c => y.hasContext c
  | .startTask t c => t < y.tasks.size && y.hasContext c
  | .cancelTask t | .newExecutor t _ => t < y.tasks.size
  | .cancelExecutor e | .resetExecutor e => y.lends e
  | .push q plans => q < y.queues.size && plans.all y.knows
  | .update q plan => q < y.queues.size && y.knows plan
  | .tryPop q | .removeQueued q _ => q < y.queues.size
  | .addEntry i _ _ | .removeEntry i _ | .startTable i | .stopTable i | .clearTable i =>
    i < y.tables.size
  | .addPlans i plans => i < y.schedulers.size && plans.all y.knows
  | .removePlan i plan => i < y.schedulers.size && y.knows plan
  | .startScheduler i c => i < y.schedulers.size && y.hasContext c
  | .cancelPlan i _ => i < y.schedulers.size
  | .call c => y.acceptsCall c

/-- Changes a standalone queue. -/
def modifyQueue (y : System) (q : QueueId) (f : Queue Plan → Queue Plan) : System :=
  { y with queues := y.queues.modify q f }

/-- Changes a standalone cron table. -/
def modifyTable (y : System) (i : TableId)
    (f : Cron.Table String → Cron.Table String) : System :=
  { y with tables := y.tables.modify i f }

/-- Carries out a request; one that ends with an error changes nothing. -/
def carryOut (y : System) : Request → System
  | .newContext => y.newContext.2
  | .newChild parent => (y.newChild parent).2
  | .newChildFor parent timeout => ((y.newChildFor parent timeout).map Prod.snd).getD y
  | .cancelContext c => y.cancelContext c
  | .cancelSilently c => { y with contexts := y.contexts.cancelSilently c }
  | .newTask id labels body =>
    { y with
      tasks := y.tasks.push (Task.create id (Text.sortByKey labels) y.clock.wall body) }
  | .startTask t c => (y.startTask t c).2
  | .cancelTask t => (y.cancelTask t).2
  | .newExecutor t options => { y with executors := y.executors.push (Executor.create t options) }
  | .cancelExecutor e => (y.cancelExecutor e).2
  | .resetExecutor e => y.modifyExecutor e Executor.reset
  | .newQueue blocking => { y with queues := y.queues.push (Queue.create blocking) }
  | .push q plans => y.modifyQueue q (·.push plans)
  | .tryPop q => y.modifyQueue q fun queue => (queue.tryPop y.planOrder).2
  | .update q plan => y.modifyQueue q fun queue => (queue.update plan).2
  | .removeQueued q key => y.modifyQueue q fun queue => (queue.removeKey key).2
  | .newTable zone => { y with tables := y.tables.push (Cron.Table.create zone) }
  | .addEntry i name expression =>
    match Cron.Schedule.parse expression with
    | .error _ => y
    | .ok schedule => y.modifyTable i fun t => (t.add schedule name).2
  | .removeEntry i id => y.modifyTable i fun t => (t.remove id).2
  | .startTable i => y.modifyTable i Cron.Table.start
  | .stopTable i => y.modifyTable i Cron.Table.stop
  | .clearTable i => y.modifyTable i Cron.Table.clear
  | .newScheduler blueprint =>
    match blueprint.build with
    | .error _ => y
    | .ok s => { y with schedulers := y.schedulers.push s }
  | .addPlans i plans => (y.addPlans i plans).toOption.getD y
  | .removePlan i plan => y.removePlan i plan
  | .startScheduler i c => y.startScheduler i c
  | .cancelPlan i key => (y.cancelPlan i key).toOption.getD y
  | .call c => { y with calls := y.calls.push c }

/-! ## Steps and runs -/

/-- Where a step leads, if it can be taken. -/
def step? (y : System) : Step → Option System
  | .request r => if y.accepts r then some (y.carryOut r) else none
  | .move a choice => (y.moves a)[choice]?
  | .pass millis => if y.clock.millis < millis then some (y.advanceTo millis) else none

theorem step_request_iff {y z : System} {r : Request} :
    y.step? (.request r) = some z ↔ y.accepts r = true ∧ y.carryOut r = z := by
  simp [step?]

theorem step_pass_iff {y z : System} {millis : Nat} :
    y.step? (.pass millis) = some z ↔ y.clock.millis < millis ∧ y.advanceTo millis = z := by
  simp [step?]

/-- Takes a step that can be taken and is allowed, and leaves out any other. -/
def tryStep (allowed : System → Step → Bool) (y : System) (a : Step) : System :=
  if allowed y a then (y.step? a).getD y else y

/-- Tries one step after the other. -/
def run (allowed : System → Step → Bool) (y : System) (steps : List Step) : System :=
  steps.foldl (tryStep allowed) y

/-- The systems that come about from nothing by steps each of which is allowed where it is
taken. -/
inductive ReachableBy (allowed : System → Step → Bool) : System → Prop
  | create (origin : Int) : ReachableBy allowed (create origin)
  | step {y z : System} {a : Step} (h : ReachableBy allowed y) (ha : allowed y a = true)
      (hz : y.step? a = some z) : ReachableBy allowed z

/-- The systems that come about from nothing by any steps. -/
def Reachable (y : System) : Prop := y.ReachableBy fun _ _ => true

theorem ReachableBy.tryStep {allowed : System → Step → Bool} {y : System}
    (h : y.ReachableBy allowed) (a : Step) : (y.tryStep allowed a).ReachableBy allowed := by
  unfold System.tryStep
  split
  · rename_i ha
    cases hz : y.step? a with
    | none => exact h
    | some z => exact .step h ha hz
  · exact h

theorem ReachableBy.run {allowed : System → Step → Bool} {y : System}
    (h : y.ReachableBy allowed) (steps : List Step) :
    (y.run allowed steps).ReachableBy allowed := by
  induction steps generalizing y with
  | nil => exact h
  | cons a steps ih => exact ih (h.tryStep a)

/-- What comes about from nothing, at the wall time 0, by the steps of a list that can be taken. -/
def after (steps : List Step) : System := (create 0).run (fun _ _ => true) steps

theorem reachable_after (steps : List Step) : (after steps).Reachable :=
  (ReachableBy.create 0).run steps

theorem ReachableBy.reachable {allowed : System → Step → Bool} {y : System}
    (h : y.ReachableBy allowed) : y.Reachable := by
  induction h with
  | create origin => exact .create origin
  | step _ _ hz ih => exact .step ih rfl hz

end System

end Scheduling
