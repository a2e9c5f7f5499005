import Scheduling.Options
import Scheduling.Queue
import Scheduling.Task
/-!
# Plans

A plan says how and when a task is to run. Plans are dispatched in an order that depends on the
present state of their tasks: those that have not run come first, those that are done last.
-/

namespace Scheduling

/-- A task with how and when it is to run. -/
structure Plan where
  task : TaskId
  /-- The identifier of the task, by which the plan is known. -/
  key : String
  /-- When the task was created. -/
  createdAt : Timestamp
  context : ContextId
  /-- The cron expression on which the plan fires; without one it is queued at once. -/
  schedule : Option String
  /-- Lower values are dispatched first. -/
  priority : Int
  /-- Whether no other plan may be in flight meanwhile. -/
  exclusive : Bool
  /-- The policies of the executor, in place of the default ones. -/
  options : Option ExecutorOptions
deriving DecidableEq, Repr, Inhabited

namespace Plan

instance : Prioritized Plan where
  key := Plan.key
  priority := Plan.priority
  withPriority p priority := { p with priority := priority }

/-- The order of dispatch, where `phase` gives the rank of each task's present state: by that rank,
then by priority, time of creation and identifier. -/
def order (phase : TaskId → Nat) (a b : Plan) : Ordering :=
  (compare (phase a.task) (phase b.task)).then <|
  (compare a.priority b.priority).then <|
  (compare a.createdAt.nanos b.createdAt.nanos).then <|
  compare a.key b.key

end Plan

end Scheduling
