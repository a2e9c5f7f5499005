import Scheduling.Error
import Scheduling.Json.Value
/-!
# Task bodies

A body is a list of actions for each run of its task. What a run does is noted as it happens.
-/

namespace Scheduling

/-- One action of a task body. -/
inductive Action
  /-- Sleeps unless the run is asked to stop first, which then ends the run with that error. -/
  | sleep (d : Duration)
  /-- Sleeps likewise, but only notes how the sleep ended. -/
  | trySleep (d : Duration)
  /-- Sleeps whatever happens to the run's context. -/
  | rawSleep (d : Duration)
  /-- Waits until the run is asked to stop. -/
  | awaitDone
  /-- Reports progress, given by its IEEE 754 bits. -/
  | progress (bits : UInt64)
  | result (value : Json)
  /-- Tries to store a map whose keys are no strings, which ends the run with an error. -/
  | unkeyedResult
  /-- Notes what the run can see of itself. -/
  | look
  | say (value : Json)
  /-- Cancels the context of the run, but not the task. -/
  | cancelContext
  /-- Sleeps in a child context with a timeout and notes how the sleep ended. -/
  | childSleep (timeout d : Duration)
  | succeed
  | fail (e : Error)
  /-- Ends the run with the error of its context. -/
  | failWithContext
  /-- Panics; the payload is a text or something else. -/
  | panic (payload : Option String)
deriving Inhabited

/-- The body that follows one list of actions in each of its runs, the last one in all later
runs. -/
def bodyOf (runs : List (List Action)) (n : Nat) : List Action :=
  (runs[n]?.or runs.getLast?).getD []

/-- How a body ends, if it ends without a panic. -/
abbrev Outcome := Except Error Unit

def panicText (payload : Option String) : String :=
  payload.getD "task panicked with a non-string payload"

/-- What a run can see of itself. -/
structure RunView where
  id : String
  labels : List (String × String)
  done : Bool
  error : Option Error
  hasDeadline : Bool

/-- Something that happened in a run. -/
inductive Note
  | started
  | ended (outcome : Outcome)
  | said (value : Json)
  | slept (outcome : Outcome)
  | looked (view : RunView)

end Scheduling
