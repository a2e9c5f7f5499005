import Scheduling.Context
import Scheduling.Json.Shape
import Scheduling.Script
/-!
# Tasks

A task is a named body with a state, the outcome of its latest run and what the run reported. Its
state moves from created to running, then to an end state, by way of canceling if its cancellation
was requested; from an end state it may run again.
-/

namespace Scheduling

abbrev TaskId := Nat

/-- The stages in the life of a task. -/
inductive State
  /-- No run has started yet. -/
  | created
  | running
  /-- Cancellation was requested and the run has not ended. -/
  | canceling
  | succeeded
  /-- The last run ended with an error or a panic. -/
  | failed
  /-- The last run ended after its cancellation was requested. -/
  | canceled
deriving DecidableEq, Repr, Inhabited

namespace State

/-- Whether a run is in progress. -/
def isPending : State → Bool
  | running | canceling => true
  | _ => false

/-- Whether the last run has ended. -/
def isTerminal : State → Bool
  | succeeded | failed | canceled => true
  | _ => false

/-- The rank of a state in the order of dispatch: not yet run, in progress, done. -/
def phase : State → Nat
  | created => 0
  | running | canceling => 1
  | succeeded | failed | canceled => 2

def name : State → String
  | created => "created"
  | running => "running"
  | canceling => "canceling"
  | succeeded => "succeeded"
  | failed => "failed"
  | canceled => "canceled"

/-- The capitalized name of a state. -/
def title : State → String
  | created => "Created"
  | running => "Running"
  | canceling => "Canceling"
  | succeeded => "Succeeded"
  | failed => "Failed"
  | canceled => "Canceled"

/-- All states in the order of their definition. -/
def all : List State := [created, running, canceling, succeeded, failed, canceled]

end State

/-- A task with the outcome of its latest run. -/
structure Task where
  id : String
  /-- Labels in ascending order of their keys. -/
  labels : List (String × String)
  createdAt : Timestamp
  /-- The body of each run, counted from 0. -/
  body : Nat → List Action
  state : State
  /-- The last reported progress, by its IEEE 754 bits. -/
  progress : UInt64
  result : Option Json
  error : Option Error
  startedAt : Option Timestamp
  endedAt : Option Timestamp
  /-- The context of the run in progress. -/
  runContext : Option ContextId
  /-- The flag that those who wait for the task to end look at. -/
  pending : Bool
  /-- How many times the body was begun. -/
  runs : Nat

instance : Inhabited Task :=
  ⟨⟨"", [], ⟨0⟩, fun _ => [], .created, 0, none, none, none, none, none, false, 0⟩⟩

namespace Task

/-- A task that has not run yet. -/
def create (id : String) (labels : List (String × String)) (now : Timestamp)
    (body : Nat → List Action) : Task :=
  { (default : Task) with id := id, labels := labels, createdAt := now, body := body }

def isDone (t : Task) : Bool := t.state.isTerminal

def resultAs (t : Task) (shape : Json.Shape) : Except Error Json :=
  match t.result with
  | none => .error (.notFound ("task `" ++ t.id ++ "` has no result"))
  | some value =>
    match shape.take value with
    | .ok value => .ok value
    | .error fault => .error (.invalidArgument fault.message)

/-- A run begins: what the last one left is cleared, except its progress. -/
def begin (t : Task) (context : ContextId) (now : Timestamp) : Task :=
  { t with
    state := .running
    startedAt := some now
    endedAt := none
    result := none
    error := none
    runContext := some context
    pending := true }

/-- How a run ends: a requested cancellation decides over success, and stands with the body's own
error or, for a body that ended well, with the error of the run's context. -/
def endState (s : State) (outcome : Outcome) (contextError : Option Error) :
    State × Option Error :=
  match s, outcome with
  | .canceling, .error e => (.canceled, some e)
  | .canceling, .ok () => (.canceled, some (contextError.getD .canceled))
  | _, .error e => (.failed, some e)
  | _, .ok () => (.succeeded, none)

/-- The run in progress ends. -/
def finish (t : Task) (outcome : Outcome) (contextError : Option Error) (now : Timestamp) : Task :=
  let last := endState t.state outcome contextError
  { t with
    endedAt := some now
    runContext := none
    state := last.1
    error := last.2
    pending := false }

/-- The time of the latest run, up to now while it lasts. -/
def executionTime (t : Task) (now : Timestamp) : Duration :=
  match t.startedAt with
  | none => Duration.zero
  | some start => Duration.between start.nanos (t.endedAt.getD now).nanos

end Task

end Scheduling
