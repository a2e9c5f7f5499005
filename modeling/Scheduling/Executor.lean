import Scheduling.Options
import Scheduling.Registry
import Scheduling.Task
/-!
# Executors

An executor runs one task under its policies. It counts the attempts of the current cycle, keeps
the error of each failed one, and remembers until when the task has to rest. Each start call of an
executor takes a halt flag of its own; only the newest flag can be raised.
-/

namespace Scheduling

abbrev ExecutorId := Nat

/-- An executor and the counters of its current cycle. -/
structure Executor where
  task : TaskId
  options : ExecutorOptions
  attempts : Nat
  /-- The error of each failed attempt, by its index from 0. -/
  errors : Registry Nat Error
  cooldownUntil : Option Instant
  /-- All halt flags ever made, oldest first; the last one is current. -/
  halts : Array Bool

instance : Inhabited Executor := ⟨⟨0, {}, 0, Registry.empty, none, #[]⟩⟩

namespace Executor

/-- An executor that has made no attempt. -/
def create (task : TaskId) (options : ExecutorOptions) : Executor :=
  ⟨task, options, 0, Registry.empty, none, #[false]⟩

def currentHalt (e : Executor) : Nat := e.halts.size - 1

def isHalted (e : Executor) (halt : Nat) : Bool := e.halts[halt]?.getD false

def renewHalt (e : Executor) : Executor := { e with halts := e.halts.push false }

def raiseHalt (e : Executor) : Executor :=
  { e with halts := e.halts.modify e.currentHalt fun _ => true }

/-- Clears the counters, the errors and the rest. -/
def reset (e : Executor) : Executor :=
  { e with attempts := 0, errors := Registry.empty, cooldownUntil := none }.renewHalt

/-- How long the task still has to rest. -/
def cooldownRemaining (e : Executor) (now : Instant) : Duration :=
  match e.cooldownUntil with
  | none => Duration.zero
  | some instant => Instant.until_ now instant

/-- Whether a start may go on: a task that is done must be allowed to run again and have rested. -/
def mayStart (e : Executor) (task : Task) (now : Instant) : Except Error Unit :=
  if !task.isDone then .ok ()
  else if e.options.once then .error (.onlyOnce task.id)
  else if e.cooldownRemaining now = Duration.zero then .ok ()
  else .error (.coolingDown task.id (e.cooldownRemaining now))

/-- Counts an attempt and keeps its error. -/
def record (e : Executor) (attempt : Nat) (outcome : Outcome) : Executor :=
  match outcome with
  | .ok () => { e with attempts := attempt + 1 }
  | .error err => { e with attempts := attempt + 1, errors := e.errors.insert attempt err }

end Executor

/-- Where a start call of an executor stands. -/
inductive CallPoint
  /-- It was made and has not been looked at. -/
  | entered
  /-- It waits for the end of a run, which it gave a context of its own. -/
  | running (attempt halt : Nat) (context : ContextId)
  /-- It pauses before an attempt, after the error of the one before. -/
  | pausing (attempt halt : Nat) (wake : Instant) (last : Error)
deriving DecidableEq, Inhabited

inductive CallEnd
  | returned (outcome : Outcome)
  | panicked (text : String)

end Scheduling
