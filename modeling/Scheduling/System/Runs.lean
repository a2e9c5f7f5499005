import Scheduling.System
/-!
# Runs of tasks

Starting and cancelling a task, and the moves of a run: its body takes one action after the other,
waits where an action says so, and in the end the task is told the outcome.
-/

namespace Scheduling.System

/-- Starts a run of a task in a new context below `parent`; refused while a run is in progress. -/
def startTask (y : System) (t : TaskId) (parent : ContextId) : Bool × System :=
  match y.tasks[t]? with
  | none => (false, y)
  | some task =>
    if task.state.isPending then (false, y)
    else
      let (c, y) := y.newChild parent
      let y := y.modifyTask t (·.begin c y.clock.wall)
      (true,
        { y with
          runs := y.runs.insert y.nextRun ⟨t, 0, c, .launched⟩
          nextRun := y.nextRun + 1 })

/-- Requests the cancellation of the run in progress; tells whether it was running. -/
def cancelTask (y : System) (t : TaskId) : Bool × System :=
  match y.tasks[t]? with
  | none => (false, y)
  | some task =>
    if task.state = .running then
      let y := y.modifyTask t fun task => { task with state := .canceling }
      (true,
        match task.runContext with
        | some c => y.cancelContext c
        | none => y)
    else (false, y)

def runAt (y : System) (r : RunId) (point : RunPoint) : System :=
  { y with runs := y.runs.modify r fun run => { run with point := point } }

/-- Notes what happened in a run. -/
def note (y : System) (run : Run) (n : Note) : System :=
  y.record (.run run.task run.index n)

def endBody (y : System) (r : RunId) (run : Run) (outcome : Outcome) : System :=
  (y.note run (.ended outcome)).runAt r (.ended outcome)

def panicBody (y : System) (r : RunId) (text : String) : System :=
  y.runAt r (.ended (.error (.panic text)))

/-- What a run sees of itself. -/
def view (y : System) (run : Run) : RunView :=
  let task := (y.tasks[run.task]?).getD default
  { id := task.id
    labels := task.labels
    done := y.contexts.isDone run.context
    error := y.contexts.error? run.context
    hasDeadline := (y.contexts.deadline run.context).isSome }

def doneError (y : System) (c : ContextId) : Error := (y.contexts.error? c).getD .canceled

/-- The body of a run takes its next action. -/
def act (y : System) (r : RunId) (run : Run) (action : Action) (rest : List Action) : System :=
  let sleep (d : Duration) (c : Option ContextId) (strict : Bool) : System :=
    y.runAt r (.sleeping (Instant.wake y.now d) c strict rest)
  let go (y : System) : System := y.runAt r (.acting rest)
  match action with
  | .sleep d => sleep d (some run.context) true
  | .trySleep d => sleep d (some run.context) false
  | .rawSleep d => sleep d none true
  | .awaitDone => y.runAt r (.awaiting rest)
  | .progress bits => go (y.modifyTask run.task fun t => { t with progress := bits })
  | .result value => go (y.modifyTask run.task fun t => { t with result := some value })
  | .unkeyedResult => y.endBody r run (.error (.invalidArgument "key must be a string"))
  | .look => go (y.note run (.looked (y.view run)))
  | .say value => go (y.note run (.said value))
  | .cancelContext => go (y.cancelContext run.context)
  | .childSleep timeout d =>
    match y.newChildFor run.context timeout with
    | none => y.panicBody r Instant.overflowText
    | some (c, y) => y.runAt r (.sleeping (Instant.wake y.now d) (some c) false rest)
  | .succeed => y.endBody r run (.ok ())
  | .fail e => y.endBody r run (.error e)
  | .failWithContext =>
    y.endBody r run (.error ((y.contexts.error? run.context).getD (.failed "live")))
  | .panic payload => y.panicBody r (panicText payload)

/-- A sleep of a run ends: quietly if nothing watched it and it came to its end. -/
def endSleep (y : System) (r : RunId) (run : Run) (strict : Bool) (rest : List Action)
    (outcome : Outcome) : System :=
  if strict then
    match outcome with
    | .ok () => y.runAt r (.acting rest)
    | .error e => y.endBody r run (.error e)
  else (y.note run (.slept outcome)).runAt r (.acting rest)

/-- The task of a run is told the outcome; then the context of the run is cancelled. -/
def finishRun (y : System) (r : RunId) (run : Run) (outcome : Outcome) : System :=
  let y := y.modifyTask run.task
    (·.finish outcome (y.contexts.error? run.context) y.clock.wall)
  let y := y.cancelContext run.context
  { y with runs := y.runs.erase r }

def runMoves (y : System) (r : RunId) : List System :=
  match y.runs.get? r with
  | none => []
  | some run =>
    match run.point with
    | .launched =>
      match y.tasks[run.task]? with
      | none => []
      | some task =>
        let run := { run with index := task.runs, point := .acting (task.body task.runs) }
        let y := y.modifyTask run.task fun t => { t with runs := t.runs + 1 }
        let y := { y with runs := y.runs.insert r run }
        [y.note run .started]
    | .acting [] => [y.endBody r run (.ok ())]
    | .acting (action :: rest) => [y.act r run action rest]
    | .sleeping wake context strict rest =>
      (match context with
        | some c =>
          if y.contexts.isDone c then [y.endSleep r run strict rest (.error (y.doneError c))]
          else []
        | none => []) ++
      (if wake ≤ y.now then [y.endSleep r run strict rest (.ok ())] else [])
    | .awaiting rest =>
      if y.contexts.isDone run.context then [y.runAt r (.acting rest)] else []
    | .ended outcome => [y.finishRun r run outcome]

/-- When a run wants to wake up by itself. -/
def Run.wake? (run : Run) : Option Instant :=
  match run.point with
  | .sleeping wake _ _ _ => some wake
  | _ => none

end Scheduling.System
