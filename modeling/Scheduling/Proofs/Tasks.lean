import Scheduling.Proofs.Frames
/-!
# What a step does to tasks and runs

A step begins a run of a task, takes one run further, makes a task, or leaves all runs where they
are and at most requests that some of them end. `deed_of_step` says so once: a run begins by a start
call that is granted, and a task is told to end by cancel calls. From it follow what can become of a
task in a step, and that a task has a run in progress only while it is pending, and no more than
one.
-/

namespace Scheduling

/-- What a run reports does not change the state of its task. -/
def Task.Reports (task task' : Task) : Prop :=
  ∃ (progress : UInt64) (result : Option Json),
    task' = { task with progress := progress, result := result }

/-- The run in progress is told to end, or nothing happens. -/
def Task.Yields (task task' : Task) : Prop :=
  task' = task ∨ task.state = .running ∧ task' = { task with state := .canceling }

theorem Task.Yields.trans {task task' task'' : Task} (h : task.Yields task')
    (h' : task'.Yields task'') : task.Yields task'' := by
  obtain rfl | ⟨hrunning, rfl⟩ := h
  · exact h'
  · obtain rfl | ⟨hcanceling, -⟩ := h'
    · exact .inr ⟨hrunning, rfl⟩
    · cases hcanceling

/-- What is left of a body that has begun and has not ended. -/
def RunPoint.left? : RunPoint → Option (List Action)
  | .launched | .ended _ => none
  | .acting rest | .sleeping _ _ _ rest | .awaiting rest => some rest

/-- Whether a body is over with an action that runs its course. -/
def Action.ends : Action → Bool
  | .unkeyedResult | .succeed | .fail _ | .failWithContext | .panic _ => true
  | _ => false

namespace System

variable {y z u : System} {a : Step} {t : TaskId} {e : ExecutorId}

/-- Both systems have the same tasks up to a relation. -/
def Corresponds (R : Task → Task → Prop) (y z : System) : Prop :=
  ∀ t : TaskId, Option.Rel R y.tasks[t]? z.tasks[t]?

theorem corresponds_of_eq {R : Task → Task → Prop} (hR : ∀ task, R task task)
    (h : z.tasks = y.tasks) : y.Corresponds R z := by
  intro t
  rw [h]
  cases y.tasks[t]? with
  | none => exact .none
  | some task => exact .some (hR task)

theorem corresponds_of_modify {R : Task → Task → Prop} {f : Task → Task}
    (hR : ∀ task, R task task) (hf : ∀ task, y.tasks[t]? = some task → R task (f task))
    (h : z.tasks = y.tasks.modify t f) : y.Corresponds R z := by
  intro t'
  rw [h, Array.getElem?_modify]
  cases htask : y.tasks[t']? with
  | none => split <;> exact .none
  | some task =>
      split
      · rename_i ht
        exact .some (hf task (ht ▸ htask))
      · exact .some (hR task)

/-- Tasks and runs stay as they are. -/
structure KeepsRuns (y z : System) : Prop where
  tasks : z.tasks = y.tasks
  runs : z.runs = y.runs
  nextRun : z.nextRun = y.nextRun

theorem KeepsRuns.refl (y : System) : y.KeepsRuns y := ⟨rfl, rfl, rfl⟩

theorem KeepsRuns.trans (h : y.KeepsRuns z) (h' : z.KeepsRuns u) : y.KeepsRuns u :=
  ⟨h'.tasks.trans h.tasks, h'.runs.trans h.runs, h'.nextRun.trans h.nextRun⟩

/-- Tasks and runs rest; contexts are at most made and hit. -/
structure Rests (y z : System) : Prop extends y.KeepsRuns z where
  contexts : y.contexts.Grows z.contexts

theorem Rests.refl (y : System) : y.Rests y := ⟨.refl y, .refl _⟩

theorem Rests.trans (h : y.Rests z) (h' : z.Rests u) : y.Rests u :=
  ⟨h.toKeepsRuns.trans h'.toKeepsRuns, h.contexts.trans h'.contexts⟩

/-- No run goes further; one task after the other is asked to end. -/
inductive Stops : System → System → Prop
  | rests {y z : System} (h : y.Rests z) : Stops y z
  | cancels {y u z : System} (hu : y.Rests u) (t : TaskId) (h : Stops (u.cancelTask t).2 z) :
      Stops y z

theorem Rests.stops (h : y.Rests z) : y.Stops z := .rests h

theorem Stops.refl (y : System) : y.Stops y := (Rests.refl y).stops

theorem Stops.of_rests (h : y.Rests z) (h' : z.Stops u) : y.Stops u := by
  cases h' with
  | rests h' => exact .rests (h.trans h')
  | cancels hu t h' => exact .cancels (h.trans hu) t h'

theorem Stops.trans (h : y.Stops z) (h' : z.Stops u) : y.Stops u := by
  induction h with
  | rests h => exact h'.of_rests h
  | cancels hu t _ ih => exact .cancels hu t (ih h')

theorem stops_cancelTask (y : System) (t : TaskId) : y.Stops (y.cancelTask t).2 :=
  .cancels (.refl y) t (.refl _)

/-- A run of a task begins: a start call is granted. -/
def Launches (y : System) (t : TaskId) (z : System) : Prop :=
  ∃ (u : System) (parent : ContextId) (v : System), y.Rests u ∧ u.clock = y.clock ∧
    u.startTask t parent = (true, v) ∧ v.Rests z

/-- A run of a task can begin in a step: it is asked for, or a start call of an executor of the task
makes a move. -/
def Causes (y : System) (a : Step) (t : TaskId) : Prop :=
  (∃ c, a = .request (.startTask t c)) ∨
    ∃ (actor : Actor) (choice : Nat) (e : ExecutorId) (x : Executor),
      a = .move actor choice ∧ y.working a = some e ∧ y.executors[e]? = some x ∧ x.task = t

/-- How a body comes to its end. -/
inductive Completion
  | returned (outcome : Outcome)
  | panicked (text : String)

/-- What the task of a body is told. -/
def Completion.outcome : Completion → Outcome
  | returned outcome => outcome
  | panicked text => .error (.panic text)

/-- The next thing that a run does brings its body to an end. -/
inductive Completes (y : System) (run : Run) : Completion → Prop
  /-- Nothing is left to do. -/
  | finishes (h : run.point = .acting []) : Completes y run (.returned (.ok ()))
  | succeeds {rest : List Action} (h : run.point = .acting (.succeed :: rest)) :
      Completes y run (.returned (.ok ()))
  | fails {e : Error} {rest : List Action} (h : run.point = .acting (.fail e :: rest)) :
      Completes y run (.returned (.error e))
  | failsWithContext {rest : List Action} (h : run.point = .acting (.failWithContext :: rest)) :
      Completes y run
        (.returned (.error ((y.contexts.error? run.context).getD (.failed "live"))))
  | reportsUnkeyed {rest : List Action} (h : run.point = .acting (.unkeyedResult :: rest)) :
      Completes y run (.returned (.error (.invalidArgument "key must be a string")))
  | panics {payload : Option String} {rest : List Action}
      (h : run.point = .acting (.panic payload :: rest)) :
      Completes y run (.panicked (panicText payload))
  /-- A timeout reaches further than the clock can tell. -/
  | overflows {timeout d : Duration} {rest : List Action}
      (h : run.point = .acting (.childSleep timeout d :: rest))
      (hnone : y.newChildFor run.context timeout = none) :
      Completes y run (.panicked Instant.overflowText)
  /-- A sleep is cut short, and its error is passed on. -/
  | wakes {wake : Instant} {c : ContextId} {rest : List Action}
      (h : run.point = .sleeping wake (some c) true rest) (hdone : y.contexts.isDone c = true) :
      Completes y run (.returned (.error (y.doneError c)))

/-- A run goes on to a point; if its body ends there, the task is told how, and else the body has as
much left to do as before, or all but one action that does not end it. -/
structure Reaches (y : System) (run : Run) (point : RunPoint) : Prop where
  completes : ∀ outcome, point = .ended outcome →
    ∃ completion, y.Completes run completion ∧ completion.outcome = outcome
  left : ∀ rest, point.left? = some rest → run.point.left? = some rest ∨
    ∃ action, run.point = .acting (action :: rest) ∧ action.ends = false

/-- What a step does to tasks and runs. -/
inductive Deed (y : System) (a : Step) (z : System) : Prop
  | stops (h : y.Stops z)
  | adds {id : String} {labels : List (String × String)} {now : Timestamp}
      {body : Nat → List Action} (htasks : z.tasks = y.tasks.push (Task.create id labels now body))
      (hruns : z.runs = y.runs) (hnext : z.nextRun = y.nextRun)
  | begins {t : TaskId} {task : Task} (hcause : y.Causes a t) (htask : y.tasks[t]? = some task)
      (hidle : task.state.isPending = false) (h : y.Launches t z)
  /-- The body of a run begins. -/
  | launches {r : RunId} {run run' : Run} (hrun : y.runs.get? r = some run)
      (hpoint : run.point = .launched) (htask : run'.task = run.task)
      (hpoint' : run'.point ≠ .launched)
      (htasks : z.tasks = y.tasks.modify run.task fun task => { task with runs := task.runs + 1 })
      (hruns : z.runs = y.runs.insert r run') (hnext : z.nextRun = y.nextRun)
      (hcontext : run'.context = run.context)
      (hbody : ∃ task : Task, y.tasks[run.task]? = some task ∧
        run'.point = .acting (task.body task.runs))
  | acts {r : RunId} {run : Run} {point : RunPoint} (hrun : y.runs.get? r = some run)
      (hpoint : run.point ≠ .launched) (hpoint' : point ≠ .launched)
      (htasks : ∃ f : Task → Task, (∀ task : Task, task.Reports (f task)) ∧
        z.tasks = y.tasks.modify run.task f)
      (hruns : z.runs = y.runs.modify r fun run => { run with point := point })
      (hnext : z.nextRun = y.nextRun) (hopen : ∀ outcome, run.point ≠ .ended outcome)
      (hreaches : y.Reaches run point)
  | finishes {r : RunId} {run : Run} {outcome : Outcome}
      (hrun : y.runs.get? r = some run) (hpoint : run.point = .ended outcome)
      (htasks : z.tasks = y.tasks.modify run.task
        (·.finish outcome (y.contexts.error? run.context) y.clock.wall))
      (hruns : z.runs = y.runs.erase r) (hnext : z.nextRun = y.nextRun)

theorem Deed.of_rests (h : y.Deed a z) (hu : z.Rests u) : y.Deed a u := by
  obtain ⟨htasks', hruns', hnext'⟩ := hu.toKeepsRuns
  cases h with
  | stops h => exact .stops (h.trans hu.stops)
  | adds htasks hruns hnext =>
      exact .adds (htasks'.trans htasks) (hruns'.trans hruns) (hnext'.trans hnext)
  | begins hcause htask hidle h =>
      obtain ⟨v, parent, w, hv, hclock, hstart, hw⟩ := h
      exact .begins hcause htask hidle ⟨v, parent, w, hv, hclock, hstart, hw.trans hu⟩
  | launches hrun hpoint htask hpoint' htasks hruns hnext hcontext hbody =>
      exact .launches hrun hpoint htask hpoint' (htasks'.trans htasks) (hruns'.trans hruns)
        (hnext'.trans hnext) hcontext hbody
  | acts hrun hpoint hpoint' htasks hruns hnext hopen hreaches =>
      obtain ⟨f, hf, htasks⟩ := htasks
      exact .acts hrun hpoint hpoint' ⟨f, hf, htasks'.trans htasks⟩ (hruns'.trans hruns)
        (hnext'.trans hnext) hopen hreaches
  | finishes hrun hpoint htasks hruns hnext =>
      exact .finishes hrun hpoint (htasks'.trans htasks) (hruns'.trans hruns)
        (hnext'.trans hnext)

theorem deed_of_eq (htasks : z.tasks = y.tasks) (hruns : z.runs = y.runs)
    (hnext : z.nextRun = y.nextRun) (hcontexts : y.contexts.Grows z.contexts) : y.Deed a z :=
  .stops (Rests.mk ⟨htasks, hruns, hnext⟩ hcontexts).stops

theorem Rests.deed (h : y.Rests z) : y.Deed a z := .stops h.stops

/-! ## Cancellations -/

/-- A cancellation is granted exactly to a task that is running, and reaches the run in progress. -/
theorem cancelTask_cases (y : System) (t : TaskId) :
    (y.state t ≠ .running ∧ y.cancelTask t = (false, y)) ∨
      ∃ task, y.tasks[t]? = some task ∧ task.state = .running ∧
        ((task.runContext = none ∧
            y.cancelTask t = (true, y.modifyTask t fun task => { task with state := .canceling })) ∨
          ∃ c, task.runContext = some c ∧ y.cancelTask t =
            (true, (y.modifyTask t fun task => { task with state := .canceling }).cancelContext
              c)) := by
  cases htask : y.tasks[t]? with
  | none => exact .inl ⟨by simp [state, htask], by simp [cancelTask, htask]⟩
  | some task =>
      by_cases hrunning : task.state = .running
      · refine .inr ⟨task, rfl, hrunning, ?_⟩
        cases hc : task.runContext with
        | none => exact .inl ⟨rfl, by simp [cancelTask, htask, hrunning, hc]⟩
        | some c => exact .inr ⟨c, rfl, by simp [cancelTask, htask, hrunning, hc]⟩
      · exact .inl ⟨by simpa [state, htask] using hrunning, by simp [cancelTask, htask, hrunning]⟩

/-- A cancellation leaves all runs where they are. -/
theorem runs_cancelTask (y : System) (t : TaskId) :
    (y.cancelTask t).2.runs = y.runs ∧ (y.cancelTask t).2.nextRun = y.nextRun := by
  obtain ⟨-, h⟩ | ⟨_, -, -, ⟨-, h⟩ | ⟨_, -, h⟩⟩ := cancelTask_cases y t <;> rw [h] <;>
    exact ⟨rfl, rfl⟩

theorem corresponds_cancelTask (y : System) (t : TaskId) :
    y.Corresponds Task.Yields (y.cancelTask t).2 := by
  have hgranted {z : System} {task : Task} (htask : y.tasks[t]? = some task)
      (hrunning : task.state = .running)
      (h : z.tasks = y.tasks.modify t fun task => { task with state := .canceling }) :
      y.Corresponds Task.Yields z := by
    refine corresponds_of_modify (fun _ => .inl rfl) (fun task' htask' => ?_) h
    obtain rfl := Option.some.inj (htask.symm.trans htask')
    exact .inr ⟨hrunning, rfl⟩
  obtain ⟨-, h⟩ | ⟨task, htask, hrunning, ⟨-, h⟩ | ⟨_, -, h⟩⟩ := cancelTask_cases y t <;> rw [h]
  · exact corresponds_of_eq (fun _ => .inl rfl) rfl
  · exact hgranted htask hrunning rfl
  · exact hgranted htask hrunning rfl

namespace Stops

theorem tasks (h : y.Stops z) : y.Corresponds Task.Yields z := by
  induction h with
  | rests h => exact corresponds_of_eq (fun _ => .inl rfl) h.tasks
  | @cancels y u z hu t _ ih =>
      intro t'
      have hyu := corresponds_cancelTask u t t'
      have huz := ih t'
      rw [hu.tasks] at hyu
      revert hyu huz
      generalize y.tasks[t']? = o, (u.cancelTask t).2.tasks[t']? = o', z.tasks[t']? = o''
      rintro (⟨hyu⟩ | _) (⟨huz⟩ | _)
      · exact .some (hyu.trans huz)
      · exact .none

theorem runs (h : y.Stops z) : z.runs = y.runs := by
  induction h with
  | rests h => exact h.runs
  | cancels hu t _ ih => exact ih.trans ((runs_cancelTask _ t).1.trans hu.runs)

theorem nextRun (h : y.Stops z) : z.nextRun = y.nextRun := by
  induction h with
  | rests h => exact h.nextRun
  | cancels hu t _ ih => exact ih.trans ((runs_cancelTask _ t).2.trans hu.nextRun)

theorem contexts (h : y.Stops z) : y.contexts.Grows z.contexts := by
  induction h with
  | rests h => exact h.contexts
  | @cancels y u z hu t _ ih =>
      have hcancel : u.Works none (u.cancelTask t).2 := works_cancelTask u t
      exact (hu.contexts.trans hcancel.contexts).trans ih

end Stops

theorem stops_cancelExecutor (y : System) (e : ExecutorId) : y.Stops (y.cancelExecutor e).2 := by
  unfold cancelExecutor
  split
  · exact .refl y
  · have hraise : y.Rests (y.modifyExecutor e Executor.raiseHalt) := ⟨⟨rfl, rfl, rfl⟩, .refl _⟩
    exact hraise.stops.trans (stops_cancelTask _ _)

theorem stops_cancelExecution (y : System) (x : Execution) : y.Stops (y.cancelExecution x) := by
  have hcancel : (y.cancelExecutor x.executor).2.Rests (y.cancelExecution x) :=
    ⟨⟨rfl, rfl, rfl⟩, ContextTree.grows_cancel _ _⟩
  exact (stops_cancelExecutor y x.executor).trans hcancel.stops

theorem stops_foldl_cancelExecution (y : System) (xs : List Execution) :
    y.Stops (xs.foldl cancelExecution y) := by
  induction xs generalizing y with
  | nil => exact .refl y
  | cons x xs ih => exact (stops_cancelExecution y x).trans (ih _)

theorem rests_setScheduler (y : System) (i : SchedulerId) (s : Scheduler) :
    y.Rests (y.setScheduler i s) := ⟨⟨rfl, rfl, rfl⟩, .refl _⟩

theorem stops_removePlan (y : System) (i : SchedulerId) (p : Plan) :
    y.Stops (y.removePlan i p) := by
  unfold removePlan
  split
  · exact .refl y
  · dsimp only
    split
    · exact (rests_setScheduler y i _).stops.trans (stops_cancelExecution _ _)
    · exact (rests_setScheduler y i _).stops.trans (stops_cancelTask _ _)

theorem stops_cancelPlan (y : System) (i : SchedulerId) (key : String) :
    y.Stops ((y.cancelPlan i key).toOption.getD y) := by
  unfold cancelPlan
  split
  · exact .refl y
  · exact stops_cancelExecution y _

/-! ## Start calls -/

/-- A task is started exactly when it has no run in progress. -/
theorem startTask_cases {task : Task} (parent : ContextId) (htask : y.tasks[t]? = some task) :
    (task.state.isPending = true ∧ y.startTask t parent = (false, y)) ∨
      task.state.isPending = false ∧ ∃ z, y.startTask t parent = (true, z) := by
  cases hpending : task.state.isPending with
  | true => exact .inl ⟨rfl, by simp [startTask, htask, hpending]⟩
  | false => exact .inr ⟨rfl, _, by simp [startTask, htask, hpending]; rfl⟩

/-- What a start call does that is granted. -/
theorem effects_of_startTask {parent : ContextId} (h : y.startTask t parent = (true, z)) :
    ∃ c : ContextId, z.tasks = y.tasks.modify t (·.begin c y.clock.wall) ∧
      z.runs = y.runs.insert y.nextRun ⟨t, 0, c, .launched⟩ ∧ z.nextRun = y.nextRun + 1 ∧
        c ∈ z.contexts.lineage c := by
  unfold startTask at h
  split at h
  · cases h
  · split at h
    · cases h
    · cases h
      refine ⟨y.contexts.nodes.size, rfl, rfl, rfl, ?_⟩
      simp [ContextTree.lineage, ContextTree.get?, modifyTask]

/-- In a step that begins a run of a task the run gets a context of its own. -/
theorem Launches.effects (h : y.Launches t z) :
    ∃ c : ContextId, z.tasks = y.tasks.modify t (·.begin c y.clock.wall) ∧
      z.runs = y.runs.insert y.nextRun ⟨t, 0, c, .launched⟩ ∧ z.nextRun = y.nextRun + 1 ∧
        c ∈ z.contexts.lineage c := by
  obtain ⟨u, parent, v, hu, hclock, hstart, hv⟩ := h
  obtain ⟨c, htasks, hruns, hnext, hself⟩ := effects_of_startTask hstart
  refine ⟨c, ?_, ?_, ?_, ?_⟩
  · rw [hv.tasks, htasks, hu.tasks, hclock]
  · rw [hv.runs, hruns, hu.runs, hu.nextRun]
  · rw [hv.nextRun, hnext, hu.nextRun]
  · exact hv.contexts.mem_lineage hself

/-- A run begins after tasks and runs have rested. -/
theorem Launches.of_rests (h : u.Launches t z) (hu : y.Rests u) (hclock : u.clock = y.clock) :
    y.Launches t z := by
  obtain ⟨v, parent, w, hv, hclock', hstart, hw⟩ := h
  exact ⟨v, parent, w, hu.trans hv, hclock'.trans hclock, hstart, hw⟩

theorem launches_of_startTask {parent : ContextId} (h : y.startTask t parent = (true, z)) :
    y.Launches t z := ⟨y, parent, z, .refl y, rfl, h, .refl z⟩

section StartCall

variable {x : Executor} {task : Task} {context : ContextId} {point : CallPoint}
  {attempt halt : Nat}

/-- The context of an attempt changes no tasks and takes no time. -/
theorem keepsRuns_attemptContext {made : ContextId × System}
    (h : y.attemptContext x context = some made) :
    y.KeepsRuns made.2 ∧ made.2.clock = y.clock := by
  unfold attemptContext at h
  split at h
  · cases h
    exact ⟨⟨rfl, rfl, rfl⟩, rfl⟩
  · obtain ⟨expiry, -, rfl⟩ := Option.map_eq_some_iff.1 h
    exact ⟨⟨rfl, rfl, rfl⟩, rfl⟩

theorem keepsRuns_afterAttempt (y : System) (e : ExecutorId) (x : Executor)
    (context : ContextId) (attempt halt : Nat) (outcome : Outcome) :
    y.KeepsRuns (y.afterAttempt e x context attempt halt outcome).1 := by
  obtain ⟨-, h⟩ | ⟨_, -, ⟨-, h⟩ | ⟨_, -, -, h⟩⟩ :=
    afterAttempt_eq y e x context attempt halt outcome
  · rw [h]
    exact .refl y
  · rw [h]
    exact ⟨rfl, rfl, rfl⟩
  · rw [h]
    exact ⟨rfl, rfl, rfl⟩

/-- After a conflict there is no further attempt. -/
theorem afterAttempt_of_isConflict (y : System) (e : ExecutorId) (x : Executor)
    (context : ContextId) (attempt halt : Nat) {err : Error} (herr : err.isConflict = true) :
    (y.afterAttempt e x context attempt halt (.error err)).2 =
      .ended (.returned (.error err)) := by
  obtain ⟨-, h⟩ | ⟨retry, -, ⟨-, h⟩ | ⟨_, heq, hgoes, -⟩⟩ :=
    afterAttempt_eq y e x context attempt halt (.error err)
  · rw [h]
  · rw [h]
  · cases heq
    simp [endsCycle, herr] at hgoes

/-- An attempt begins a run of an idle task, or the start call ends with an error. -/
theorem beginAttempt_launches (e : ExecutorId) (context : ContextId) (attempt halt : Nat)
    (htask : y.tasks[x.task]? = some task) :
    (∃ (u : System) (c : ContextId), task.state.isPending = false ∧ y.Launches x.task u ∧
        y.beginAttempt e x context attempt halt = (u, .at (.running attempt halt c))) ∨
      ∃ (u : System) (result : CallEnd), y.KeepsRuns u ∧ result ≠ .returned (.ok ()) ∧
        y.beginAttempt e x context attempt halt = (u, .ended result) := by
  obtain ⟨-, h⟩ | ⟨c, v, started, w, id, hv, hmade, h⟩ :=
    beginAttempt_eq y e x context attempt halt
  · exact .inr ⟨y, .panicked Instant.overflowText, .refl y, nofun, h⟩
  · obtain ⟨hkeeps, hclock⟩ := keepsRuns_attemptContext hv
    have hlook : v.tasks[x.task]? = some task := hkeeps.tasks ▸ htask
    obtain ⟨-, hstart⟩ | ⟨hidle, w', hstart⟩ := startTask_cases c hlook
    · obtain ⟨rfl, rfl⟩ := Prod.mk.inj (hmade.symm.trans hstart)
      have hconflict : (Error.alreadyRunning id).isConflict = true := rfl
      have hafter :=
        afterAttempt_of_isConflict (w.cancelContext c) e x context attempt halt hconflict
      refine .inr ⟨_, .returned (.error _), ?_, nofun, h.trans (Prod.ext rfl hafter)⟩
      have hcancel : w.KeepsRuns (w.cancelContext c) := ⟨rfl, rfl, rfl⟩
      exact (hkeeps.trans hcancel).trans (keepsRuns_afterAttempt _ _ _ _ _ _ _)
    · obtain ⟨rfl, rfl⟩ := Prod.mk.inj (hmade.symm.trans hstart)
      refine .inl ⟨w, c, hidle, ?_, h⟩
      have hmake : y.Works none v := works_attemptContext hv
      exact (launches_of_startTask hstart).of_rests ⟨hkeeps, hmake.contexts⟩ hclock

/-- What a move of a start call comes to: it begins a run, pauses after a failed one or ends. -/
inductive Attempts (y : System) (x : Executor) (task : Task) (context : ContextId) :
    CallPoint → System × CallStatus → Prop
  | enters {u : System} {attempt halt : Nat} {c : ContextId}
      (hstart : x.mayStart task y.now = .ok ()) (hlive : y.contexts.isDone context = false)
      (hidle : task.state.isPending = false) (h : y.Launches x.task u) :
      Attempts y x task context .entered (u, .at (.running attempt halt c))
  | retries {u : System} {attempt halt attempt' halt' : Nat} {wake : Instant} {last : Error}
      {c : ContextId} (hwake : wake ≤ y.now) (hidle : task.state.isPending = false)
      (h : y.Launches x.task u) :
      Attempts y x task context (.pausing attempt halt wake last)
        (u, .at (.running attempt' halt' c))
  | pauses {u : System} {attempt halt : Nat} {wake : Instant} {c : ContextId} {err : Error}
      {retry : RetryPolicy} (hpending : task.pending = false) (herr : task.error = some err)
      (hretry : x.options.effectiveRetry = some retry)
      (hgoes : (y.cancelContext c).endsCycle x context retry attempt halt err = false)
      (h : y.KeepsRuns u) :
      Attempts y x task context (.running attempt halt c)
        (u, .at (.pausing (attempt + 1) halt wake err))
  | ends {u : System} {point : CallPoint} {result : CallEnd}
      (hpending : ∀ attempt halt c, point = .running attempt halt c → task.pending = false)
      (hok : result = .returned (.ok ()) →
        (∃ attempt halt c, point = .running attempt halt c) ∧ task.error = none)
      (h : y.KeepsRuns u) : Attempts y x task context point (u, .ended result)

/-- What follows an attempt, where `z` is the system before its context was cancelled. -/
theorem attempts_afterAttempt {runContext : ContextId} {outcome : Outcome}
    (hk : z.KeepsRuns y) (hcontexts : y.contexts = (z.cancelContext runContext).contexts)
    (hpending : task.pending = false)
    (houtcome : outcome = match task.error with
      | none => .ok ()
      | some err => .error err) :
    z.Attempts x task context (.running attempt halt runContext)
      (y.afterAttempt e x context attempt halt outcome) := by
  have hkeeps := hk.trans (keepsRuns_afterAttempt y e x context attempt halt outcome)
  have hok (hresult : CallEnd.returned outcome = .returned (.ok ())) :
      (∃ attempt' halt' c, CallPoint.running attempt halt runContext = .running attempt' halt' c) ∧
        task.error = none := by
    refine ⟨⟨_, _, _, rfl⟩, ?_⟩
    cases herror : task.error with
    | none => rfl
    | some err =>
        rw [houtcome, herror] at hresult
        cases hresult
  revert hkeeps
  obtain ⟨-, h⟩ | ⟨retry, hretry, ⟨-, h⟩ | ⟨err, rfl, hgoes, h⟩⟩ :=
    afterAttempt_eq y e x context attempt halt outcome
  · rw [h]
    exact .ends (fun _ _ _ _ => hpending) hok
  · rw [h]
    exact .ends (fun _ _ _ _ => hpending) hok
  · have herr : task.error = some err := by
      cases herror : task.error with
      | none =>
          rw [herror] at houtcome
          cases houtcome
      | some err' =>
          rw [herror] at houtcome
          cases houtcome
          rfl
    rw [h]
    refine .pauses hpending herr hretry ?_
    have hstate (t : TaskId) : y.state t = (z.cancelContext runContext).state t := by
      rw [state, hk.tasks]
      rfl
    simpa only [endsCycle, ← hcontexts, ← hstate] using hgoes

theorem attempts_endAttempt {runContext : ContextId} (hpending : task.pending = false) :
    y.Attempts x task context (.running attempt halt runContext)
      (y.endAttempt e x task context attempt halt runContext) := by
  have hcancel : y.KeepsRuns (y.cancelContext runContext) := ⟨rfl, rfl, rfl⟩
  obtain h | ⟨u, outcome, hu, houtcome, h⟩ :=
    endAttempt_eq y e x task context attempt halt runContext
  · rw [h]
    exact .ends (fun _ _ _ _ => hpending) nofun hcancel
  · rw [h]
    obtain rfl | ⟨instant, rfl⟩ := hu
    · exact attempts_afterAttempt hcancel rfl hpending houtcome
    · exact attempts_afterAttempt (hcancel.trans ⟨rfl, rfl, rfl⟩) rfl hpending houtcome

theorem attempts_enter (htask : y.tasks[x.task]? = some task) :
    y.Attempts x task context .entered (y.enter e x task context) := by
  obtain ⟨_, h⟩ | ⟨hstart, hnone, h⟩ := enter_eq y e x task context
  · rw [h]
    exact .ends nofun nofun (.refl y)
  · have hlive : y.contexts.isDone context = false := by
      rw [← ContextTree.isSome_error?, hnone]
      rfl
    have hrenew : y.Rests (y.modifyExecutor e Executor.renewHalt) := ⟨⟨rfl, rfl, rfl⟩, .refl _⟩
    have hlook : (y.modifyExecutor e Executor.renewHalt).tasks[x.renewHalt.task]? = some task :=
      htask
    rw [h]
    obtain ⟨u, c, hidle, hu, hmade⟩ | ⟨u, result, hu, hresult, hmade⟩ :=
      beginAttempt_launches e context 0 x.renewHalt.currentHalt hlook
    · rw [hmade]
      exact .enters hstart hlive hidle (hu.of_rests hrenew rfl)
    · rw [hmade]
      exact .ends nofun (fun hok => absurd hok hresult) (hrenew.toKeepsRuns.trans hu)

/-- Every move of a start call comes to one of these. -/
theorem attempts_of_mem {made : System × CallStatus}
    (h : made ∈ y.executionMoves e context point) :
    ∃ (x : Executor) (task : Task), y.executors[e]? = some x ∧ y.tasks[x.task]? = some task ∧
      y.Attempts x task context point made := by
  obtain ⟨x, task, hx, htask, hmove⟩ := executionMove_of_mem h
  refine ⟨x, task, hx, htask, ?_⟩
  cases hmove with
  | enter => exact attempts_enter htask
  | endAttempt hpending => exact attempts_endAttempt hpending
  | giveUp => exact .ends nofun nofun (.refl y)
  | retry hwake =>
      obtain ⟨u, c, hidle, hu, hmade⟩ | ⟨u, result, hu, hresult, hmade⟩ :=
        beginAttempt_launches e context _ _ htask
      · rw [hmade]
        exact .retries hwake hidle hu
      · rw [hmade]
        exact .ends nofun (fun hok => absurd hok hresult) hu

end StartCall

/-! ## Runs -/

section Runs

variable {r : RunId} {run : Run}

theorem reaches_of_left {point : RunPoint} {rest : List Action} (h : point.left? = some rest)
    (hleft : run.point.left? = some rest ∨
      ∃ action, run.point = .acting (action :: rest) ∧ action.ends = false) :
    y.Reaches run point where
  completes outcome heq := by
    rw [heq] at h
    cases h
  left rest' h' := by
    obtain rfl := Option.some.inj (h.symm.trans h')
    exact hleft

/-- A run goes to another point, and reports nothing. -/
theorem deed_of_runAt {point : RunPoint} (hrun : y.runs.get? r = some run)
    (hpoint : run.point ≠ .launched) (hopen : ∀ outcome, run.point ≠ .ended outcome)
    (hpoint' : point ≠ .launched) (hreaches : y.Reaches run point) (hk : y.KeepsRuns u) :
    y.Deed a (u.runAt r point) := by
  refine .acts hrun hpoint hpoint' ⟨id, fun task => ⟨task.progress, task.result, rfl⟩, ?_⟩ ?_
    hk.nextRun hopen hreaches
  · refine Array.ext_getElem? fun t => ?_
    rw [Array.getElem?_modify, Option.map_id, id, ite_self]
    exact congrArg (·[t]?) hk.tasks
  · exact congrArg (·.modify r fun run => { run with point := point }) hk.runs

theorem deed_endBody {run' : Run} {completion : Completion} {outcome : Outcome}
    (hrun : y.runs.get? r = some run) (hpoint : run.point ≠ .launched)
    (hopen : ∀ outcome, run.point ≠ .ended outcome) (h : y.Completes run completion)
    (houtcome : completion.outcome = outcome) : y.Deed a (y.endBody r run' outcome) := by
  refine deed_of_runAt hrun hpoint hopen nofun ⟨fun outcome' heq => ?_, nofun⟩ ⟨rfl, rfl, rfl⟩
  cases heq
  exact ⟨completion, h, houtcome⟩

theorem deed_endSleep {strict : Bool} {rest : List Action} {outcome : Outcome}
    (hrun : y.runs.get? r = some run) (hpoint : run.point ≠ .launched)
    (hopen : ∀ outcome, run.point ≠ .ended outcome) (hleft : run.point.left? = some rest)
    (h : ∀ e, strict = true → outcome = .error e → y.Completes run (.returned (.error e))) :
    y.Deed a (y.endSleep r run strict rest outcome) := by
  unfold endSleep
  split
  · split
    · exact deed_of_runAt hrun hpoint hopen nofun (reaches_of_left rfl (.inl hleft)) (.refl y)
    · exact deed_endBody hrun hpoint hopen (h _ ‹_› rfl) rfl
  · exact deed_of_runAt hrun hpoint hopen nofun (reaches_of_left rfl (.inl hleft)) ⟨rfl, rfl, rfl⟩

theorem deed_act {action : Action} {rest : List Action} (hrun : y.runs.get? r = some run)
    (h : run.point = .acting (action :: rest)) : y.Deed a (y.act r run action rest) := by
  have hpoint : run.point ≠ .launched := by simp [h]
  have hopen : ∀ outcome, run.point ≠ .ended outcome := by simp [h]
  have hpoint' : RunPoint.acting rest ≠ .launched := nofun
  have hon (hends : action.ends = false) {point : RunPoint} (hleft : point.left? = some rest) :
      y.Reaches run point := reaches_of_left hleft (.inr ⟨action, h, hends⟩)
  cases action with
  | sleep | trySleep | rawSleep | awaitDone =>
      exact deed_of_runAt hrun hpoint hopen nofun (hon rfl rfl) (.refl y)
  | look | say | cancelContext =>
      exact deed_of_runAt hrun hpoint hopen nofun (hon rfl rfl) ⟨rfl, rfl, rfl⟩
  | unkeyedResult => exact deed_endBody hrun hpoint hopen (.reportsUnkeyed h) rfl
  | succeed => exact deed_endBody hrun hpoint hopen (.succeeds h) rfl
  | fail => exact deed_endBody hrun hpoint hopen (.fails h) rfl
  | failWithContext => exact deed_endBody hrun hpoint hopen (.failsWithContext h) rfl
  | progress bits =>
      exact .acts hrun hpoint hpoint' ⟨_, fun task => ⟨bits, task.result, rfl⟩, rfl⟩ rfl rfl hopen
        (hon rfl rfl)
  | result value =>
      exact .acts hrun hpoint hpoint' ⟨_, fun task => ⟨task.progress, some value, rfl⟩, rfl⟩ rfl rfl
        hopen (hon rfl rfl)
  | panic payload =>
      refine deed_of_runAt hrun hpoint hopen nofun ⟨fun outcome heq => ?_, nofun⟩ (.refl y)
      cases heq
      exact ⟨_, .panics h, rfl⟩
  | childSleep timeout d =>
      dsimp only [act]
      split
      · refine deed_of_runAt hrun hpoint hopen nofun ⟨fun outcome heq => ?_, nofun⟩ (.refl y)
        cases heq
        exact ⟨_, .overflows h ‹_›, rfl⟩
      · rename_i c v hv
        obtain ⟨expiry, -, hmade⟩ := Option.map_eq_some_iff.1 hv
        cases hmade
        exact deed_of_runAt hrun hpoint hopen nofun (hon rfl rfl) ⟨rfl, rfl, rfl⟩

theorem deed_of_mem_runMoves (h : z ∈ y.runMoves r) : y.Deed a z := by
  unfold runMoves at h
  split at h
  · simp at h
  · rename_i run hrun
    split at h
    · rename_i hpoint
      split at h
      · simp at h
      · rename_i task htask
        obtain rfl := List.mem_singleton.1 h
        refine .launches hrun hpoint ?_ ?_ rfl rfl rfl ?_ ⟨task, htask, ?_⟩
        · rfl
        · exact nofun
        · rfl
        · rfl
    · rename_i hpoint
      obtain rfl := List.mem_singleton.1 h
      exact deed_endBody hrun (by simp [hpoint]) (by simp [hpoint]) (.finishes hpoint) rfl
    · rename_i hpoint
      obtain rfl := List.mem_singleton.1 h
      exact deed_act hrun hpoint
    · rename_i hpoint
      rcases List.mem_append.1 h with h | h
      · split at h
        · obtain ⟨hdone, rfl⟩ := of_mem_guarded h
          refine deed_endSleep hrun (by simp [hpoint]) (by simp [hpoint]) (by rw [hpoint]; rfl)
            fun e hstrict heq => ?_
          cases heq
          subst hstrict
          exact .wakes hpoint hdone
        · simp at h
      · obtain ⟨-, rfl⟩ := of_mem_guarded h
        exact deed_endSleep hrun (by simp [hpoint]) (by simp [hpoint]) (by rw [hpoint]; rfl) nofun
    · rename_i hpoint
      obtain ⟨-, rfl⟩ := of_mem_guarded h
      exact deed_of_runAt hrun (by simp [hpoint]) (by simp [hpoint]) nofun
        (reaches_of_left rfl (.inl (by rw [hpoint]; rfl))) (.refl y)
    · rename_i outcome hpoint
      obtain rfl := List.mem_singleton.1 h
      exact .finishes hrun hpoint rfl rfl rfl

end Runs

/-! ## Steps -/

theorem deed_of_mem_executionMoves {actor : Actor} {choice : Nat} {context : ContextId}
    {point : CallPoint} {made : System × CallStatus}
    (hworking : y.working (.move actor choice) = some e)
    (h : made ∈ y.executionMoves e context point) : y.Deed (.move actor choice) made.1 := by
  have hwork := works_of_mem_executionMoves h
  obtain ⟨x, task, hx, htask, hmove⟩ := attempts_of_mem h
  have hcause : y.Causes (.move actor choice) x.task :=
    .inr ⟨actor, choice, e, x, rfl, hworking, hx, rfl⟩
  cases hmove with
  | enters _ _ hidle hu | retries _ hidle hu => exact .begins hcause htask hidle hu
  | pauses _ _ _ _ hk | ends _ _ hk => exact (Rests.mk hk hwork.contexts).deed

theorem deed_carryOut {r : Request} (hc : y.contexts.Grows (y.carryOut r).contexts) :
    y.Deed (.request r) (y.carryOut r) := by
  cases r with
  | newTask id labels body => exact .adds rfl rfl rfl
  | startTask t c =>
      cases htask : y.tasks[t]? with
      | none =>
          simp only [carryOut, startTask, htask]
          exact (Rests.refl y).deed
      | some task =>
          obtain ⟨-, hstart⟩ | ⟨hidle, z, hstart⟩ := startTask_cases c htask
          · simp only [carryOut, hstart]
            exact (Rests.refl y).deed
          · simp only [carryOut, hstart]
            exact .begins (.inl ⟨c, rfl⟩) htask hidle (launches_of_startTask hstart)
  | cancelTask t => exact .stops (stops_cancelTask y t)
  | cancelExecutor e => exact .stops (stops_cancelExecutor y e)
  | cancelPlan i key => exact .stops (stops_cancelPlan y i key)
  | removePlan i p => exact .stops (stops_removePlan y i p)
  | newChildFor parent timeout =>
      refine deed_of_eq ?_ ?_ ?_ hc <;>
        cases hmade : y.newChildFor parent timeout with
        | none => simp only [carryOut, hmade, Option.map_none, Option.getD_none]
        | some made =>
            obtain ⟨expiry, -, rfl⟩ := Option.map_eq_some_iff.1 hmade
            simp only [carryOut, hmade, Option.map_some, Option.getD_some]
  | addPlans i plans =>
      simp only [carryOut] at hc ⊢
      obtain hsame | ⟨_, _, -, -, hset⟩ := addPlans_cases y i plans
      · rw [hsame]
        exact (Rests.refl y).deed
      · rw [hset]
        exact (rests_setScheduler y i _).deed
  | startScheduler i c =>
      simp only [carryOut] at hc ⊢
      obtain hsame | ⟨_, -, -, hstart⟩ := startScheduler_cases y i c
      · rw [hsame]
        exact (Rests.refl y).deed
      · rw [hstart] at hc ⊢
        exact deed_of_eq rfl rfl rfl hc
  | addEntry i name expression =>
      unfold carryOut at hc ⊢
      dsimp only at hc ⊢
      split at hc <;> exact deed_of_eq rfl rfl rfl hc
  | newScheduler b =>
      unfold carryOut at hc ⊢
      dsimp only at hc ⊢
      split at hc <;> exact deed_of_eq rfl rfl rfl hc
  | _ => exact deed_of_eq rfl rfl rfl hc

theorem keepsRuns_requestStop (y : System) (i : SchedulerId) (wait : Bool) :
    y.KeepsRuns (y.requestStop i wait).2 := by
  obtain ⟨u, rfl | ⟨_, _, -, -, rfl⟩, hstop | ⟨_, hstop⟩⟩ := requestStop_cases y i wait <;>
    rw [hstop] <;> exact ⟨rfl, rfl, rfl⟩

theorem deed_of_mem_callMoves {k : CallId} {choice : Nat} (h : z ∈ y.callMoves k)
    (hc : y.contexts.Grows z.contexts) : y.Deed (.move (.call k) choice) z := by
  obtain ⟨call, u, call', hcall, hmove, rfl⟩ := callMove_of_mem h
  refine Deed.of_rests (z := u) ?_ ⟨⟨rfl, rfl, rfl⟩, .refl _⟩
  cases hmove with
  | goOn hmade | returns hmade | panics hmade =>
      exact deed_of_mem_executionMoves (by simp [working, hcall]) hmade
  | stopAndWait | stop => exact .stops (stops_cancelExecutor y _)
  | @awaitEnd i _ wait _ hstop | @stopScheduler i wait _ hstop =>
      have hkeeps := keepsRuns_requestStop y i wait
      rw [hstop] at hkeeps
      exact (Rests.mk hkeeps hc).deed
  | _ => exact deed_of_eq rfl rfl rfl hc

theorem deed_of_mem_dispatchMoves {i : SchedulerId} {j : SessionId} (h : z ∈ y.dispatchMoves i j)
    (hc : y.contexts.Grows z.contexts) : y.Deed a z := by
  obtain ⟨s, -, hmove⟩ := of_mem_dispatchMoves h
  cases hmove with
  | move _ hz | skip _ _ hz | enter _ _ hz =>
      subst hz
      exact deed_of_eq rfl rfl rfl hc
  | @cancelAll s' _ hz =>
      subst hz
      exact .stops ((rests_setScheduler y i s').stops.trans (stops_foldl_cancelExecution _ _))

theorem deed_of_workerMoves {i : SchedulerId} {j : SessionId} {choice : Nat}
    (h : (y.workerMoves i j e)[choice]? = some z) : y.Deed (.move (.worker i j e) choice) z := by
  obtain ⟨s, w, u, status, -, hworker, hmade, hmove⟩ := workerMove_of_getElem? h
  obtain rfl := Scheduler.executor_of_worker? hworker
  have hdeed : y.Deed (.move (.worker i j w.executor) choice) u :=
    deed_of_mem_executionMoves rfl (List.mem_of_getElem? hmade)
  cases hmove with
  | goOn | panics => exact hdeed.of_rests (rests_setScheduler u i _)
  | returns => exact hdeed.of_rests ⟨⟨rfl, rfl, rfl⟩, ContextTree.grows_cancel _ _⟩

/-- What every step does to tasks and runs. -/
theorem deed_of_step (h : y.step? a = some z) : y.Deed a z := by
  have hc : y.contexts.Grows z.contexts := (proceeds_of_step h).contexts
  cases a with
  | request r =>
      obtain ⟨-, rfl⟩ := step_request_iff.1 h
      exact deed_carryOut hc
  | pass millis =>
      obtain ⟨-, rfl⟩ := step_pass_iff.1 h
      exact deed_of_eq rfl rfl rfl hc
  | move actor choice =>
      have hmem : z ∈ y.moves actor := List.mem_of_getElem? h
      cases actor with
      | deadline c =>
          obtain ⟨-, rfl⟩ := of_mem_guarded hmem
          exact deed_of_eq rfl rfl rfl hc
      | run r => exact deed_of_mem_runMoves hmem
      | call k => exact deed_of_mem_callMoves hmem hc
      | dispatch i j => exact deed_of_mem_dispatchMoves hmem hc
      | worker i j e => exact deed_of_workerMoves h
      | tableTimer =>
          obtain ⟨_, _, _, -, -, rfl⟩ := of_mem_tableTimerMoves hmem
          exact deed_of_eq rfl rfl rfl hc
      | planTimer =>
          obtain ⟨_, _, -, -, rfl⟩ := of_mem_planTimerMoves hmem
          exact deed_of_eq rfl rfl rfl hc
      | fetch =>
          obtain ⟨_, _, -, -, rfl⟩ := of_mem_fetchMoves hmem
          exact deed_of_eq rfl rfl rfl hc
      | supervisor =>
          obtain ⟨_, _, -, -, rfl⟩ := of_mem_closeMoves hmem
          exact deed_of_eq rfl rfl rfl hc

end System

end Scheduling
