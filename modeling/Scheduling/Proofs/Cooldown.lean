import Scheduling.Proofs.Executors
import Scheduling.Proofs.Tasks
/-!
# Admissions and the rest after a run

The rest after a run is kept by the executor that made it, and each admission gets a new executor.
So whether an admitted plan runs does not depend on how long ago its task ran last: its first move
is refused for a task that may not run again or has a run in progress, and for no other reason.
-/

namespace Scheduling

theorem Error.isConflict_of_isContextError {err : Error} (h : err.isContextError = true) :
    err.isConflict = false := by
  cases err with
  | conflict => cases h
  | _ => rfl

namespace System

variable {y : System} {e : ExecutorId} {x : Executor} {task : Task}

/-- A start call has ended in a conflict and left all tasks and runs as they were. -/
def Refuses (y : System) (made : System × CallStatus) : Prop :=
  (∃ err, made.2 = .ended (.returned (.error err)) ∧ err.isConflict = true) ∧
    made.1.tasks = y.tasks ∧ made.1.runs = y.runs

/-- A start call has begun a run of a task, at the present time. -/
def Begins (y : System) (t : TaskId) (made : System × CallStatus) : Prop :=
  ∃ (attempt halt : Nat) (runContext c : ContextId),
    made.2 = .at (.running attempt halt runContext) ∧
      made.1.tasks = y.tasks.modify t (·.begin c y.clock.wall)

/-- Whether the clock can count to the end of a run that begins now. -/
def fits (y : System) (o : ExecutorOptions) : Bool :=
  o.timeout.all fun timeout => (Instant.add? y.now timeout).isSome

theorem attemptContext_eq_none_iff {context : ContextId} :
    y.attemptContext x context = none ↔ y.fits x.options = false := by
  unfold attemptContext fits
  cases x.options.timeout with
  | none => simp
  | some timeout => simp [newChildFor]

/-- An attempt is refused for a task with a run in progress, and begins a run of any other. -/
theorem beginAttempt_cases {context : ContextId} {attempt halt : Nat}
    (htask : y.tasks[x.task]? = some task) :
    (y.fits x.options = false ∧
        y.beginAttempt e x context attempt halt = (y, .ended (.panicked Instant.overflowText))) ∨
      (y.fits x.options = true ∧ task.state.isPending = true ∧
        y.Refuses (y.beginAttempt e x context attempt halt)) ∨
      (y.fits x.options = true ∧ task.state.isPending = false ∧
        y.Begins x.task (y.beginAttempt e x context attempt halt)) := by
  cases hmade : y.attemptContext x context with
  | none =>
      refine .inl ⟨attemptContext_eq_none_iff.1 hmade, ?_⟩
      simp [beginAttempt, hmade]
  | some made =>
      obtain ⟨c, u⟩ := made
      obtain ⟨⟨htasks, hruns, -⟩, hclock⟩ := keepsRuns_attemptContext hmade
      dsimp only at htasks hruns hclock
      have hfits : y.fits x.options = true := by
        cases hfits : y.fits x.options with
        | true => rfl
        | false => rw [attemptContext_eq_none_iff.2 hfits] at hmade; cases hmade
      have hlook : u.tasks[x.task]? = some task := htasks ▸ htask
      cases hpending : task.state.isPending with
      | true =>
          have hstart : u.startTask x.task c = (false, u) := by simp [startTask, hlook, hpending]
          refine .inr (.inl ⟨hfits, rfl, ?_⟩)
          simp only [beginAttempt, hmade, hstart]
          have hconflict : (Error.alreadyRunning
              ((u.tasks[x.task]?.map Task.id).getD "")).isConflict = true := rfl
          have hended :=
            afterAttempt_of_isConflict (u.cancelContext c) e x context attempt halt hconflict
          have hkeeps := keepsRuns_afterAttempt (u.cancelContext c) e x context attempt halt
            (.error (.alreadyRunning ((u.tasks[x.task]?.map Task.id).getD "")))
          exact ⟨⟨_, hended, rfl⟩, hkeeps.tasks.trans htasks, hkeeps.runs.trans hruns⟩
      | false =>
          refine .inr (.inr ⟨hfits, rfl, ?_⟩)
          have hstart : u.startTask x.task c = (true, (u.startTask x.task c).2) := by
            simp [startTask, hlook, hpending]
          have hbegun : (u.startTask x.task c).2.tasks =
              y.tasks.modify x.task (·.begin u.contexts.nodes.size y.clock.wall) := by
            simp only [startTask, hlook, hpending]
            rw [← htasks, ← hclock]
            rfl
          simp only [beginAttempt, hmade]
          rw [hstart]
          exact ⟨attempt, halt, c, _, rfl, hbegun⟩

theorem not_begins_of_ended {t : TaskId} {made : System × CallStatus} {result : CallEnd}
    (h : made.2 = .ended result) : ¬ y.Begins t made := by
  rintro ⟨_, _, _, _, hat, -⟩
  rw [h] at hat
  cases hat

theorem not_begins_of_refuses {t : TaskId} {made : System × CallStatus} (h : y.Refuses made) :
    ¬ y.Begins t made := by
  obtain ⟨⟨err, hended, -⟩, -⟩ := h
  exact not_begins_of_ended hended

theorem beginAttempt_iff {context : ContextId} {attempt halt : Nat}
    (htask : y.tasks[x.task]? = some task) :
    (y.Refuses (y.beginAttempt e x context attempt halt) ↔
        y.fits x.options = true ∧ task.state.isPending = true) ∧
      (y.Begins x.task (y.beginAttempt e x context attempt halt) ↔
        y.fits x.options = true ∧ task.state.isPending = false) := by
  obtain ⟨hfits, hmade⟩ | ⟨hfits, hpending, hmade⟩ | ⟨hfits, hpending, hmade⟩ :=
    beginAttempt_cases htask
  · have hrefuses : ¬ y.Refuses (y, .ended (.panicked Instant.overflowText)) := by
      rintro ⟨⟨err, hended, -⟩, -⟩
      cases hended
    rw [hmade]
    simp [hrefuses, hfits, not_begins_of_ended]
  · simp [hmade, hfits, hpending, not_begins_of_refuses hmade]
  · have hrefuses : ¬ y.Refuses (y.beginAttempt e x context attempt halt) := fun hrefuses =>
      not_begins_of_refuses hrefuses hmade
    simp [hmade, hfits, hpending, hrefuses]

/-- Without a rest on record only a task that may run once is refused. -/
theorem mayStart_of_rested {now : Instant} (hrest : x.cooldownUntil = none) :
    x.mayStart task now =
      if task.isDone = true ∧ x.options.once = true then .error (.onlyOnce task.id)
      else .ok () := by
  unfold Executor.mayStart Executor.cooldownRemaining
  rw [hrest]
  cases task.isDone <;> cases x.options.once <;> rfl

/-- What a start call comes to at once under an executor without a rest on record. -/
theorem enter_iff {context : ContextId} (htask : y.tasks[x.task]? = some task)
    (hrest : x.cooldownUntil = none)
    (hcontext : ∀ err, y.contexts.error? context = some err → err.isConflict = false) :
    (y.Refuses (y.enter e x task context) ↔
        (task.isDone = true ∧ x.options.once = true) ∨
          (y.contexts.isDone context = false ∧ y.fits x.options = true ∧
            task.state.isPending = true)) ∧
      (y.Begins x.task (y.enter e x task context) ↔
        ¬ (task.isDone = true ∧ x.options.once = true) ∧
          y.contexts.isDone context = false ∧ y.fits x.options = true ∧
            task.state.isPending = false) := by
  have hadmits : x.mayStart task y.now =
      if task.isDone = true ∧ x.options.once = true then .error (.onlyOnce task.id)
      else .ok () := mayStart_of_rested hrest
  by_cases honce : task.isDone = true ∧ x.options.once = true
  · have hmade : y.enter e x task context =
        (y, .ended (.returned (.error (.onlyOnce task.id)))) := by
      simp only [System.enter, hadmits, if_pos honce]
    have hrefuses : y.Refuses (y.enter e x task context) := hmade ▸ ⟨⟨_, rfl, rfl⟩, rfl, rfl⟩
    simp [hrefuses, honce, not_begins_of_refuses hrefuses]
  · cases herr : y.contexts.error? context with
    | some err =>
        have hdone : y.contexts.isDone context = true := by
          rw [← ContextTree.isSome_error?, herr]
          rfl
        have hmade : y.enter e x task context = (y, .ended (.returned (.error err))) := by
          simp only [System.enter, hadmits, if_neg honce, herr]
        have hrefuses : ¬ y.Refuses (y, .ended (.returned (.error err))) := by
          rintro ⟨⟨err', hended, hconflict⟩, -⟩
          cases hended
          rw [hcontext err herr] at hconflict
          cases hconflict
        rw [hmade]
        simp [hrefuses, not_begins_of_ended, honce, hdone]
    | none =>
        have hlive : y.contexts.isDone context = false := by
          rw [← ContextTree.isSome_error?, herr]
          rfl
        have hmade : y.enter e x task context =
            (y.modifyExecutor e Executor.renewHalt).beginAttempt e x.renewHalt context 0
              x.renewHalt.currentHalt := by
          simp only [System.enter, hadmits, if_neg honce, herr]
        have hbegin : (y.Refuses
              ((y.modifyExecutor e Executor.renewHalt).beginAttempt e x.renewHalt context 0
                x.renewHalt.currentHalt) ↔
              y.fits x.options = true ∧ task.state.isPending = true) ∧
            (y.Begins x.task
              ((y.modifyExecutor e Executor.renewHalt).beginAttempt e x.renewHalt context 0
                x.renewHalt.currentHalt) ↔
              y.fits x.options = true ∧ task.state.isPending = false) :=
          beginAttempt_iff (y := y.modifyExecutor e Executor.renewHalt) (x := x.renewHalt) htask
        rw [hmade]
        simpa [honce, hlive] using hbegin

/-- What the first move of an admitted plan comes to depends on its task, its context and its
policies for a timeout and for running once. The rest that its policies ask for has no part in it,
however little time has passed since the last run. -/
theorem admission_iff {i : SchedulerId} {j : SessionId} {s : Scheduler} {n : Session} {w : Worker}
    {made : System × CallStatus} (h : y.Reachable) (hs : y.schedulers[i]? = some s)
    (hn : s.sessions[j]? = some n) (hw : w ∈ n.workers) (hpoint : w.point = .entered)
    (hmade : made ∈ y.executionMoves w.executor w.context w.point) :
    ∃ task : Task, y.tasks[w.plan.task]? = some task ∧
      (y.Refuses made ↔
        (task.isDone = true ∧ (w.plan.options.getD s.defaults).once = true) ∨
          (y.contexts.isDone w.context = false ∧
            y.fits (w.plan.options.getD s.defaults) = true ∧ task.state.isPending = true)) ∧
      (y.Begins w.plan.task made ↔
        ¬ (task.isDone = true ∧ (w.plan.options.getD s.defaults).once = true) ∧
          y.contexts.isDone w.context = false ∧
            y.fits (w.plan.options.getD s.defaults) = true ∧ task.state.isPending = false) := by
  obtain ⟨x, hx, hfollows⟩ := h.executor hs hn hw
  obtain ⟨x', task, hx', htask, hmove⟩ := executionMove_of_mem hmade
  obtain rfl : x' = x := Option.some.inj (hx'.symm.trans hx)
  have hrest : x'.cooldownUntil = none := by
    rw [hfollows.idle fun hne => hne hpoint]
    rfl
  have htask' : x'.task = w.plan.task := hfollows.task
  have hoptions : x'.options = w.plan.options.getD s.defaults := hfollows.options
  have hmade' : made = y.enter w.executor x' task w.context := by
    rw [hpoint] at hmove
    cases hmove
    rfl
  refine ⟨task, htask' ▸ htask, ?_⟩
  rw [hmade', ← hoptions, ← htask']
  exact enter_iff htask hrest fun err herr =>
    Error.isConflict_of_isContextError (h.isContextError herr)

/-- A plan whose task has just run is admitted again a second later. -/
def restlessRun (o : ExecutorOptions) : System :=
  after
    [.request .newContext, .request (.newTask "a" [] fun _ => []),
      .request (.newScheduler ⟨1, .localTime, {}⟩), .request (.startScheduler 0 0),
      .request (.addPlans 0 [⟨0, "a", ⟨0⟩, 0, none, 0, false, some o⟩]),
      .move (.fetch 0 0) 0, .move (.fetch 0 0) 0, .move (.dispatch 0 0) 0,
      .move (.dispatch 0 0) 0, .move (.dispatch 0 0) 0, .move (.worker 0 0 0) 0,
      .move (.run 0) 0, .move (.run 0) 0, .move (.run 0) 0, .move (.worker 0 0 0) 0, .pass 1000,
      .request (.addPlans 0 [⟨0, "a", ⟨0⟩, 0, none, 0, false, some o⟩]),
      .move (.fetch 0 0) 0, .move (.fetch 0 0) 0, .move (.dispatch 0 0) 0,
      .move (.dispatch 0 0) 0]

/-- A rest of ten seconds. -/
def restTen (once : Bool) : ExecutorOptions :=
  { cooldown := some (Duration.ofSeconds 10), once := once }

/-- Of a plan that may run only once the second admission is refused. -/
theorem admission_refused_restlessRun :
    ∃ (s : Scheduler) (n : Session) (w : Worker) (made : System × CallStatus),
      (restlessRun (restTen true)).schedulers[0]? = some s ∧ s.sessions[0]? = some n ∧
        w ∈ n.workers ∧
        made ∈ (restlessRun (restTen true)).executionMoves w.executor w.context w.point ∧
        (restlessRun (restTen true)).Refuses made := by
  have hrun : (restlessRun (restTen true)).anyWorker 0 0 (fun s w =>
      decide (w.point = .entered) && w.plan.task == 0 &&
        (w.plan.options.getD s.defaults).once &&
        (restlessRun (restTen true)).tasks[0]?.any Task.isDone &&
        !((restlessRun (restTen true)).executionMoves w.executor w.context w.point).isEmpty) =
      true := by decide +kernel
  have hreach : (restlessRun (restTen true)).Reachable := reachable_after _
  -- From here on the run itself does not matter any more, and must not be computed again.
  generalize restlessRun (restTen true) = y at hrun hreach ⊢
  obtain ⟨s, n, w, hs, hn, hw, hrun⟩ := of_anyWorker hrun
  simp only [Bool.and_eq_true, decide_eq_true_eq, beq_iff_eq, Bool.not_eq_true',
    List.isEmpty_eq_false_iff] at hrun
  obtain ⟨⟨⟨⟨hpoint, htask⟩, honce⟩, hdone⟩, hmoves⟩ := hrun
  obtain ⟨made, hmade⟩ := List.exists_mem_of_ne_nil _ hmoves
  obtain ⟨task, hlook, hiff, -⟩ := admission_iff hreach hs hn hw hpoint hmade
  have htask' : task.isDone = true := by
    rw [htask] at hlook
    rw [hlook] at hdone
    exact hdone
  exact ⟨s, n, w, made, hs, hn, hw, hmade, hiff.2 (.inl ⟨htask', honce⟩)⟩

/-- The task ended at the wall time 0 and was to rest for ten seconds, as the executor of the first
admission has on record; the first move of the second one starts it after one. -/
theorem cooldown_ignored_restlessRun :
    (restlessRun (restTen false)).Reachable ∧
      ∃ (s : Scheduler) (n : Session) (w : Worker) (x : Executor) (task : Task) (z : System),
        (restlessRun (restTen false)).schedulers[0]? = some s ∧ s.sessions[0]? = some n ∧
        w ∈ n.workers ∧ w.plan.options = some (restTen false) ∧
        (restlessRun (restTen false)).executors[0]? = some x ∧
        x.cooldownUntil = some 10000000000 ∧ (restlessRun (restTen false)).now = 1000000000 ∧
        (restlessRun (restTen false)).tasks[w.plan.task]? = some task ∧
        task.state = .succeeded ∧ task.endedAt = some ⟨0⟩ ∧
        z ∈ (restlessRun (restTen false)).workerMoves 0 0 w.executor ∧
        z.state w.plan.task = .running ∧
        (z.tasks[w.plan.task]?.bind Task.startedAt) = some ⟨1000000000⟩ := by
  have hrun : (restlessRun (restTen false)).anyWorker 0 0 (fun _ w =>
      decide (w.plan.options = some (restTen false)) &&
        ((restlessRun (restTen false)).executors[0]?.any fun x =>
          x.cooldownUntil == some 10000000000) &&
        ((restlessRun (restTen false)).tasks[w.plan.task]?.any fun task =>
          decide (task.state = .succeeded) && decide (task.endedAt = some ⟨0⟩)) &&
        ((restlessRun (restTen false)).workerMoves 0 0 w.executor).any fun z =>
          decide (z.state w.plan.task = .running) &&
            decide ((z.tasks[w.plan.task]?.bind Task.startedAt) = some ⟨1000000000⟩)) =
      true := by decide +kernel
  have hnow : (restlessRun (restTen false)).now = 1000000000 := by decide +kernel
  obtain ⟨s, n, w, hs, hn, hw, hrun⟩ := of_anyWorker hrun
  simp only [Bool.and_eq_true, decide_eq_true_eq] at hrun
  obtain ⟨⟨⟨hoptions, hexecutors⟩, htasks⟩, hmoves⟩ := hrun
  obtain ⟨x, hx, hrest⟩ := (Option.any_eq_true _ _).1 hexecutors
  obtain ⟨task, htask, hended⟩ := (Option.any_eq_true _ _).1 htasks
  obtain ⟨z, hz, hbegun⟩ := List.any_eq_true.1 hmoves
  simp only [Bool.and_eq_true, decide_eq_true_eq] at hended hbegun
  exact ⟨reachable_after _, s, n, w, x, task, z, hs, hn, hw, hoptions, hx, by simpa using hrest,
    hnow, htask, hended.1, hended.2, hz, hbegun.1, hbegun.2⟩

end System

end Scheduling
