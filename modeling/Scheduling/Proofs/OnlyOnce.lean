import Scheduling.Proofs.Cooldown
import Scheduling.Proofs.Provenance
import Scheduling.Proofs.Turns
/-!
# Tasks that run once

The policy to run a task once is kept by the executor of an admission, which does not see any other
admission. That the body of such a task is begun at most once follows from the state of the task,
which all admissions share: an admission is refused when the task is done, none comes while it is
pending, since its key is executing until then, and there are no retries beside this policy.
-/

namespace Scheduling

namespace System

variable {y z : System} {a : Step} {t : TaskId} {k i : SchedulerId} {j : SessionId}
  {s : Scheduler} {n : Session} {w : Worker} {task : Task}

/-- Whether a plan, as one of the scheduler `i`, is of another task than `t`, or it is a plan of the
scheduler `k` under policies that let a task run once. -/
def admitsOnce (t : TaskId) (k : SchedulerId) (y : System) (i : SchedulerId) (p : Plan) : Bool :=
  p.task != t || i == k && y.schedulers[i]?.any fun s => (p.options.getD s.defaults).once

/-- Whether a step leaves a task to one scheduler: nobody else starts the task, and the plans of the
task that the scheduler is given let it run once. -/
def entrusts (t : TaskId) (k : SchedulerId) (y : System) : Step → Bool
  | .request (.startTask t' _) => t' != t
  | .request (.call (.start e _ _)) => !y.executors[e]?.any fun x => x.task == t
  | .request (.addPlans i plans) => plans.all (admitsOnce t k y i)
  | _ => true

theorem admitsOnce_of_step {p : Plan} (hz : y.step? a = some z)
    (h : admitsOnce t k y i p = true) : admitsOnce t k z i p = true := by
  simp only [admitsOnce, Bool.or_eq_true, bne_iff_ne, Bool.and_eq_true, beq_iff_eq,
    Option.any_eq_true] at h ⊢
  refine h.imp_right fun ⟨hi, s, hs, honce⟩ => ⟨hi, ?_⟩
  obtain ⟨s', hs', hchange⟩ := exists_change_of_step hz hs
  exact ⟨s', hs', by rwa [hchange.sameSettings.defaults]⟩

/-- A worker that has the task is one of the scheduler, and runs the task once. -/
theorem ReachableBy.once_of_worker (h : y.ReachableBy (entrusts t k))
    (hs : y.schedulers[i]? = some s) (hn : s.sessions[j]? = some n) (hw : w ∈ n.workers)
    (ht : w.plan.task = t) : i = k ∧ (w.plan.options.getD s.defaults).once = true := by
  have hholds : s.Holds fun p => admitsOnce t k y i p = true := by
    refine h.holds (fun y i p => admitsOnce t k y i p = true) admitsOnce_of_step
      (fun ha _ hp => ?_) hs
    obtain ⟨plans, rfl, hp⟩ := hp
    exact List.all_eq_true.1 ha _ hp
  have honce := hholds.sessions j n hn w.plan (Session.mem_plans.2 (.inr (.inr ⟨w, hw, rfl⟩)))
  simpa [admitsOnce, ht, hs] using honce

/-! ## Who starts the task -/

/-- A call from outside that runs under an executor was made before, or is made in the step. -/
theorem starts_of_step_call {e : ExecutorId} (hz : y.step? a = some z) (he : z.Starts e) :
    y.Starts e ∨ ∃ c point, a = .request (.call (.start e c point)) := by
  obtain hstarts | ⟨hborrows, -⟩ := starts_of_step hz he
  · exact .inl hstarts
  · cases a with
    | request r =>
        obtain ⟨-, rfl⟩ := step_request_iff.1 hz
        cases r with
        | cancelExecutor e' =>
            have hcalls : (y.cancelExecutor e').2.calls = y.calls :=
              (show y.Works none _ from works_cancelExecutor y e').calls
            exact .inl (starts_of_calls_eq hcalls he)
        | resetExecutor e' => exact .inl (starts_of_calls_eq rfl he)
        | call call =>
            obtain ⟨m, c, point, hm⟩ := he
            replace hm : (y.calls.push call)[m]? = some (.start e c point) := hm
            rw [Array.getElem?_push] at hm
            split at hm
            · cases hm
              exact .inr ⟨c, point, rfl⟩
            · exact .inl ⟨m, c, point, hm⟩
        | _ => cases hborrows
    | _ => cases hborrows

theorem ReachableBy.task_ne_of_starts {e : ExecutorId} {x : Executor}
    (h : y.ReachableBy (entrusts t k)) (he : y.Starts e) (hx : y.executors[e]? = some x) :
    x.task ≠ t := by
  induction h generalizing e x with
  | create origin =>
      obtain ⟨_, _, _, hk⟩ := he
      simp [System.create] at hk
  | @step u _ _ h ha hz ih =>
      -- The executor of a call that is made in the step was there before as well.
      have hbefore (hlt : e < u.executors.size) (ht : ∀ x, u.executors[e]? = some x → x.task ≠ t) :
          x.task ≠ t := by
        obtain ⟨x', hx', hfollows⟩ :=
          (proceeds_of_step hz).executors e _ (Array.getElem?_eq_getElem hlt)
        obtain rfl := Option.some.inj (hx.symm.trans hx')
        rw [hfollows.task]
        exact ht _ (Array.getElem?_eq_getElem hlt)
      obtain hstarts | ⟨c, point, rfl⟩ := starts_of_step_call hz he
      · exact hbefore (h.numbered.starts_lt hstarts) fun x hx => ih hstarts hx
      · obtain ⟨hlt, -⟩ := lends_iff.1 (lends_of_accepts (step_request_iff.1 hz).1 rfl)
        refine hbefore hlt fun x hx ht => ?_
        simp [entrusts, hx, ht] at ha

/-- Only a worker of the scheduler can start the task. -/
theorem ReachableBy.worker_of_causes (h : y.ReachableBy (entrusts t k))
    (ha : entrusts t k y a = true) (hz : y.step? a = some z) (hcause : y.Causes a t) :
    ∃ (j : SessionId) (s : Scheduler) (n : Session) (w : Worker) (u : System) (status : CallStatus),
      y.schedulers[k]? = some s ∧ s.sessions[j]? = some n ∧ w ∈ n.workers ∧ w.plan.task = t ∧
        (u, status) ∈ y.executionMoves w.executor w.context w.point ∧
        WorkerMove k j s w u status z := by
  obtain ⟨c, rfl⟩ | ⟨actor, choice, e, x, rfl, hworking, hx, ht⟩ := hcause
  · simp [entrusts] at ha
  · obtain ⟨i, j, choice, hmove, -⟩ | hstarts | hborrows := working_cases hz hworking
    · cases hmove
      obtain ⟨s, w, u, status, hs, hworker, hmade, hmove⟩ := workerMove_of_getElem? hz
      obtain rfl := Scheduler.executor_of_worker? hworker
      obtain ⟨n, hn, hw⟩ := Scheduler.mem_of_worker? hworker
      obtain ⟨x', hx', hfollows⟩ := h.executor hs hn hw
      obtain rfl := Option.some.inj (hx.symm.trans hx')
      have ht' : w.plan.task = t := hfollows.task.symm.trans ht
      obtain ⟨rfl, -⟩ := h.once_of_worker hs hn hw ht'
      exact ⟨j, s, n, w, u, status, hs, hn, hw, ht', List.mem_of_getElem? hmade, hmove⟩
    · exact absurd ht (h.task_ne_of_starts hstarts hx)
    · cases hborrows

/-! ## Its first and only start -/

/-- A start call of the executor of a plan that is to run once makes no further attempt. -/
theorem ReachableBy.point_ne_pausing (h : y.ReachableBy (entrusts t k))
    (hs : y.schedulers[i]? = some s) (hn : s.sessions[j]? = some n) (hw : w ∈ n.workers)
    (ht : w.plan.task = t) {attempt halt : Nat} {wake : Instant} {last : Error} :
    w.point ≠ .pausing attempt halt wake last := by
  induction h generalizing s n w attempt halt wake last with
  | create origin => simp [System.create] at hs
  | step h _ hz ih =>
      intro hpoint
      obtain ⟨s₀, n₀, hs₀, hn₀, hw | ⟨w₀, hw₀, hadvances, hw⟩ | ⟨hentered, -⟩⟩ :=
        h.worker_cases hz hs hn hw
      · exact ih hs₀ hn₀ hw ht hpoint
      · have ht₀ : w₀.plan.task = t := by rw [← ht, hw]
        obtain ⟨x, hx, hfollows⟩ := h.executor hs₀ hn₀ hw₀
        obtain ⟨-, honce⟩ := h.once_of_worker hs₀ hn₀ hw₀ ht₀
        obtain ⟨u, hmade, -⟩ := hadvances.made
        obtain ⟨x', task, hx', -, hmove⟩ := attempts_of_mem hmade
        obtain rfl := Option.some.inj (hx'.symm.trans hx)
        rw [hpoint] at hmove
        generalize w₀.point = point at hmove
        cases hmove with
        | pauses _ _ hretry =>
            have hoptions : (w₀.plan.executor s₀.defaults).options =
                w₀.plan.options.getD s₀.defaults := rfl
            rw [ExecutorOptions.effectiveRetry, hfollows.options, hoptions, honce] at hretry
            cases hretry
      · rw [hentered] at hpoint
        cases hpoint

/-- A run of the task begins only when there was none before, and its worker waits for it. -/
theorem ReachableBy.created_of_begins (h : y.ReachableBy (entrusts t k))
    (hs : y.schedulers[i]? = some s) (hn : s.sessions[j]? = some n) (hw : w ∈ n.workers)
    (ht : w.plan.task = t) (htask : y.tasks[t]? = some task)
    (hidle : task.state.isPending = false) {u : System} {status : CallStatus}
    (hmade : (u, status) ∈ y.executionMoves w.executor w.context w.point)
    (hpending : (u.state t).isPending = true) :
    task.state = .created ∧ ∃ attempt halt c, status = .at (.running attempt halt c) := by
  obtain ⟨x, hx, hfollows⟩ := h.executor hs hn hw
  obtain ⟨-, honce⟩ := h.once_of_worker hs hn hw ht
  obtain ⟨x', task', hx', htask', hmove⟩ := attempts_of_mem hmade
  obtain rfl := Option.some.inj (hx'.symm.trans hx)
  have hsame : x'.task = t := hfollows.task.trans ht
  obtain rfl := Option.some.inj (htask'.symm.trans (hsame ▸ htask))
  have hkept (hk : y.KeepsRuns u) : False := by
    have hstate : u.state t = task'.state := by
      rw [state, hk.tasks]
      exact state_eq htask
    rw [hstate, hidle] at hpending
    cases hpending
  generalize hpoint : w.point = point at hmove
  cases hmove with
  | enters hstart =>
      refine ⟨?_, _, _, _, rfl⟩
      have honce' : x'.options.once = true := hfollows.options ▸ honce
      cases hstate : task'.state with
      | created => rfl
      | running | canceling =>
          rw [hstate] at hidle
          cases hidle
      | succeeded | failed | canceled =>
          simp [Executor.mayStart, Task.isDone, hstate, State.isTerminal, honce'] at hstart
  | retries => exact absurd hpoint (h.point_ne_pausing hs hn hw ht)
  | pauses _ _ _ _ hk | ends _ _ hk => exact (hkept hk).elim

theorem WorkerMove.tasks {u : System} {status : CallStatus} (h : WorkerMove i j s w u status z) :
    z.tasks = u.tasks := by
  cases h <;> rfl

/-- When a run of the task begins it is the first one, and the worker that begins it is found after
the step where it waits for the run. -/
theorem ReachableBy.begins_first (h : y.ReachableBy (entrusts t k))
    (ha : entrusts t k y a = true) (hz : y.step? a = some z) (hcause : y.Causes a t)
    (htask : y.tasks[t]? = some task) (hidle : task.state.isPending = false)
    (hpending : (z.state t).isPending = true) :
    task.state = .created ∧
      ∃ (j : SessionId) (s : Scheduler) (n : Session) (w : Worker),
        z.schedulers[k]? = some s ∧ s.sessions[j]? = some n ∧ w ∈ n.workers ∧ w.plan.task = t ∧
          ∃ attempt halt c, w.point = .running attempt halt c := by
  obtain ⟨j, s, n, w, u, status, hs, hn, hw, ht, hmade, hmove⟩ := h.worker_of_causes ha hz hcause
  have hpending' : (u.state t).isPending = true := by
    rwa [state, hmove.tasks] at hpending
  obtain ⟨hcreated, attempt, halt, c, rfl⟩ :=
    h.created_of_begins hs hn hw ht htask hidle hmade hpending'
  have hu : u.schedulers = y.schedulers := (works_of_mem_executionMoves hmade).schedulers
  obtain ⟨s', n', hs', hn', hw'⟩ := hmove.worker (hu ▸ hs) hn hw
  exact ⟨hcreated, j, s', n', _, hs', hn', hw', ht, attempt, halt, c, rfl⟩

/-- A worker that waits for a run of a task does not move while the task is pending. -/
theorem ReachableBy.not_advances (h : y.ReachableBy (entrusts t k))
    (hs : y.schedulers[i]? = some s) (hn : s.sessions[j]? = some n) (hw : w ∈ n.workers)
    (htask : y.tasks[w.plan.task]? = some task) (hpending : task.state.isPending = true)
    {attempt halt : Nat} {c : ContextId} (hpoint : w.point = .running attempt halt c)
    {status : CallStatus} : ¬ y.Advances a z i j w status := by
  intro hadvances
  obtain ⟨u, hmade, -⟩ := hadvances.made
  obtain ⟨x, hx, hfollows⟩ := h.executor hs hn hw
  obtain ⟨x', task', hx', htask', hmove⟩ := attempts_of_mem hmade
  obtain rfl := Option.some.inj (hx'.symm.trans hx)
  have hsame : x'.task = w.plan.task := hfollows.task
  obtain rfl := Option.some.inj (htask'.symm.trans (hsame ▸ htask))
  have hflag : task'.pending = true := (h.coherent htask).pending.trans hpending
  rw [hpoint] at hmove
  cases hmove with
  | pauses hended => exact absurd (hflag.symm.trans hended) nofun
  | ends hended => exact absurd (hflag.symm.trans (hended _ _ _ rfl)) nofun

/-- As long as the task is pending a worker of the scheduler waits for its run to end. -/
theorem ReachableBy.attended (h : y.ReachableBy (entrusts t k)) (htask : y.tasks[t]? = some task)
    (hpending : task.state.isPending = true) :
    ∃ (j : SessionId) (s : Scheduler) (n : Session) (w : Worker),
      y.schedulers[k]? = some s ∧ s.sessions[j]? = some n ∧ w ∈ n.workers ∧ w.plan.task = t ∧
        ∃ attempt halt c, w.point = .running attempt halt c := by
  induction h generalizing task with
  | create origin => simp [System.create] at htask
  | @step u z a h ha hz ih =>
      have hpending' : (z.state t).isPending = true := state_eq htask ▸ hpending
      cases hu : u.tasks[t]? with
      | none =>
          obtain ⟨_, _, _, _, rfl⟩ := (deed_of_step hz).added hu htask
          cases hpending
      | some before =>
          obtain ⟨task', htask', hturn⟩ := (deed_of_step hz).turn hu
          obtain rfl := Option.some.inj (htask.symm.trans htask')
          cases hidle : before.state.isPending with
          | true =>
              obtain ⟨j, s, n, w, hs, hn, hw, rfl, attempt, halt, c, hpoint⟩ := ih hu hidle
              obtain ⟨s', n', hs', hn', hw' | ⟨_, hadvances, -⟩ | ⟨_, hadvances⟩⟩ :=
                h.worker_kept hz hs hn hw
              · exact ⟨j, s', n', w, hs', hn', hw', rfl, attempt, halt, c, hpoint⟩
              · exact absurd hadvances (h.not_advances hs hn hw hu hidle hpoint)
              · exact absurd hadvances (h.not_advances hs hn hw hu hidle hpoint)
          | false =>
              exact (h.begins_first ha hz (hturn.causes h.tracked hu hidle hpending) hu hidle
                hpending').2

/-- The body of the task was begun at most once, and not before a run of it that is launched. -/
structure BegunOnce (y : System) (t : TaskId) (task : Task) : Prop where
  runs : task.runs ≤ 1
  created : task.state = .created → task.runs = 0
  launched : ∀ {r : RunId} {run : Run}, y.runs.get? r = some run → run.task = t →
    run.point = .launched → task.runs = 0

theorem ReachableBy.begunOnce (h : y.ReachableBy (entrusts t k))
    (htask : y.tasks[t]? = some task) : y.BegunOnce t task := by
  induction h generalizing task with
  | create origin => simp [System.create] at htask
  | @step u z a h ha hz ih =>
      cases hu : u.tasks[t]? with
      | none =>
          obtain ⟨_, _, _, _, rfl⟩ := (deed_of_step hz).added hu htask
          exact ⟨Nat.zero_le _, fun _ => rfl, fun _ _ _ => rfl⟩
      | some before =>
          obtain ⟨task', htask', hturn⟩ := (deed_of_step hz).turn hu
          obtain rfl := Option.some.inj (htask.symm.trans htask')
          have hbefore := ih hu
          obtain ⟨hruns, hcreated⟩ | ⟨hruns, hbegun, r₀, run₀, run', hrun₀, ht₀, hpoint₀, hpoint',
            hinsert⟩ := hturn.runs h.tracked hu
          · refine ⟨hruns ▸ hbefore.runs, fun h => hruns ▸ hbefore.created (hcreated h),
              fun {r run} hrun ht hpoint => ?_⟩
            rw [hruns]
            obtain ⟨past, hpast, hsame, hlaunched⟩ | ⟨-, hcause, hlaunches, first, hfirst, hidle⟩ :=
              (deed_of_step hz).run hrun
            · exact hbefore.launched hpast (hsame.trans ht) (hlaunched hpoint)
            · subst ht
              obtain rfl := Option.some.inj (hu.symm.trans hfirst)
              have hpending : (z.state run.task).isPending = true := by
                obtain ⟨c, htasks, -⟩ := hlaunches.effects
                obtain ⟨-, hlook⟩ | ⟨hne, -⟩ := some_of_modify htasks hu
                · rw [state_eq hlook]
                  rfl
                · exact absurd rfl hne
              exact hbefore.created (h.begins_first ha hz hcause hu hidle hpending).1
          · have hzero := hbefore.launched hrun₀ ht₀ hpoint₀
            refine ⟨by omega, fun hcreated => absurd hcreated hbegun,
              fun {r run} hrun ht hpoint => ?_⟩
            rw [hinsert, Registry.get?_insert] at hrun
            split at hrun
            · cases hrun
              exact absurd hpoint hpoint'
            · rename_i hr
              exact absurd (h.tracked.unique hrun hrun₀ (ht.trans ht₀.symm)) hr

/-- When nobody else starts a task than one scheduler, and all plans of the task that the scheduler
is given let it run once, the body of the task is begun at most once, and as soon as the task was
started every further admission of a plan of it ends in a conflict. -/
theorem once_begins_once (h : y.ReachableBy (entrusts t k)) (htask : y.tasks[t]? = some task) :
    task.runs ≤ 1 ∧
      ∀ (i : SchedulerId) (j : SessionId) (s : Scheduler) (n : Session) (w : Worker),
        y.schedulers[i]? = some s → s.sessions[j]? = some n → w ∈ n.workers →
          w.plan.task = t → w.point = .entered → task.state ≠ .created →
            ∃ made, y.executionMoves w.executor w.context w.point = [made] ∧ y.Refuses made := by
  refine ⟨(h.begunOnce htask).runs, fun i j s n w hs hn hw ht hpoint hstarted => ?_⟩
  obtain ⟨x, hx, hfollows⟩ := h.executor hs hn hw
  obtain ⟨rfl, honce⟩ := h.once_of_worker hs hn hw ht
  have hsame : x.task = t := hfollows.task.trans ht
  have hmoves : y.executionMoves w.executor w.context w.point =
      [y.enter w.executor x task w.context] := by
    simp [executionMoves, hx, hsame, htask, hpoint]
  refine ⟨_, hmoves, ?_⟩
  have hrest : x.cooldownUntil = none := by
    rw [hfollows.idle fun hne => hne hpoint]
    rfl
  have honce' : x.options.once = true := hfollows.options ▸ honce
  have hdone : task.isDone = true := by
    cases hpending : task.state.isPending with
    | true =>
        -- The key of the task is executing, so no other plan of it can have been admitted.
        obtain ⟨j', s', n', w', hs', hn', hw', ht', _, _, _, hpoint'⟩ := h.attended htask hpending
        obtain rfl := Option.some.inj (hs.symm.trans hs')
        obtain rfl := h.worker_eq_of_task hs hn hw hn' hw' (ht.trans ht'.symm)
        rw [hpoint] at hpoint'
        cases hpoint'
    | false =>
        unfold Task.isDone
        cases hstate : task.state with
        | created => exact absurd hstate hstarted
        | running | canceling =>
            rw [hstate] at hpending
            cases hpending
        | _ => rfl
  have hrefused : x.mayStart task y.now = .error (.onlyOnce task.id) := by
    rw [mayStart_of_rested hrest, if_pos ⟨hdone, honce'⟩]
  have hmade : y.enter w.executor x task w.context =
      (y, .ended (.returned (.error (.onlyOnce task.id)))) := by
    simp only [System.enter, hrefused]
  rw [hmade]
  exact ⟨⟨_, rfl, rfl⟩, rfl, rfl⟩

/-- A plan that lets its task run once, with a retry policy beside it. -/
def onceRetried : ExecutorOptions :=
  { retry := some ⟨3, Duration.ofSeconds 1⟩, once := true }

/-- The run of the first admission fails; then the task is admitted again. -/
def onceRun : System :=
  (create 0).run (entrusts 0 0)
    [.request .newContext, .request (.newTask "a" [] fun _ => [.fail (.failed "no")]),
      .request (.newScheduler ⟨1, .localTime, {}⟩), .request (.startScheduler 0 0),
      .request (.addPlans 0 [⟨0, "a", ⟨0⟩, 0, none, 0, false, some onceRetried⟩]),
      .move (.fetch 0 0) 0, .move (.fetch 0 0) 0, .move (.dispatch 0 0) 0,
      .move (.dispatch 0 0) 0, .move (.dispatch 0 0) 0, .move (.worker 0 0 0) 0,
      .move (.run 0) 0, .move (.run 0) 0, .move (.run 0) 0, .move (.worker 0 0 0) 0,
      .request (.addPlans 0 [⟨0, "a", ⟨0⟩, 0, none, 0, false, some onceRetried⟩]),
      .move (.fetch 0 0) 0, .move (.fetch 0 0) 0, .move (.dispatch 0 0) 0,
      .move (.dispatch 0 0) 0]

/-- The body was begun in the first admission, and the second one is refused. -/
theorem once_begins_once_onceRun :
    ∃ (task : Task) (s : Scheduler) (n : Session) (w : Worker) (made : System × CallStatus),
      onceRun.tasks[0]? = some task ∧ task.state = .failed ∧ task.runs = 1 ∧
        onceRun.schedulers[0]? = some s ∧ s.sessions[0]? = some n ∧ w ∈ n.workers ∧
        w.executor = 1 ∧ onceRun.executionMoves w.executor w.context w.point = [made] ∧
        onceRun.Refuses made := by
  have hrun : (onceRun.tasks[0]?.any fun task => task.state == .failed && 1 ≤ task.runs &&
      onceRun.anyWorker 0 0 fun _ w =>
        w.executor == 1 && w.plan.task == 0 && decide (w.point = .entered)) = true := by
    decide +kernel
  have hreach : onceRun.ReachableBy (entrusts 0 0) := (ReachableBy.create 0).run _
  generalize onceRun = y at hrun hreach ⊢
  obtain ⟨task, htask, hrun⟩ := (Option.any_eq_true _ _).1 hrun
  simp only [Bool.and_eq_true, beq_iff_eq, decide_eq_true_eq] at hrun
  obtain ⟨⟨hfailed, hpos⟩, hrun⟩ := hrun
  obtain ⟨s, n, w, hs, hn, hw, hrun⟩ := of_anyWorker hrun
  simp only [Bool.and_eq_true, beq_iff_eq, decide_eq_true_eq] at hrun
  obtain ⟨⟨hexecutor, ht⟩, hpoint⟩ := hrun
  obtain ⟨hle, hlater⟩ := once_begins_once hreach htask
  have hstarted : task.state ≠ .created := fun hcreated => by
    rw [hfailed] at hcreated
    cases hcreated
  obtain ⟨made, hmoves, hrefuses⟩ := hlater 0 0 s n w hs hn hw ht hpoint hstarted
  exact ⟨task, s, n, w, made, htask, hfailed, Nat.le_antisymm hle hpos, hs, hn, hw, hexecutor,
    hmoves, hrefuses⟩

end System

end Scheduling
