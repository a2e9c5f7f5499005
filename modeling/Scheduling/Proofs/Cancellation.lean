import Mathlib.Algebra.Group.Nat.Defs
import Scheduling.Proofs.Provenance
import Scheduling.Proofs.Removal
import Scheduling.Proofs.Turns
/-!
# Cancelling an executing plan

A plan that is cancelled is told so in three ways: the newest halt flag of its executor is raised,
its task is canceling, and its context is done. The next move of its worker is then the last one,
wherever the worker stands, and it comes to an error unless the run was over and had succeeded.
-/

namespace Scheduling

/-- Whether the latest run was told to end, or has ended otherwise than by success. -/
def State.isFailing : State → Bool
  | canceling | failed | canceled => true
  | _ => false

theorem State.eq_canceling {s : State} (hpending : s.isPending = true)
    (hfailing : s.isFailing = true) : s = .canceling := by
  cases s with
  | canceling => rfl
  | running => cases hfailing
  | _ => cases hpending

namespace System

variable {y z u : System} {a : Step} {i : SchedulerId} {j : SessionId} {s s' : Scheduler}
  {n n' : Session} {w : Worker} {x : Execution} {t : TaskId} {key : String}
  {allowed : System → Step → Bool}

/-! ## The last move of a worker -/

/-- A start call under a context that is done makes its last move, unless it pauses after an attempt
and its timer is due. It changes no task and no run, and comes to a success only after a run that
succeeded. -/
theorem ends_of_isDone {e : ExecutorId} {context : ContextId} {point : CallPoint}
    {made : System × CallStatus} (h : made ∈ y.executionMoves e context point)
    (hdone : y.contexts.isDone context = true)
    (hdue : ∀ wake, point.wake? = some wake → y.now < wake) :
    ∃ (x : Executor) (task : Task) (result : CallEnd), y.executors[e]? = some x ∧
      y.tasks[x.task]? = some task ∧ made.2 = .ended result ∧ y.KeepsRuns made.1 ∧
      (result = .returned (.ok ()) →
        (∃ attempt halt c, point = .running attempt halt c) ∧ task.pending = false ∧
          task.error = none) := by
  obtain ⟨x, task, hx, htask, hmove⟩ := attempts_of_mem h
  cases hmove with
  | enters _ hlive =>
      rw [hdone] at hlive
      cases hlive
  | retries hwake => exact absurd hwake (Nat.not_le_of_lt (hdue _ rfl))
  | @pauses u attempt halt wake c err retry _ _ _ hgoes =>
      have hstill : (y.cancelContext c).contexts.isDone context = true :=
        (ContextTree.grows_cancel y.contexts c).isDone hdone
      simp [endsCycle, hstill] at hgoes
  | ends hended hok hk =>
      refine ⟨x, task, _, hx, htask, rfl, hk, fun hresult => ?_⟩
      obtain ⟨⟨attempt, halt, c, hpoint⟩, herror⟩ := hok hresult
      exact ⟨⟨attempt, halt, c, hpoint⟩, hended attempt halt c hpoint, herror⟩

/-- A start call under a context that is done can make a move unless it waits for a run. -/
theorem executionMoves_ne_nil {e : ExecutorId} {context : ContextId} {point : CallPoint}
    {executor : Executor} {task : Task} (hx : y.executors[e]? = some executor)
    (htask : y.tasks[executor.task]? = some task) (hdone : y.contexts.isDone context = true)
    (hwaits : ∀ attempt halt c, point = .running attempt halt c → task.pending = false) :
    y.executionMoves e context point ≠ [] := by
  cases point with
  | entered => simp [executionMoves, hx, htask]
  | running attempt halt c => simp [executionMoves, hx, htask, hwaits attempt halt c rfl]
  | pausing attempt halt wake last => simp [executionMoves, hx, htask, hdone]

/-! ## Executors of workers -/

/-- Whatever a request uses may be used from outside. -/
theorem lends_of_borrows {e : ExecutorId} (hz : y.step? a = some z) (ha : a.borrows = some e) :
    y.lends e = true := by
  cases a with
  | request r =>
      obtain ⟨haccepts, -⟩ := step_request_iff.1 hz
      cases r with
      | cancelExecutor | resetExecutor =>
          cases ha
          exact haccepts
      | call call =>
          cases call with
          | start => exact lends_of_accepts haccepts ha
          | stop =>
              cases ha
              exact haccepts
          | _ => cases ha
      | _ => cases ha
  | _ => cases ha

/-- The executor and the context of a worker serve nothing else. -/
theorem ReachableBy.reserves_of_worker (h : y.ReachableBy allowed) (hs : y.schedulers[i]? = some s)
    (hn : s.sessions[j]? = some n) (hw : w ∈ n.workers) : y.Reserves w.execution where
  toHosts := h.hosts hs (h.enlists hs j n hn w hw)
  apart hstarts := h.numbered.apart hstarts (employs_of_mem hs hn hw)
  workers hs' hn' hw' hexecutor := by
    obtain ⟨-, -, rfl⟩ := h.numbered.worker_eq hs hn hw hs' hn' hw' hexecutor
    rfl

/-- Whether the timer of a worker that pauses after an attempt is not due. -/
def undue (i : SchedulerId) (j : SessionId) (e : ExecutorId) (y : System) : Bool :=
  (y.session? i j).all fun n => n.workers.all fun w =>
    w.executor != e || w.point.wake?.all fun wake => y.now < wake

theorem lt_of_undue (h : undue i j w.executor y = true) (hs : y.schedulers[i]? = some s)
    (hn : s.sessions[j]? = some n) (hw : w ∈ n.workers) {wake : Instant}
    (hwake : w.point.wake? = some wake) : y.now < wake := by
  have hsession : y.session? i j = some n := session?_eq_some_iff.2 ⟨s, hs, hn⟩
  rw [undue, hsession, Option.all_some] at h
  simpa [hwake] using List.all_eq_true.1 h w hw

/-- Whether the timer of a worker is not due after a step. -/
def staysUndue (i : SchedulerId) (j : SessionId) (e : ExecutorId) (y : System) (a : Step) : Bool :=
  (y.step? a).all (undue i j e)

/-- A worker of a cancelled plan stays where it was when the plan was cancelled, until it makes its
last move. -/
structure Stuck (y : System) (i : SchedulerId) (j : SessionId) (w : Worker) : Prop where
  lt : w.executor < y.executors.size
  notDue : undue i j w.executor y = true
  worker : ∀ {s : Scheduler} {n : Session} {w' : Worker}, y.schedulers[i]? = some s →
    s.sessions[j]? = some n → w' ∈ n.workers → w'.executor = w.executor →
      w' = w ∧ y.Cancelled w.execution

theorem Stuck.step (hy : y.ReachableBy allowed) (h : y.Stuck i j w) (hz : y.step? a = some z)
    (hdue : undue i j w.executor z = true) : z.Stuck i j w where
  lt := Nat.lt_of_lt_of_le h.lt (proceeds_of_step hz).executors_size
  notDue := hdue
  worker {s' n' w'} hs' hn' hw' hexecutor := by
    obtain ⟨s, n, hs, hn, hw | ⟨v, hv, hadvances, hw⟩ | ⟨-, hnew⟩⟩ := hy.worker_cases hz hs' hn' hw'
    · obtain ⟨rfl, hcancelled⟩ := h.worker hs hn hw hexecutor
      refine ⟨rfl, hcancelled.step (hy.reserves_of_worker hs hn hw) hz fun hborrows => ?_⟩
      have hlends := lends_of_borrows hz hborrows
      exact (lends_iff.1 hlends).2 i j (employs_of_mem hs hn hw)
    · have hexecutor' : v.executor = w.executor := by
        rw [← hexecutor, hw]
      obtain ⟨rfl, hcancelled⟩ := h.worker hs hn hv hexecutor'
      obtain ⟨u, hmade, -⟩ := hadvances.made
      obtain ⟨_, _, _, -, -, hended, -⟩ := ends_of_isDone hmade hcancelled.context
        fun wake hwake => lt_of_undue h.notDue hs hn hv hwake
      cases hended
    · exact absurd (hnew ▸ hexecutor ▸ h.lt) (Nat.lt_irrefl _)

theorem Stuck.run (hy : y.Reachable) (h : y.Stuck i j w) (steps : List Step) :
    (y.run (staysUndue i j w.executor) steps).Stuck i j w := by
  have hrun : (y.run (staysUndue i j w.executor) steps).Reachable ∧
      (y.run (staysUndue i j w.executor) steps).Stuck i j w := by
    apply run_induction (P := fun v => v.Reachable ∧ v.Stuck i j w)
    · intro v a z ha hz ⟨hv, hstuck⟩
      have hdue : undue i j w.executor z = true := by simpa [staysUndue, hz] using ha
      exact ⟨hv.step rfl hz, hstuck.step hv hz hdue⟩
    · exact ⟨hy, h⟩
  exact hrun.2

/-! ## Runs that end otherwise than by success -/

/-- A task whose latest run was told to end does not succeed unless it is started again. -/
theorem Turn.isFailing {task task' : Task} (h : y.Turn a z t task task') (hy : y.Tracked)
    (htask : y.tasks[t]? = some task) (hfailing : task.state.isFailing = true) :
    task'.state.isFailing = true ∨
      task.state.isPending = false ∧ task'.state.isPending = true := by
  cases h with
  | yields h =>
      obtain rfl | ⟨hrunning, -⟩ := h
      · exact .inl hfailing
      · rw [hrunning] at hfailing
        cases hfailing
  | begins _ hidle => exact .inr ⟨hidle, rfl⟩
  | launches => exact .inl hfailing
  | reports _ _ h => exact .inl (h.state ▸ hfailing)
  | @finishes _ _ outcome err now hrun ht =>
      have hpending := hy.isPending hrun ht htask
      have hcanceling := State.eq_canceling hpending hfailing
      refine .inl ?_
      unfold Task.finish Task.endState
      rw [hcanceling]
      cases outcome <;> rfl

/-- The time at which a step begins a run of a task. -/
def seeBeginning (t : TaskId) (y : System) (_ : Step) (z : System) : List Timestamp :=
  if !(y.state t).isPending && (z.state t).isPending then [z.clock.wall] else []

/-- The times at which runs of a task begin in a run of the system. -/
def beginnings (allowed : System → Step → Bool) (t : TaskId) (y : System) (steps : List Step) :
    List Timestamp :=
  y.observe allowed (seeBeginning t) steps

theorem isFailing_or_begins (hy : y.Reachable) (h : (y.state t).isFailing = true)
    (steps : List Step) :
    ((y.run allowed steps).state t).isFailing = true ∨ y.beginnings allowed t steps ≠ [] := by
  induction steps generalizing y with
  | nil => exact .inl h
  | cons a steps ih =>
      unfold beginnings at ih ⊢
      cases hnext : y.next? allowed a with
      | none =>
          rw [observe_cons_of_none hnext, run_cons_of_none hnext]
          exact ih hy h
      | some z =>
          obtain ⟨-, hz⟩ := next?_eq_some_iff.1 hnext
          rw [observe_cons_of_some hnext, run_cons_of_some hnext]
          cases htask : y.tasks[t]? with
          | none =>
              simp [state, htask, State.isFailing] at h
          | some task =>
              rw [state_eq htask] at h
              obtain ⟨task', htask', hturn⟩ := (deed_of_step hz).turn htask
              obtain hfailing | ⟨hidle, hpending⟩ := hturn.isFailing hy.tracked htask h
              · have hrest := ih (hy.step rfl hz) (state_eq htask' ▸ hfailing)
                exact hrest.imp_right fun hne hnil => hne (List.append_eq_nil_iff.1 hnil).2
              · refine .inr fun hnil => ?_
                have hsee := (List.append_eq_nil_iff.1 hnil).1
                simp [seeBeginning, state_eq htask, state_eq htask', hidle, hpending] at hsee

theorem state_ne_created_of_step (hy : y.Tracked) (hz : y.step? a = some z)
    (h : y.state t ≠ .created) : z.state t ≠ .created := by
  cases htask : y.tasks[t]? with
  | none =>
      rw [state, htask] at h
      exact absurd rfl h
  | some task =>
      obtain ⟨task', htask', hturn⟩ := (deed_of_step hz).turn htask
      rw [state_eq htask] at h
      rw [state_eq htask']
      obtain ⟨-, hcreated⟩ | ⟨-, hbegun, -⟩ := hturn.runs hy htask
      · exact fun hstate => h (hcreated hstate)
      · exact hbegun

/-- A worker waits only for runs of a task that was started. -/
theorem ReachableBy.started_of_running (h : y.ReachableBy allowed) (hs : y.schedulers[i]? = some s)
    (hn : s.sessions[j]? = some n) (hw : w ∈ n.workers) {attempt halt : Nat} {c : ContextId}
    (hpoint : w.point = .running attempt halt c) : y.state w.plan.task ≠ .created := by
  induction h generalizing s n w attempt halt c with
  | create origin => simp [System.create] at hs
  | @step u z a h _ hz ih =>
      obtain ⟨s₀, n₀, hs₀, hn₀, hw | ⟨w₀, hw₀, hadvances, hw⟩ | ⟨hentered, -⟩⟩ :=
        h.worker_cases hz hs hn hw
      · exact state_ne_created_of_step h.tracked hz (ih hs₀ hn₀ hw hpoint)
      · have hplan : w₀.plan = w.plan := by rw [hw]
        obtain ⟨v, hmade, htasks, -⟩ := hadvances.made
        obtain ⟨x₀, hx₀, hfollows⟩ := h.executor hs₀ hn₀ hw₀
        obtain ⟨x, task, hx, htask, hmove⟩ := attempts_of_mem hmade
        obtain rfl := Option.some.inj (hx.symm.trans hx₀)
        have hsame : x.task = w.plan.task := hplan ▸ hfollows.task
        -- Such a move leaves the task running.
        have hbegun (hlaunches : u.Launches x.task v) : z.state w.plan.task ≠ .created := by
          obtain ⟨c, hbegin, -⟩ := hlaunches.effects
          obtain ⟨-, hv⟩ | ⟨hne, -⟩ := some_of_modify hbegin htask
          · rw [state, htasks, ← hsame, hv]
            exact State.noConfusion
          · exact absurd rfl hne
        rw [hpoint] at hmove
        generalize w₀.point = point at hmove
        cases hmove with
        | enters _ _ _ hlaunches | retries _ _ hlaunches => exact hbegun hlaunches
      · rw [hentered] at hpoint
        cases hpoint

/-! ## How a plan is cancelled -/

/-- A step has what is executing under a key cancelled: the plan is cancelled or removed, or a
dispatch loop of the scheduler ends. -/
inductive Cancels (y : System) (i : SchedulerId) (key : String) (a : Step) (u : System) : Prop
  | cancels (ha : a = .request (.cancelPlan i key))
  | removes {p : Plan} (ha : a = .request (.removePlan i p)) (hkey : p.key = key)
  | ends {j : SessionId} {n n' : Session} (hn : y.session? i j = some n)
      (hn' : u.session? i j = some n') (hlive : n.dispatch ≠ .ended)
      (hended : n'.dispatch = .ended)

/-- What a step comes to that has an executing plan cancelled: the plan is told to stop, its task is
not running any more, and all workers of the scheduler were there before. -/
structure CallsOff (y u : System) (i : SchedulerId) (s : Scheduler) (x : Execution) : Prop where
  cancelled : u.Cancelled x
  stops : y.Stops u
  idle : ∀ {executor : Executor}, y.executors[x.executor]? = some executor →
    u.state executor.task ≠ .running
  workers : ∀ {s' : Scheduler} {j : SessionId} {n' : Session} {w : Worker},
    u.schedulers[i]? = some s' → s'.sessions[j]? = some n' → w ∈ n'.workers →
      ∃ n : Session, s.sessions[j]? = some n ∧ w ∈ n.workers

theorem Stops.state_ne_running (h : y.Stops z) (hy : y.state t ≠ .running) :
    z.state t ≠ .running := by
  obtain hsame | ⟨hrunning, -⟩ := h.state_cases t
  · rwa [hsame]
  · exact absurd hrunning hy

/-- A task that was started and is told to stop has succeeded before, or does not succeed. -/
theorem Stops.succeeded_or_isFailing (h : y.Stops z) (hstarted : y.state t ≠ .created)
    (hidle : z.state t ≠ .running) : y.state t = .succeeded ∨ (z.state t).isFailing = true := by
  obtain hsame | ⟨-, hcanceling⟩ := h.state_cases t
  · rw [hsame] at hidle ⊢
    generalize y.state t = s at *
    cases s with
    | created => exact absurd rfl hstarted
    | running => exact absurd rfl hidle
    | succeeded => exact .inl rfl
    | canceling | failed | canceled => exact .inr rfl
  · rw [hcanceling]
    exact .inr rfl

theorem state_foldl_cancelExecution_ne_running {xs : List Execution} {executor : Executor}
    (hx : y.executors[x.executor]? = some executor)
    (h : x ∈ xs ∨ y.state executor.task ≠ .running) :
    (xs.foldl cancelExecution y).state executor.task ≠ .running := by
  induction xs generalizing y executor with
  | nil => exact h.resolve_left List.not_mem_nil
  | cons v xs ih =>
      have hworks : y.Works none (y.cancelExecution v) := works_cancelExecution y v
      obtain ⟨executor', hx', hfollows⟩ := hworks.executors _ executor hx
      rw [← hfollows.task]
      refine ih hx' ?_
      rw [hfollows.task]
      obtain hmem | hidle := h
      · obtain rfl | hmem := List.mem_cons.1 hmem
        · exact .inr (state_cancelExecution_ne_running hx)
        · exact .inl hmem
      · exact .inr ((stops_cancelExecution y v).state_ne_running hidle)

theorem callsOff_cancelPlan (hy : y.Reachable) (hs : y.schedulers[i]? = some s)
    (hx : s.executing.get? key = some x) : y.CallsOff (y.carryOut (.cancelPlan i key)) i s x := by
  have hmade : y.carryOut (.cancelPlan i key) = y.cancelExecution x := by
    simp [carryOut, cancelPlan, hs, hx, Except.toOption]
  have hworks : y.Works none (y.cancelExecution x) := works_cancelExecution y x
  rw [hmade]
  refine ⟨cancelled_cancelExecution (hy.hosts hs hx), stops_cancelExecution y x,
    state_cancelExecution_ne_running, fun hs' hn' hw => ?_⟩
  rw [hworks.schedulers, hs] at hs'
  cases hs'
  exact ⟨_, hn', hw⟩

theorem callsOff_removePlan {p : Plan} (hy : y.Reachable) (hs : y.schedulers[i]? = some s)
    (hx : s.executing.get? p.key = some x) : y.CallsOff (y.removePlan i p) i s x := by
  obtain ⟨hcancelled, hidle⟩ := hy.cancelled_removePlan hs hx
  refine ⟨hcancelled, stops_removePlan y i p, hidle _, fun hs' hn' hw => ?_⟩
  obtain rfl := Option.some.inj ((removePlan_cases hs).1.symm.trans hs')
  exact ⟨_, (Scheduler.registers_unschedule s p.key).sessions ▸ hn', hw⟩

theorem callsOff_of_end (hy : y.Reachable) (hu : y.step? a = some u)
    (hs : y.schedulers[i]? = some s) (hx : s.executing.get? key = some x)
    (hn : y.session? i j = some n) (hn' : u.session? i j = some n') (hlive : n.dispatch ≠ .ended)
    (hended : n'.dispatch = .ended) : y.CallsOff u i s x := by
  have hne : n' ≠ n := fun heq => hlive (heq ▸ hended)
  obtain ⟨s₀, s', hs₀, hs', -, hedit, hchange⟩ := edits_of_session hu hn hn' hne
  obtain rfl := Option.some.inj (hs.symm.trans hs₀)
  obtain ⟨-, hworkers, s₁, rfl⟩ := hchange.of_end hlive hended
  have hmem : x ∈ s.executing.values := Registry.mem_values_iff.2 ⟨key, hx⟩
  have hproceeds : y.Proceeds none (y.setScheduler i s₁) := proceeds_setScheduler y i s₁
  refine ⟨cancelled_foldl_cancelExecution (fun v hv => ?_) (.inl hmem),
    (rests_setScheduler y i s₁).stops.trans (stops_foldl_cancelExecution _ _),
    fun hexecutor => state_foldl_cancelExecution_ne_running hexecutor (.inl hmem),
    fun {t k m w} ht hm hw => ?_⟩
  · obtain ⟨k, hk⟩ := Registry.mem_values_iff.1 hv
    exact (hy.hosts hs hk).proceeds hproceeds
  · obtain rfl := Option.some.inj (hs'.symm.trans ht)
    obtain ⟨rfl, rfl⟩ | ⟨-, hkept⟩ := hedit.session hm
    · exact ⟨n, hedit.before, hworkers ▸ hw⟩
    · exact ⟨m, hkept, hw⟩

theorem Cancels.callsOff (h : y.Cancels i key a u) (hy : y.Reachable) (hu : y.step? a = some u)
    (hs : y.schedulers[i]? = some s) (hx : s.executing.get? key = some x) :
    y.CallsOff u i s x := by
  cases h with
  | cancels ha =>
      subst ha
      obtain ⟨-, rfl⟩ := step_request_iff.1 hu
      exact callsOff_cancelPlan hy hs hx
  | removes ha hkey =>
      subst ha hkey
      obtain ⟨-, rfl⟩ := step_request_iff.1 hu
      exact callsOff_removePlan hy hs hx
  | ends hn hn' hlive hended => exact callsOff_of_end hy hu hs hx hn hn' hlive hended

/-- A worker whose plan is cancelled stays where it is until its last move. -/
theorem Cancels.stuck (h : y.Cancels i w.key a u) (hy : y.Reachable) (hu : y.step? a = some u)
    (hs : y.schedulers[i]? = some s) (hn : s.sessions[j]? = some n) (hw : w ∈ n.workers)
    (hdue : undue i j w.executor u = true) : u.Stuck i j w where
  lt := Nat.lt_of_lt_of_le (hy.numbered.lt (employs_of_mem hs hn hw))
    (proceeds_of_step hu).executors_size
  notDue := hdue
  worker hs' hn' hw' hexecutor := by
    have hoff := h.callsOff hy hu hs (hy.enlists hs j n hn w hw)
    obtain ⟨n₀, hn₀, hw₀⟩ := hoff.workers hs' hn' hw'
    exact ⟨(hy.numbered.worker_eq hs hn hw hs hn₀ hw₀ hexecutor).2.2, hoff.cancelled⟩

/-- When a worker waits for a run while its plan is cancelled, that run had succeeded already or
the task does not succeed before it is started again. -/
theorem Cancels.succeeded_or_begins (h : y.Cancels i w.key a u) (hy : y.Reachable)
    (hu : y.step? a = some u) (hs : y.schedulers[i]? = some s) (hn : s.sessions[j]? = some n)
    (hw : w ∈ n.workers) {attempt halt : Nat} {c : ContextId}
    (hpoint : w.point = .running attempt halt c) (steps : List Step)
    (hsucceeded : (u.run allowed steps).state w.plan.task = .succeeded) :
    y.state w.plan.task = .succeeded ∨ u.beginnings allowed w.plan.task steps ≠ [] := by
  have hoff := h.callsOff hy hu hs (hy.enlists hs j n hn w hw)
  obtain ⟨x, hx, hfollows⟩ := hy.executor hs hn hw
  have hsame : x.task = w.plan.task := hfollows.task
  have hidle : u.state w.plan.task ≠ .running := hsame ▸ hoff.idle hx
  obtain hbefore | hfailing :=
    hoff.stops.succeeded_or_isFailing (hy.started_of_running hs hn hw hpoint) hidle
  · exact .inl hbefore
  · refine .inr ((isFailing_or_begins (hy.step rfl hu) hfailing steps).resolve_left ?_)
    rw [hsucceeded]
    exact Bool.false_ne_true

/-! ## What a cancellation leaves alone -/

/-- Nothing has changed but the executor and the context of one execution, its task `t` and the run
of it that was in progress. -/
structure CancelsOnly (y z : System) (x : Execution) (t : TaskId) : Prop where
  clock : z.clock = y.clock
  schedulers : z.schedulers = y.schedulers
  queues : z.queues = y.queues
  tables : z.tables = y.tables
  runs : z.runs = y.runs
  calls : z.calls = y.calls
  executors : ∀ e, e ≠ x.executor → z.executors[e]? = y.executors[e]?
  tasks : ∀ t', t' ≠ t → z.tasks[t']? = y.tasks[t']?
  contexts : ∀ c, x.context ∉ y.contexts.lineage c →
    (∀ task r, y.tasks[t]? = some task → task.state = .running → task.runContext = some r →
      r ∉ y.contexts.lineage c) → y.contexts.Agrees z.contexts c

theorem cancelsOnly_cancelExecution {executor : Executor}
    (hx : y.executors[x.executor]? = some executor) :
    y.CancelsOnly (y.cancelExecution x) x executor.task := by
  have hexecutors (e : ExecutorId) (he : e ≠ x.executor) :
      (y.executors.modify x.executor Executor.raiseHalt)[e]? = y.executors[e]? := by
    rw [Array.getElem?_modify, if_neg (Ne.symm he)]
  have htasks (f : Task → Task) (t : TaskId) (ht : t ≠ executor.task) :
      (y.tasks.modify executor.task f)[t]? = y.tasks[t]? := by
    rw [Array.getElem?_modify, if_neg (Ne.symm ht)]
  have hmade : y.cancelExecution x =
      ((y.modifyExecutor x.executor Executor.raiseHalt).cancelTask executor.task).2.cancelContext
        x.context := by
    rw [cancelExecution, cancelExecutor, hx]
  rw [hmade]
  obtain ⟨-, hnone⟩ | ⟨task, htask, hrunning, ⟨-, honly⟩ | ⟨r, hr, hboth⟩⟩ :=
    cancelTask_cases (y.modifyExecutor x.executor Executor.raiseHalt) executor.task
  · rw [hnone]
    exact ⟨rfl, rfl, rfl, rfl, rfl, rfl, hexecutors, fun _ _ => rfl,
      fun c hc _ => ContextTree.agrees_cancel hc⟩
  · rw [honly]
    exact ⟨rfl, rfl, rfl, rfl, rfl, rfl, hexecutors, htasks _,
      fun c hc _ => ContextTree.agrees_cancel hc⟩
  · rw [hboth]
    refine ⟨rfl, rfl, rfl, rfl, rfl, rfl, hexecutors, htasks _, fun c hc hrun => ?_⟩
    have hfirst : y.contexts.Agrees (y.contexts.cancel r) c :=
      ContextTree.agrees_cancel (hrun task r htask hrunning hr)
    exact hfirst.trans (ContextTree.agrees_cancel (hfirst.lineage ▸ hc))

/-! ## Cancelled plans -/

/-- A worker cannot do more than make its last move, which begins no run and changes no task. It can
make the move unless it waits for a run, and the move comes to a success only if `succeeds`. -/
structure LastMove (y : System) (w : Worker) (succeeds : Prop) : Prop where
  waits : y.executionMoves w.executor w.context w.point = [] →
    (∃ attempt halt c, w.point = .running attempt halt c) ∧
      (y.state w.plan.task).isPending = true
  ends : ∀ made ∈ y.executionMoves w.executor w.context w.point,
    made.1.tasks = y.tasks ∧ made.1.runs = y.runs ∧
      ∃ result, made.2 = .ended result ∧ (result = .returned (.ok ()) → succeeds)

theorem LastMove.mono {succeeds succeeds' : Prop} (h : y.LastMove w succeeds)
    (himp : succeeds → succeeds') : y.LastMove w succeeds' where
  waits := h.waits
  ends made hmade := by
    obtain ⟨htasks, hruns, result, hended, hok⟩ := h.ends made hmade
    exact ⟨htasks, hruns, result, hended, fun hresult => himp (hok hresult)⟩

theorem lastMove_of_cancelled {succeeds : Prop} (hy : y.ReachableBy allowed)
    (hs : y.schedulers[i]? = some s) (hn : s.sessions[j]? = some n) (hw : w ∈ n.workers)
    (hcancelled : y.Cancelled w.execution)
    (hdue : ∀ wake, w.point.wake? = some wake → y.now < wake)
    (hsucceeds : (∃ attempt halt c, w.point = .running attempt halt c) →
      y.state w.plan.task = .succeeded → succeeds) :
    y.LastMove w succeeds := by
  have hdone : y.contexts.isDone w.context = true := hcancelled.context
  obtain ⟨x, hx, hfollows⟩ := hy.executor hs hn hw
  have hsame : x.task = w.plan.task := hfollows.task
  constructor
  · intro hnil
    obtain ⟨task, htask, -⟩ := hy.task_of_worker hs hn hw
    have hlook : y.tasks[x.task]? = some task := hsame ▸ htask
    rw [state_eq htask, ← (hy.coherent htask).pending]
    by_cases hwaits : ∀ attempt halt c, w.point = .running attempt halt c → task.pending = false
    · exact absurd hnil (executionMoves_ne_nil hx hlook hdone hwaits)
    · push Not at hwaits
      obtain ⟨attempt, halt, c, hpoint, hpending⟩ := hwaits
      exact ⟨⟨attempt, halt, c, hpoint⟩, by simpa using hpending⟩
  · intro made hmade
    obtain ⟨x', task, result, hx', htask, hended, hk, hok⟩ := ends_of_isDone hmade hdone hdue
    obtain rfl := Option.some.inj (hx'.symm.trans hx)
    rw [hsame] at htask
    refine ⟨hk.tasks, hk.runs, result, hended, fun hresult => ?_⟩
    obtain ⟨hrunning, hpending, herror⟩ := hok hresult
    refine hsucceeds hrunning ?_
    obtain ⟨attempt, halt, c, hpoint⟩ := hrunning
    have hstarted := hy.started_of_running hs hn hw hpoint
    have hcoherent := hy.coherent htask
    rw [state_eq htask] at hstarted ⊢
    have hidle : task.state.isPending = false := hcoherent.pending ▸ hpending
    obtain ⟨hfailed, hcanceled⟩ := hcoherent.error.1 herror
    cases hstate : task.state with
    | succeeded => rfl
    | created => exact absurd hstate hstarted
    | failed => exact absurd hstate hfailed
    | canceled => exact absurd hstate hcanceled
    | running | canceling =>
        rw [hstate] at hidle
        cases hidle

/-- Once an executing plan is cancelled, removed or stopped with its session, its worker stays where
it is until its last move: no run begins any more, neither a first one nor a retry, and the start
call comes to a success only if the run it waits for had succeeded before or the task was started
again. The cancellation of a plan leaves alone the scheduler and everything else but the executor,
the task and the contexts below that of the plan or that of the run in progress; that of a key that
is not executing is refused and changes nothing. -/
theorem cancel_ends (h : y.Reachable) (hs : y.schedulers[i]? = some s) :
    (∀ (j : SessionId) (n : Session) (w : Worker) (a : Step) (u : System),
      s.sessions[j]? = some n → w ∈ n.workers → y.step? a = some u → y.Cancels i w.key a u →
      undue i j w.executor u = true →
      ∀ (steps : List Step) (v : System) (s' : Scheduler) (n' : Session) (w' : Worker),
        v = u.run (staysUndue i j w.executor) steps → v.schedulers[i]? = some s' →
        s'.sessions[j]? = some n' → w' ∈ n'.workers → w'.executor = w.executor →
          w' = w ∧ v.LastMove w ((∃ attempt halt c, w.point = .running attempt halt c) ∧
            (y.state w.plan.task = .succeeded ∨
              u.beginnings (staysUndue i j w.executor) w.plan.task steps ≠ []))) ∧
      (∀ key x, s.executing.get? key = some x → ∃ (executor : Executor) (z : System),
        y.executors[x.executor]? = some executor ∧ y.cancelPlan i key = .ok z ∧
          y.CancelsOnly z x executor.task) ∧
      ∀ key, s.executing.get? key = none →
        y.cancelPlan i key = .error (.notFound ("plan `" ++ key ++ "` is not executing")) ∧
          y.carryOut (.cancelPlan i key) = y := by
  refine ⟨fun j n w a u hn hw hu hcancels hdue steps v s' n' w' hv hs' hn' hw' hexecutor => ?_,
    fun key x hx => ?_, fun key hnone => ?_⟩
  · have hreach : u.Reachable := h.step rfl hu
    have hstuck : v.Stuck i j w :=
      hv ▸ (hcancels.stuck h hu hs hn hw hdue).run hreach steps
    obtain ⟨rfl, hcancelled⟩ := hstuck.worker hs' hn' hw' hexecutor
    have hv' : v.Reachable := hv ▸ hreach.run_any _ steps
    refine ⟨rfl, lastMove_of_cancelled hv' hs' hn' hw' hcancelled
      (fun wake => lt_of_undue hstuck.notDue hs' hn' hw') fun hrunning hsucceeded => ?_⟩
    refine ⟨hrunning, ?_⟩
    obtain ⟨attempt, halt, c, hpoint⟩ := hrunning
    exact hcancels.succeeded_or_begins h hu hs hn hw hpoint steps (hv ▸ hsucceeded)
  · obtain ⟨executor, hexecutor, -⟩ := (h.hosts hs hx).executor
    refine ⟨executor, y.cancelExecution x, hexecutor, ?_, cancelsOnly_cancelExecution hexecutor⟩
    simp [cancelPlan, hs, hx]
  · have hrefused : y.cancelPlan i key =
        .error (.notFound ("plan `" ++ key ++ "` is not executing")) := by
      simp [cancelPlan, hs, hnone]
    refine ⟨hrefused, ?_⟩
    simp [carryOut, hrefused, Except.toOption]

/-- The worker of a plan under some policies waits for a run that is to fail. -/
def attemptSteps (o : ExecutorOptions) : List Step :=
  [.request .newContext,
    .request (.newTask "a" [] fun run => if run = 0 then [.fail (.failed "no")] else []),
    .request (.newScheduler ⟨1, .localTime, {}⟩), .request (.startScheduler 0 0),
    .request (.addPlans 0 [⟨0, "a", ⟨0⟩, 0, none, 0, false, some o⟩]),
    .move (.fetch 0 0) 0, .move (.fetch 0 0) 0, .move (.dispatch 0 0) 0, .move (.dispatch 0 0) 0,
    .move (.dispatch 0 0) 0, .move (.worker 0 0 0) 0]

/-- A second attempt ten seconds after the first. -/
def retryTen : ExecutorOptions := { retry := some ⟨2, Duration.ofSeconds 10⟩ }

/-- What a run does from its begin to its end. -/
def bodySteps (r : RunId) : List Step :=
  [.move (.run r) 0, .move (.run r) 0, .move (.run r) 0]

/-- The run has failed, and the worker pauses. -/
def delayedSteps : List Step :=
  attemptSteps retryTen ++ bodySteps 0 ++ [.move (.worker 0 0 0) 0]

def cancelStep : Step := .request (.cancelPlan 0 "a")

/-- A plan that is cancelled in its pause is not tried again, and a plan that is not executing
cannot be cancelled. -/
theorem cancel_ends_delayedSteps :
    ∃ (s : Scheduler) (n : Session) (w : Worker) (u v : System),
      (after delayedSteps).schedulers[0]? = some s ∧ s.sessions[0]? = some n ∧ w ∈ n.workers ∧
        w.point.wake? = some 10000000000 ∧ (after delayedSteps).step? cancelStep = some u ∧
        v = u.run (staysUndue 0 0 w.executor) [.pass 5000] ∧ v.LastMove w False ∧
        (after delayedSteps).cancelPlan 0 "b" =
          .error (.notFound "plan `b` is not executing") := by
  have hrun : (after delayedSteps).anyWorker 0 0 (fun s w =>
      w.point.wake? == some 10000000000 && w.key == "a" && (s.executing.get? "b").isNone &&
        ((after delayedSteps).step? cancelStep).any fun u => undue 0 0 w.executor u &&
          (u.run (staysUndue 0 0 w.executor) [.pass 5000]).anyWorker 0 0 fun _ w' =>
            w'.executor == w.executor) = true := by
    decide +kernel
  have hreach : (after delayedSteps).Reachable := reachable_after _
  generalize after delayedSteps = y at hrun hreach ⊢
  obtain ⟨s, n, w, hs, hn, hw, hrun⟩ := of_anyWorker hrun
  simp only [Bool.and_eq_true, beq_iff_eq, Option.isNone_iff_eq_none] at hrun
  obtain ⟨⟨⟨hwake, hkey⟩, hother⟩, hrun⟩ := hrun
  obtain ⟨u, hu, hrun⟩ := (Option.any_eq_true _ _).1 hrun
  obtain ⟨hdue, hrun⟩ := Bool.and_eq_true_iff.1 hrun
  obtain ⟨s', n', w', hs', hn', hw', hexecutor⟩ := of_anyWorker hrun
  have hcancels : y.Cancels 0 w.key cancelStep u := .cancels (hkey ▸ rfl)
  obtain ⟨hends, -, hrefuses⟩ := cancel_ends hreach hs
  obtain ⟨-, hlast⟩ := hends 0 n w _ u hn hw hu hcancels hdue [.pass 5000] _ s' n' w' rfl hs' hn'
    hw' (beq_iff_eq.1 hexecutor)
  refine ⟨s, n, w, u, _, hs, hn, hw, hwake, hu, rfl, hlast.mono ?_, (hrefuses "b" hother).1⟩
  rintro ⟨⟨attempt, halt, c, hpoint⟩, -⟩
  rw [hpoint] at hwake
  cases hwake

/-- While the worker pauses, somebody else starts the task under the context 0. -/
def sharedSteps : List Step :=
  delayedSteps ++ [.request (.startTask 0 0)]

/-- The plan is cancelled while the run of its task is in progress, but the task is started again
before its worker sees that the run is over. -/
def restartedSteps : List Step :=
  attemptSteps retryTen ++ [cancelStep] ++ bodySteps 0 ++ [.request (.startTask 0 0)] ++
    bodySteps 1

/-- The plan is cancelled in the pause of its worker, which is over before the worker is looked at
again. -/
def overdueSteps : List Step :=
  delayedSteps ++ [cancelStep, .pass 10000]

/-- A plan whose task is to rest for longer than the clock can tell is cancelled while it runs. -/
def restingSteps : List Step :=
  attemptSteps { cooldown := some (Duration.ofSeconds (2 ^ 64 - 1)) } ++ [cancelStep] ++ bodySteps 0

/-- Whether a start call has ended with a success. -/
def CallStatus.succeeds : CallStatus → Bool
  | .ended (.returned (.ok ())) => true
  | _ => false

/-- Whether a start call has panicked because of a time beyond the clock. -/
def CallStatus.overflows : CallStatus → Bool
  | .ended (.panicked text) => text == Instant.overflowText
  | _ => false

/-- A plan that is cancelled can take a run with it whose context does not derive from that of the
plan, its start call can come to a success though the run in progress was told to stop or end in a
panic, and it can begin a further run though its timer was not due yet. -/
theorem cancel_exceeds_attempt :
    (∃ (s : Scheduler) (x : Execution), (after sharedSteps).schedulers[0]? = some s ∧
      s.executing.get? "a" = some x ∧ x.context ∉ (after sharedSteps).contexts.lineage 5 ∧
      (after sharedSteps).contexts.isDone 5 = false ∧
      (after (sharedSteps ++ [cancelStep])).contexts.isDone 5 = true) ∧
    (∃ (s : Scheduler) (n : Session) (w : Worker) (made : System × CallStatus),
      (after (attemptSteps retryTen)).state w.plan.task = .running ∧
      (after restartedSteps).schedulers[0]? = some s ∧ s.sessions[0]? = some n ∧ w ∈ n.workers ∧
      made ∈ (after restartedSteps).executionMoves w.executor w.context w.point ∧
      made.2 = .ended (.returned (.ok ()))) ∧
    (∃ (s : Scheduler) (n : Session) (w : Worker) (made : System × CallStatus),
      (after restingSteps).schedulers[0]? = some s ∧ s.sessions[0]? = some n ∧ w ∈ n.workers ∧
      made ∈ (after restingSteps).executionMoves w.executor w.context w.point ∧
      made.2 = .ended (.panicked Instant.overflowText)) ∧
    ∃ (s : Scheduler) (n : Session) (w : Worker) (made : System × CallStatus) (wake : Instant),
      (after overdueSteps).schedulers[0]? = some s ∧ s.sessions[0]? = some n ∧ w ∈ n.workers ∧
      w.point.wake? = some wake ∧ (after delayedSteps).now < wake ∧
      made ∈ (after overdueSteps).executionMoves w.executor w.context w.point ∧
      (after overdueSteps).state w.plan.task = .failed ∧
      made.1.state w.plan.task = .running := by
  have hshared : ((after sharedSteps).schedulers[0]?.any fun s =>
      (s.executing.get? "a").any fun x =>
        decide (x.context ∉ (after sharedSteps).contexts.lineage 5)) = true := by decide +kernel
  have hrestarted : (after restartedSteps).anyWorker 0 0 (fun _ w =>
      decide ((after (attemptSteps retryTen)).state w.plan.task = .running) &&
        ((after restartedSteps).executionMoves w.executor w.context w.point).any fun made =>
          made.2.succeeds) = true := by decide +kernel
  have hresting : (after restingSteps).anyWorker 0 0 (fun _ w =>
      ((after restingSteps).executionMoves w.executor w.context w.point).any
        (·.2.overflows)) = true := by decide +kernel
  have hoverdue : (after overdueSteps).anyWorker 0 0 (fun _ w =>
      (w.point.wake?.any fun wake => decide ((after delayedSteps).now < wake)) &&
        decide ((after overdueSteps).state w.plan.task = .failed) &&
        ((after overdueSteps).executionMoves w.executor w.context w.point).any fun made =>
          decide (made.1.state w.plan.task = .running)) = true := by decide +kernel
  refine ⟨?_, ?_, ?_, ?_⟩
  · obtain ⟨s, hs, hshared⟩ := (Option.any_eq_true _ _).1 hshared
    obtain ⟨x, hx, hshared⟩ := (Option.any_eq_true _ _).1 hshared
    exact ⟨s, x, hs, hx, of_decide_eq_true hshared, by decide +kernel, by decide +kernel⟩
  · obtain ⟨s, n, w, hs, hn, hw, hrestarted⟩ := of_anyWorker hrestarted
    obtain ⟨hrunning, hrestarted⟩ := Bool.and_eq_true_iff.1 hrestarted
    obtain ⟨made, hmade, hok⟩ := List.any_eq_true.1 hrestarted
    refine ⟨s, n, w, made, of_decide_eq_true hrunning, hs, hn, hw, hmade, ?_⟩
    unfold CallStatus.succeeds at hok
    split at hok
    · assumption
    · cases hok
  · obtain ⟨s, n, w, hs, hn, hw, hresting⟩ := of_anyWorker hresting
    obtain ⟨made, hmade, hpanics⟩ := List.any_eq_true.1 hresting
    refine ⟨s, n, w, made, hs, hn, hw, hmade, ?_⟩
    unfold CallStatus.overflows at hpanics
    split at hpanics
    · rename_i text hended
      rw [hended, beq_iff_eq.1 hpanics]
    · cases hpanics
  · obtain ⟨s, n, w, hs, hn, hw, hoverdue⟩ := of_anyWorker hoverdue
    simp only [Bool.and_eq_true, decide_eq_true_eq] at hoverdue
    obtain ⟨⟨hwake, hfailed⟩, hmoves⟩ := hoverdue
    obtain ⟨wake, hwake, hlt⟩ := (Option.any_eq_true _ _).1 hwake
    obtain ⟨made, hmade, hrunning⟩ := List.any_eq_true.1 hmoves
    exact ⟨s, n, w, made, wake, hs, hn, hw, hwake, of_decide_eq_true hlt, hmade, hfailed,
      of_decide_eq_true hrunning⟩

end System

end Scheduling
