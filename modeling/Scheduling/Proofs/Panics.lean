import Scheduling.Proofs.Cancellation
import Scheduling.Proofs.Conservation
import Scheduling.Proofs.Cooldown
/-!
# Panics

Two numbers of the settings can be too large for what is made from them: the number of permits, and
a duration that is added to the clock. The first takes the dispatch loop away at its first move. The
second ends the start call of a worker, which then gives back its permit but neither leaves the
executing plans nor is counted down: for a timeout when an attempt begins, for a rest when one ends.
Nothing else panics.
-/

namespace Scheduling

namespace System

/-- Whether a start call has ended in a panic. -/
def CallStatus.panics : CallStatus → Bool
  | .ended (.panicked _) => true
  | _ => false

variable {y z : System} {e : ExecutorId} {x : Executor} {task : Task} {context : ContextId}

/-! ## Start calls -/

/-- Whether the clock can count to the end of a rest that begins now. -/
def restFits (y : System) (o : ExecutorOptions) : Bool :=
  o.cooldown.all fun cooldown => (Instant.add? y.now cooldown).isSome

/-- Whether the next move of a start call can need an instant that the clock cannot count: the end
of a run when an attempt begins, the end of the rest when its run has ended. -/
def overflows (y : System) (x : Executor) (task : Task) (context : ContextId) : CallPoint → Bool
  | .entered =>
    (x.mayStart task y.now).toBool && !y.contexts.isDone context && !y.fits x.options
  | .running _ _ _ => !task.pending && !y.restFits x.options
  | .pausing _ _ wake _ => decide (wake ≤ y.now) && !y.fits x.options

theorem panics_afterAttempt (y : System) (e : ExecutorId) (x : Executor) (context : ContextId)
    (attempt halt : Nat) (outcome : Outcome) :
    (y.afterAttempt e x context attempt halt outcome).2.panics = false := by
  obtain ⟨-, hmade⟩ | ⟨retry, -, ⟨-, hmade⟩ | ⟨err, -, -, hmade⟩⟩ :=
      afterAttempt_eq y e x context attempt halt outcome <;>
    rw [hmade] <;> rfl

theorem panics_beginAttempt (y : System) (e : ExecutorId) (x : Executor) (context : ContextId)
    (attempt halt : Nat) :
    (y.beginAttempt e x context attempt halt).2.panics = !y.fits x.options := by
  obtain ⟨hnone, hmade⟩ | ⟨c, u, started, v, id, hsome, -, hmade⟩ :=
    beginAttempt_eq y e x context attempt halt
  · rw [hmade, attemptContext_eq_none_iff.1 hnone]
    rfl
  · have hiff : y.attemptContext x context = none ↔ y.fits x.options = false :=
      attemptContext_eq_none_iff
    have hfits : y.fits x.options = true := by
      rw [← Bool.not_eq_false, ← hiff, hsome]
      exact Option.some_ne_none _
    rw [hmade, hfits]
    cases started with
    | true => rfl
    | false => exact panics_afterAttempt _ e x context attempt halt _

theorem panics_endAttempt (y : System) (e : ExecutorId) (x : Executor) (task : Task)
    (context : ContextId) (attempt halt : Nat) (runContext : ContextId) :
    (y.endAttempt e x task context attempt halt runContext).2.panics =
      !y.restFits x.options := by
  have hnow : (y.cancelContext runContext).now = y.now := rfl
  unfold endAttempt restFits
  cases x.options.cooldown with
  | none => exact panics_afterAttempt _ e x context attempt halt _
  | some cooldown =>
      dsimp only
      rw [hnow]
      cases hadd : Instant.add? y.now cooldown with
      | none => simp [CallStatus.panics, hadd]
      | some instant =>
          rw [Option.all_some, hadd]
          exact panics_afterAttempt _ e x context attempt halt _

theorem panics_enter (y : System) (e : ExecutorId) (x : Executor) (task : Task)
    (context : ContextId) :
    (y.enter e x task context).2.panics =
      ((x.mayStart task y.now).toBool && !y.contexts.isDone context && !y.fits x.options) := by
  unfold System.enter
  cases x.mayStart task y.now with
  | error err => rfl
  | ok =>
      rw [← ContextTree.isSome_error?]
      cases y.contexts.error? context with
      | some err => rfl
      | none => exact panics_beginAttempt _ e x.renewHalt context 0 _

/-- A start call can panic in its next move exactly if the clock cannot count far enough. -/
theorem any_panics (hx : y.executors[e]? = some x) (htask : y.tasks[x.task]? = some task)
    (point : CallPoint) :
    ((y.executionMoves e context point).any fun made => made.2.panics) =
      y.overflows x task context point := by
  unfold executionMoves overflows
  rw [hx]
  dsimp only
  rw [htask]
  cases point with
  | entered => simp [panics_enter]
  | running attempt halt runContext =>
      cases hpending : task.pending with
      | true => simp [hpending]
      | false => simp [hpending, panics_endAttempt]
  | pausing attempt halt wake last =>
      have hends : CallStatus.panics (.ended (.returned (.error last))) = false := rfl
      have hretry := panics_beginAttempt y e x context attempt halt
      by_cases hwake : wake ≤ y.now <;> cases y.contexts.isDone context <;>
        cases x.isHalted halt <;> simp [hwake, hends, hretry]

/-! ## Workers -/

variable {allowed : System → Step → Bool} {a : Step} {i : SchedulerId} {j : SessionId}
  {s s' : Scheduler} {n n' : Session} {w : Worker} {choice : Nat}

theorem ReachableBy.worker?_eq (h : y.ReachableBy allowed) (hs : y.schedulers[i]? = some s)
    (hn : s.sessions[j]? = some n) (hw : w ∈ n.workers) : s.worker? j w.executor = some w := by
  cases hfind : s.worker? j w.executor with
  | none =>
      have hnone : n.workers.find? (·.executor == w.executor) = none := by
        simpa [Scheduler.worker?, hn] using hfind
      simpa using List.find?_eq_none.1 hnone w hw
  | some v =>
      have hexecutor := Scheduler.executor_of_worker? hfind
      obtain ⟨n₀, hn₀, hv⟩ := Scheduler.mem_of_worker? hfind
      obtain ⟨-, -, rfl⟩ := h.numbered.worker_eq hs hn hw hs hn₀ hv hexecutor
      rfl

theorem crashesWorker_eq (hs : y.schedulers[i]? = some s)
    (hworker : s.worker? j w.executor = some w) :
    y.crashesWorker i j (.move (.worker i j w.executor) choice) =
      ((y.executionMoves w.executor w.context w.point)[choice]?.any fun made =>
        made.2.panics) := by
  unfold crashesWorker
  simp only [beq_self_eq_true, Bool.true_and, hs, Option.bind_some, hworker]
  cases (y.executionMoves w.executor w.context w.point)[choice]? with
  | none => rfl
  | some made =>
      obtain ⟨u, status⟩ := made
      cases status with
      | «at» point => rfl
      | ended result => cases result <;> rfl

/-- A worker can panic in its next move exactly if the clock cannot count far enough for what the
policies of its plan ask for. -/
theorem ReachableBy.crashesWorker_iff (h : y.ReachableBy allowed)
    (hs : y.schedulers[i]? = some s) (hn : s.sessions[j]? = some n) (hw : w ∈ n.workers)
    (htask : y.tasks[w.plan.task]? = some task) :
    (∃ choice, y.crashesWorker i j (.move (.worker i j w.executor) choice) = true) ↔
      y.overflows (w.plan.executor s.defaults) task w.context w.point = true := by
  obtain ⟨x, hx, hfollows⟩ := h.executor hs hn hw
  have hsame : x.task = w.plan.task := hfollows.task
  have hoptions : x.options = w.plan.options.getD s.defaults := hfollows.options
  have hoverflows : y.overflows (w.plan.executor s.defaults) task w.context w.point =
      y.overflows x task w.context w.point := by
    cases hpoint : w.point with
    | entered =>
        have hrest : x.cooldownUntil = none := by
          rw [hfollows.idle fun hne => hne hpoint]
          rfl
        unfold overflows
        rw [mayStart_of_rested hrest, mayStart_of_rested rfl, hoptions]
        rfl
    | running | pausing =>
        unfold overflows
        rw [hoptions]
        rfl
  have hmoves : ((y.executionMoves w.executor w.context w.point).any fun made =>
      made.2.panics) = y.overflows x task w.context w.point :=
    any_panics hx (hsame ▸ htask) w.point
  rw [hoverflows, ← hmoves, List.any_eq_true]
  simp only [crashesWorker_eq hs (h.worker?_eq hs hn hw)]
  constructor
  · rintro ⟨choice, hchoice⟩
    obtain ⟨made, hmade, hpanics⟩ := (Option.any_eq_true _ _).1 hchoice
    exact ⟨made, List.mem_of_getElem? hmade, hpanics⟩
  · rintro ⟨made, hmade, hpanics⟩
    obtain ⟨choice, hchoice⟩ := List.mem_iff_getElem?.1 hmade
    exact ⟨choice, (Option.any_eq_true _ _).2 ⟨made, hchoice, hpanics⟩⟩

/-- A worker leaves only in a move of its own. -/
theorem actor_of_gone (hz : y.step? a = some z) (hs : y.schedulers[i]? = some s)
    (hn : s.sessions[j]? = some n) (hs' : z.schedulers[i]? = some s')
    (hn' : s'.sessions[j]? = some n') (hw : w ∈ n.workers)
    (hgone : ∀ w' ∈ n'.workers, w'.executor ≠ w.executor) :
    ∃ choice, a = .move (.worker i j w.executor) choice := by
  obtain ⟨s₁, n₁, hs₁, hn₁, -, rfl | hchange⟩ := change_of_session hz hs hn
  · obtain rfl := Option.some.inj (hs₁.symm.trans hs')
    obtain rfl := Option.some.inj (hn₁.symm.trans hn')
    exact absurd rfl (hgone w hw)
  obtain rfl := Option.some.inj (hs₁.symm.trans hs')
  obtain rfl := Option.some.inj (hn₁.symm.trans hn')
  have hleft {v : Worker} (hv : ∀ w' ∈ n.workers.filter (·.executor ≠ v.executor),
      w'.executor ≠ w.executor) : v.executor = w.executor := by
    by_contra hne
    refine hv w (List.mem_filter.2 ⟨hw, ?_⟩) rfl
    exact decide_eq_true fun heq => hne heq.symm
  generalize s₁.stores = x at hchange
  cases hchange with
  | endWorker _ ha | crashWorker _ _ ha =>
      rw [← hleft hgone]
      exact ha.actor
  | enter => exact absurd rfl (hgone w (List.mem_append_left _ hw))
  | @work v point =>
      refine absurd ?_ (hgone _ (List.mem_map_of_mem hw))
      split <;> rfl
  | _ => exact absurd rfl (hgone w hw)

/-- A worker that leaves gives its permit back. Only if it does not panic it also leaves the
executing plans and is counted down. -/
theorem ReachableBy.worker_leaves (h : y.ReachableBy allowed) (hz : y.step? a = some z)
    (hs : y.schedulers[i]? = some s) (hn : s.sessions[j]? = some n)
    (hs' : z.schedulers[i]? = some s') (hn' : s'.sessions[j]? = some n') (hw : w ∈ n.workers)
    (hgone : ∀ w' ∈ n'.workers, w'.executor ≠ w.executor) :
    n'.permits = n.permits + 1 ∧
      if y.crashesWorker i j a then s'.executing = s.executing ∧ n'.inFlight = n.inFlight
      else s'.executing = s.executing.erase w.key ∧ n'.inFlight + 1 = n.inFlight := by
  obtain ⟨choice, rfl⟩ := actor_of_gone hz hs hn hs' hn' hw hgone
  have hworker := h.worker?_eq hs hn hw
  obtain ⟨s₀, v, u, status, hs₀, hv, hmade, hmove⟩ := workerMove_of_getElem? hz
  obtain rfl := Option.some.inj (hs.symm.trans hs₀)
  obtain rfl := Option.some.inj (hworker.symm.trans hv)
  have hu : u.schedulers[i]? = some s := by
    rw [(works_of_mem_executionMoves (List.mem_of_getElem? hmade)).schedulers]
    exact hs
  rw [crashesWorker_eq hs hworker, hmade, Option.any_some]
  cases hmove with
  | @goOn point hbegun =>
      obtain rfl := Option.some.inj ((getElem?_setScheduler hu _).symm.trans hs')
      have hedit : s.Edits (s.workerAt j w.executor point) j n _ := .once hn rfl
      obtain rfl := Option.some.inj (hedit.after.symm.trans hn')
      refine absurd ?_ (hgone _ (List.mem_map_of_mem hw))
      split <;> rfl
  | returns =>
      obtain rfl := Option.some.inj ((getElem?_setScheduler hu _).symm.trans hs')
      obtain rfl := Option.some.inj ((Scheduler.Edits.endWorker hn).after.symm.trans hn')
      have hpos := (Session.countsSafely_of_length_le (h.load_length_le hs hn)).working w hw
      refine ⟨rfl, rfl, ?_⟩
      dsimp only
      omega
  | panics =>
      obtain rfl := Option.some.inj ((getElem?_setScheduler hu _).symm.trans hs')
      have hedit : s.Edits (s.crashWorker j w) j n _ := .twice hn rfl
      obtain rfl := Option.some.inj (hedit.after.symm.trans hn')
      exact ⟨rfl, rfl, rfl⟩

/-! ## Sessions -/

/-- A dispatch loop has panicked exactly if there are too many permits to make and it has made its
first move. -/
theorem ReachableBy.crashed_iff (h : y.ReachableBy allowed) (hs : y.schedulers[i]? = some s)
    (hn : s.sessions[j]? = some n) :
    n.dispatch = .crashed ↔
      n.dispatch ≠ .opening ∧ Scheduler.permitLimit < s.maxConcurrency := by
  have haccounts := h.accounts hs hn
  constructor
  · intro hcrashed
    refine ⟨fun hopening => ?_, (haccounts.crashed hcrashed).1⟩
    rw [hcrashed] at hopening
    cases hopening
  · rintro ⟨hopening, hmax⟩
    by_contra hcrashed
    exact Nat.not_le_of_lt hmax (haccounts.opened hopening hcrashed).1

/-- The dispatch loop of a session panics at its first move exactly if there are too many permits to
make, and no loop or worker counts below zero. A worker, whose plan is executing, can panic exactly
if the clock cannot count to the end of a run that it is about to begin or of a rest that it is
about to set. When a worker is gone its permit is free again; its plan has left the executing ones
and is counted down exactly if it has not panicked. -/
theorem panics_iff (h : y.Reachable) (hs : y.schedulers[i]? = some s)
    (hn : s.sessions[j]? = some n) :
    (n.dispatch = .crashed ↔
        n.dispatch ≠ .opening ∧ Scheduler.permitLimit < s.maxConcurrency) ∧
      n.CountsSafely ∧
      ∀ w ∈ n.workers, s.executing.contains w.key = true ∧
        ∃ task, y.tasks[w.plan.task]? = some task ∧
          ((∃ choice, y.crashesWorker i j (.move (.worker i j w.executor) choice) = true) ↔
            y.overflows (w.plan.executor s.defaults) task w.context w.point = true) ∧
          ∀ (a : Step) (z : System) (s' : Scheduler) (n' : Session), y.step? a = some z →
            z.schedulers[i]? = some s' → s'.sessions[j]? = some n' →
            (∀ w' ∈ n'.workers, w'.executor ≠ w.executor) →
              n'.permits = n.permits + 1 ∧
                if y.crashesWorker i j a then
                  s'.executing = s.executing ∧ n'.inFlight = n.inFlight
                else s'.executing = s.executing.erase w.key ∧ n'.inFlight + 1 = n.inFlight := by
  refine ⟨h.crashed_iff hs hn, Session.countsSafely_of_length_le (h.load_length_le hs hn),
    fun w hw => ?_⟩
  obtain ⟨task, htask, -⟩ := h.task_of_worker hs hn hw
  have hkey : w.key ∈ s.workerKeys := Scheduler.mem_workerKeys.2 ⟨j, n, w, hn, hw, rfl⟩
  exact ⟨(h.lists hs).mem _ hkey, task, htask, h.crashesWorker_iff hs hn hw htask,
    fun a z s' n' hz hs' hn' hgone => h.worker_leaves hz hs hn hs' hn' hw hgone⟩

/-- After its runs a task is to rest for longer than the clock can tell. -/
def endlessRest : ExecutorOptions := { cooldown := some (Duration.ofSeconds (2 ^ 64 - 1)) }

/-- A plan whose task is to rest so long has run, which its worker has not seen. -/
def endlessRestSteps : List Step := attemptSteps endlessRest ++ bodySteps 0

theorem panics_iff_endlessRestSteps :
    ∃ (s : Scheduler) (n : Session) (w : Worker) (task : Task),
      (after endlessRestSteps).Reachable ∧ (after endlessRestSteps).schedulers[0]? = some s ∧
        s.sessions[0]? = some n ∧ w ∈ n.workers ∧ s.executing.contains w.key = true ∧
        (after endlessRestSteps).tasks[w.plan.task]? = some task ∧
        (after endlessRestSteps).overflows (w.plan.executor s.defaults) task w.context w.point =
          true ∧
        ∃ choice, (after endlessRestSteps).crashesWorker 0 0
          (.move (.worker 0 0 w.executor) choice) = true := by
  have hrun : (after endlessRestSteps).anyWorker 0 0 (fun s w =>
      (after endlessRestSteps).tasks[w.plan.task]?.any fun task =>
        (after endlessRestSteps).overflows (w.plan.executor s.defaults) task w.context w.point) =
      true := by
    decide +kernel
  have hreach : (after endlessRestSteps).Reachable := reachable_after _
  generalize after endlessRestSteps = y at hrun hreach ⊢
  obtain ⟨s, n, w, hs, hn, hw, hrun⟩ := of_anyWorker hrun
  obtain ⟨task, htask, hoverflows⟩ := (Option.any_eq_true _ _).1 hrun
  obtain ⟨-, -, hworkers⟩ := panics_iff hreach hs hn
  obtain ⟨hexecuting, task', htask', hpanics, -⟩ := hworkers w hw
  obtain rfl := Option.some.inj (htask.symm.trans htask')
  exact ⟨s, n, w, task, hreach, hs, hn, hw, hexecuting, htask, hoverflows,
    hpanics.2 hoverflows⟩

/-- The policies of the plan and the settings of the scheduler are accepted, but in its next move
the worker panics. Then nothing runs any more, and the plan still executes and is counted as in
flight. -/
theorem stays_executing_endlessRestSteps :
    endlessRest.validate = .ok () ∧
      (∃ s, (⟨1, .localTime, {}⟩ : Blueprint).build = .ok s) ∧
      (after endlessRestSteps).crashesWorker 0 0 (.move (.worker 0 0 0) 0) = true ∧
      ∃ (s : Scheduler) (n : Session),
        (after (endlessRestSteps ++ [.move (.worker 0 0 0) 0])).schedulers[0]? = some s ∧
          s.sessions[0]? = some n ∧ n.workers = [] ∧ n.permits = 1 ∧
          (after (endlessRestSteps ++ [.move (.worker 0 0 0) 0])).runs.entries = [] ∧
          s.executing.keys = ["a"] ∧ n.inFlight = 1 := by
  have hrun : ((after (endlessRestSteps ++ [.move (.worker 0 0 0) 0])).schedulers[0]?.any fun s =>
      s.sessions[0]?.any fun n => n.workers.isEmpty && n.permits == 1 &&
        (after (endlessRestSteps ++ [.move (.worker 0 0 0) 0])).runs.isEmpty &&
        s.executing.keys == ["a"] && n.inFlight == 1) = true := by
    decide +kernel
  refine ⟨rfl, ⟨_, rfl⟩, by decide +kernel, ?_⟩
  obtain ⟨s, hs, hrun⟩ := (Option.any_eq_true _ _).1 hrun
  obtain ⟨n, hn, hrun⟩ := (Option.any_eq_true _ _).1 hrun
  simp only [Bool.and_eq_true, beq_iff_eq, List.isEmpty_iff, Registry.isEmpty] at hrun
  obtain ⟨⟨⟨⟨hworkers, hpermits⟩, hruns⟩, hkeys⟩, hcount⟩ := hrun
  exact ⟨s, n, hs, hn, hworkers, hpermits, hruns, hkeys, hcount⟩

end System

end Scheduling
