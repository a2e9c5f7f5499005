import Scheduling.Proofs.Histories
import Scheduling.Proofs.Turns
/-!
# The states of a task

A task is pending from a start that is granted to the end of its run. In that time it has one run in
progress, whose body begins once; it is cancelled if a cancel call is granted, and otherwise ends as
its body does. The state of a task says which of its fields are set.
-/

namespace Scheduling

/-- The ways in which the state of a task may change. -/
inductive State.Leads : State → State → Prop
  | starts : Leads .created .running
  | cancels : Leads .running .canceling
  | succeeds : Leads .running .succeeded
  | fails : Leads .running .failed
  | ends : Leads .canceling .canceled
  | restarts {s : State} (h : s.isTerminal = true) : Leads s .running

/-- The fields of a task are those that its state calls for. -/
structure Task.Fits (task : Task) : Prop where
  runContext : task.runContext.isSome = task.state.isPending
  pending : task.pending = task.state.isPending
  startedAt : task.startedAt = none ↔ task.state = .created
  endedAt : task.endedAt.isSome = task.state.isTerminal
  error : task.error.isSome = true ↔ task.state = .failed ∨ task.state = .canceled

/-- Whether the body of a run has not begun. -/
def RunPoint.isLaunched : RunPoint → Bool
  | launched => true
  | _ => false

namespace System

variable {y z : System} {a : Step} {t : TaskId} {task task' : Task} {r : RunId}
  {run later : Run}

/-! ## Fields -/

theorem Turn.fits (h : y.Turn a z t task task') (hy : y.Tracked)
    (htask : y.tasks[t]? = some task) (hfits : task.Fits) : task'.Fits := by
  cases h with
  | yields h =>
      obtain rfl | ⟨hrunning, rfl⟩ := h
      · exact hfits
      · obtain ⟨hcontext, hpending, hstarted, hended, herror⟩ := hfits
        rw [hrunning] at hcontext hpending hstarted hended herror
        exact ⟨hcontext, hpending, by simpa using hstarted, hended, by simpa using herror⟩
  | begins => exact ⟨rfl, rfl, by simp [Task.begin], rfl, by simp [Task.begin]⟩
  | launches => exact ⟨hfits.runContext, hfits.pending, hfits.startedAt, hfits.endedAt, hfits.error⟩
  | reports _ _ h =>
      obtain ⟨_, _, rfl⟩ := h
      exact ⟨hfits.runContext, hfits.pending, hfits.startedAt, hfits.endedAt, hfits.error⟩
  | @finishes _ _ outcome err now hrun ht =>
      have hpending := hy.isPending hrun ht htask
      obtain ⟨hterminal, herror⟩ := task.finish_state outcome err now
      have hidle := State.isPending_eq_false_of_isTerminal hterminal
      have hnone : task.startedAt = none ↔ (task.finish outcome err now).state = .created := by
        refine iff_of_false (fun hnone => ?_) fun hcreated => ?_
        · rw [hfits.startedAt.1 hnone] at hpending
          cases hpending
        · rw [hcreated] at hterminal
          cases hterminal
      refine ⟨hidle.symm, hidle.symm, hnone, hterminal.symm, ?_⟩
      rw [← Option.ne_none_iff_isSome, Ne, herror]
      generalize (task.finish outcome err now).state = s at hterminal
      cases s with
      | succeeded | failed | canceled => decide
      | _ => cases hterminal

theorem Turn.leads (h : y.Turn a z t task task') (hy : y.Tracked)
    (htask : y.tasks[t]? = some task) :
    task'.state = task.state ∨ task.state.Leads task'.state := by
  cases h with
  | yields h =>
      obtain rfl | ⟨hrunning, rfl⟩ := h
      · exact .inl rfl
      · rw [hrunning]
        exact .inr .cancels
  | begins _ hidle =>
      right
      show task.state.Leads .running
      cases hstate : task.state with
      | created => exact .starts
      | succeeded | failed | canceled => exact .restarts rfl
      | running | canceling =>
          rw [hstate] at hidle
          cases hidle
  | launches => exact .inl rfl
  | reports _ _ h => exact .inl h.state
  | @finishes _ _ outcome err now hrun ht =>
      have hpending := hy.isPending hrun ht htask
      right
      unfold Task.finish Task.endState
      cases hstate : task.state with
      | running =>
          cases outcome with
          | ok => exact .succeeds
          | error => exact .fails
      | canceling => cases outcome <;> exact .ends
      | _ =>
          rw [hstate] at hpending
          cases hpending

theorem ReachableBy.fits {allowed : System → Step → Bool} (h : y.ReachableBy allowed)
    (htask : y.tasks[t]? = some task) : task.Fits := by
  induction h generalizing task with
  | create origin => simp [System.create] at htask
  | @step u _ _ hu _ hz ih =>
      cases hbefore : u.tasks[t]? with
      | none =>
          obtain ⟨_, _, _, _, rfl⟩ := (deed_of_step hz).added hbefore htask
          exact ⟨rfl, rfl, iff_of_true rfl rfl, rfl, by simp [Task.create, default]⟩
      | some before =>
          obtain ⟨task', htask', hturn⟩ := (deed_of_step hz).turn hbefore
          obtain rfl := Option.some.inj (htask'.symm.trans htask)
          exact hturn.fits hu.tracked hbefore (ih hbefore)

/-! ## Cancel calls -/

theorem tasks_cancelTask_of_ne {t' : TaskId} (h : t' ≠ t) (y : System) :
    (y.cancelTask t').2.tasks[t]? = y.tasks[t]? := by
  have hmodify {f : Task → Task} : (y.tasks.modify t' f)[t]? = y.tasks[t]? := by
    rw [Array.getElem?_modify, if_neg h]
  obtain ⟨-, hmade⟩ | ⟨_, -, -, ⟨-, hmade⟩ | ⟨_, -, hmade⟩⟩ := cancelTask_cases y t' <;> rw [hmade]
  · exact hmodify
  · exact hmodify

/-- A running task that is found canceling after some cancel calls was granted one of them. -/
theorem Stops.granted (h : y.Stops z) (hrunning : y.state t = .running)
    (hcanceling : z.state t = .canceling) :
    ∃ u v, y.Stops u ∧ u.state t = .running ∧ u.cancelTask t = (true, v) ∧ v.Stops z := by
  induction h with
  | rests h =>
      rw [state, h.tasks, ← state, hrunning] at hcanceling
      cases hcanceling
  | @cancels y u z hu t' h ih =>
      have hrunning' : u.state t = .running := by
        rw [state, hu.tasks, ← state, hrunning]
      by_cases ht : t' = t
      · subst ht
        obtain ⟨hne, -⟩ | ⟨_, -, -, ⟨-, hmade⟩ | ⟨_, -, hmade⟩⟩ := cancelTask_cases u t'
        · exact absurd hrunning' hne
        · rw [hmade] at h
          exact ⟨u, _, hu.stops, hrunning', hmade, h⟩
        · rw [hmade] at h
          exact ⟨u, _, hu.stops, hrunning', hmade, h⟩
      · have hkept : (u.cancelTask t').2.state t = .running := by
          rw [state, tasks_cancelTask_of_ne ht, ← state, hrunning']
        obtain ⟨v, w, hv, hrest⟩ := ih hkept hcanceling
        exact ⟨v, w, .cancels hu t' hv, hrest⟩

theorem Stops.of_granted {u v : System} (hu : y.Stops u) (hv : u.cancelTask t = (true, v))
    (hz : v.Stops z) : y.state t = .running ∧ z.state t = .canceling := by
  obtain ⟨-, hmade⟩ | ⟨task, htask, hrunning, hmade⟩ := cancelTask_cases u t
  · rw [hmade] at hv
    cases hv
  · have hmodify {w : System}
        (hw : w.tasks = u.tasks.modify t fun task => { task with state := .canceling }) :
        w.state t = .canceling := by
      rw [state, hw, Array.getElem?_modify, if_pos rfl, htask]
      rfl
    have hv' : v.state t = .canceling := by
      obtain ⟨-, hmade⟩ | ⟨_, -, hmade⟩ := hmade <;> rw [hmade] at hv <;> cases hv <;>
        exact hmodify rfl
    rw [← state_eq htask] at hrunning
    refine ⟨?_, ?_⟩
    · obtain hsame | ⟨-, hcanceling⟩ := hu.state_cases t
      · exact hsame.symm.trans hrunning
      · rw [hrunning] at hcanceling
        cases hcanceling
    · obtain hsame | ⟨hrunning', -⟩ := hz.state_cases t
      · exact hsame.trans hv'
      · rw [hv'] at hrunning'
        cases hrunning'

/-- The context of a run is done once the run is cancelled. -/
theorem Stops.isDone {c : ContextId} (h : y.Stops z) (htask : y.tasks[t]? = some task)
    (hrunning : task.state = .running) (hcanceling : z.state t = .canceling)
    (hc : task.runContext = some c) (hself : c ∈ y.contexts.lineage c) :
    z.contexts.isDone c = true := by
  obtain ⟨u, v, hu, hrunning', hv, hz⟩ := h.granted ((state_eq htask).trans hrunning) hcanceling
  obtain ⟨task', htask', hyields⟩ := hu.tasks.some htask
  have hc' : task'.runContext = some c := by
    obtain rfl | ⟨-, rfl⟩ := hyields <;> exact hc
  have hcancel : v.contexts = u.contexts.cancel c := by
    obtain ⟨hne, -⟩ | ⟨task'', htask'', -, ⟨hnone, -⟩ | ⟨c', hsome, hmade⟩⟩ := cancelTask_cases u t
    · exact absurd hrunning' hne
    · obtain rfl := Option.some.inj (htask''.symm.trans htask')
      rw [hc'] at hnone
      cases hnone
    · obtain rfl := Option.some.inj (htask''.symm.trans htask')
      obtain rfl := Option.some.inj (hsome.symm.trans hc')
      rw [hmade] at hv
      cases hv
      rfl
  refine hz.contexts.isDone ?_
  rw [hcancel]
  exact ContextTree.isDone_cancel_self (hu.contexts.mem_lineage hself)

/-! ## Runs in progress -/

/-- What a step makes of a run in progress and of its task. -/
inductive Fate (y z : System) (run : Run) (task : Task) : Option Run → Task → Prop
  | rests {task' : Task} (h : y.Stops z) (hyields : task.Yields task') :
      Fate y z run task (some run) task'
  | begins {run' : Run} (hpoint : run.point = .launched)
      (hpoint' : run'.point = .acting (task.body task.runs)) (hsame : run'.task = run.task)
      (hcontext : run'.context = run.context) :
      Fate y z run task (some run') { task with runs := task.runs + 1 }
  | acts {point : RunPoint} {task' : Task} (hpoint : run.point ≠ .launched)
      (hpoint' : point ≠ .launched) (hopen : ∀ outcome, run.point ≠ .ended outcome)
      (hreaches : y.Reaches run point) (h : task.Reports task') :
      Fate y z run task (some { run with point := point }) task'
  | goesOn : Fate y z run task (some run) task
  | ends {outcome : Outcome} (hpoint : run.point = .ended outcome) :
      Fate y z run task none
        (task.finish outcome (y.contexts.error? run.context) y.clock.wall)

theorem Deed.fate (h : y.Deed a z) (hy : y.Tracked) (hfresh : r < y.nextRun)
    (hrun : y.runs.get? r = some run) (htask : y.tasks[run.task]? = some task) :
    ∃ task', z.tasks[run.task]? = some task' ∧ y.Fate z run task (z.runs.get? r) task' := by
  have hother {r' : RunId} {run' : Run} (hrun' : y.runs.get? r' = some run') (hne : r' ≠ r) :
      run'.task ≠ run.task := fun hsame => hne (hy.unique hrun' hrun hsame)
  have hmodify {t' : TaskId} {f : Task → Task} (htasks : z.tasks = y.tasks.modify t' f)
      (hne : t' ≠ run.task) : z.tasks[run.task]? = some task := by
    rw [htasks, Array.getElem?_modify, if_neg hne, htask]
  have hmodify' {f : Task → Task} (htasks : z.tasks = y.tasks.modify run.task f) :
      z.tasks[run.task]? = some (f task) := by
    rw [htasks, Array.getElem?_modify, if_pos rfl, htask]
    rfl
  cases h with
  | stops h =>
      obtain ⟨task', htask', hyields⟩ := h.tasks.some htask
      rw [h.runs, hrun]
      exact ⟨task', htask', .rests h hyields⟩
  | adds htasks hruns =>
      obtain ⟨hlt, hget⟩ := Array.getElem?_eq_some_iff.1 htask
      refine ⟨task, ?_, ?_⟩
      · rw [htasks, Array.getElem?_push_lt hlt, hget]
      · rw [hruns, hrun]
        exact .goesOn
  | @begins t' task₀ _ htask₀ hidle h =>
      obtain ⟨c, htasks, hruns, -, -⟩ := h.effects
      have hne : t' ≠ run.task := fun hsame => by
        rw [hy.isPending hrun hsame.symm htask₀] at hidle
        cases hidle
      refine ⟨task, hmodify htasks hne, ?_⟩
      rw [hruns, Registry.get?_insert, if_neg (Nat.ne_of_lt hfresh), hrun]
      exact .goesOn
  | @launches r' run₀ run' hrun₀ hpoint hsame hpoint' htasks hruns _ hcontext hbody =>
      by_cases hr : r' = r
      · subst hr
        obtain rfl := Option.some.inj (hrun₀.symm.trans hrun)
        obtain ⟨task₀, htask₀, hbody⟩ := hbody
        obtain rfl := Option.some.inj (htask₀.symm.trans htask)
        refine ⟨_, hmodify' htasks, ?_⟩
        rw [hruns, Registry.get?_insert, if_pos rfl]
        exact .begins hpoint hbody hsame hcontext
      · refine ⟨task, hmodify htasks (hother hrun₀ hr), ?_⟩
        rw [hruns, Registry.get?_insert, if_neg fun h => hr h.symm, hrun]
        exact .goesOn
  | @acts r' run₀ point hrun₀ hpoint hpoint' htasks hruns _ hopen hreaches =>
      obtain ⟨f, hf, htasks⟩ := htasks
      by_cases hr : r' = r
      · subst hr
        obtain rfl := Option.some.inj (hrun₀.symm.trans hrun)
        refine ⟨_, hmodify' htasks, ?_⟩
        rw [hruns, Registry.get?_modify, if_pos rfl, hrun]
        exact .acts hpoint hpoint' hopen hreaches (hf task)
      · refine ⟨task, hmodify htasks (hother hrun₀ hr), ?_⟩
        rw [hruns, Registry.get?_modify, if_neg fun h => hr h.symm, hrun]
        exact .goesOn
  | @finishes r' run₀ outcome hrun₀ hpoint htasks hruns =>
      by_cases hr : r' = r
      · subst hr
        obtain rfl := Option.some.inj (hrun₀.symm.trans hrun)
        refine ⟨_, hmodify' htasks, ?_⟩
        rw [hruns, Registry.get?_erase, if_pos rfl]
        exact .ends hpoint
      · refine ⟨task, hmodify htasks (hother hrun₀ hr), ?_⟩
        rw [hruns, Registry.get?_erase, if_neg fun h => hr h.symm, hrun]
        exact .goesOn

theorem Fate.runContext {run' : Option Run} (h : y.Fate z run task run' task')
    (hpending : task'.state.isPending = true) :
    ∃ later, run' = some later ∧ later.task = run.task ∧ later.context = run.context ∧
      task'.runContext = task.runContext := by
  cases h with
  | rests _ hyields =>
      obtain rfl | ⟨-, rfl⟩ := hyields <;> exact ⟨run, rfl, rfl, rfl, rfl⟩
  | begins _ _ hsame hcontext => exact ⟨_, rfl, hsame, hcontext, rfl⟩
  | acts _ _ _ _ h =>
      obtain ⟨_, _, rfl⟩ := h
      exact ⟨_, rfl, rfl, rfl, rfl⟩
  | goesOn => exact ⟨run, rfl, rfl, rfl, rfl⟩
  | @ends outcome _ =>
      have hterminal := (task.finish_state outcome (y.contexts.error? run.context) y.clock.wall).1
      rw [State.isPending_eq_false_of_isTerminal hterminal] at hpending
      cases hpending

/-- The run in progress of a task has a context of its own, which is done once the task is
cancelled. -/
structure Carries (y : System) (task : Task) (r : RunId) (run : Run) : Prop where
  inProgress : y.runs.get? r = some run
  context : task.runContext = some run.context
  self : run.context ∈ y.contexts.lineage run.context
  done : task.state = .canceling → y.contexts.isDone run.context = true

/-- Every pending task has a run in progress. -/
structure Manned (y : System) : Prop where
  fresh : ∀ {r : RunId} {run : Run}, y.runs.get? r = some run → r < y.nextRun
  carries : ∀ {t : TaskId} {task : Task}, y.tasks[t]? = some task → task.state.isPending = true →
    ∃ r run, run.task = t ∧ y.Carries task r run

theorem Deed.nextRun_cases (h : y.Deed a z) :
    z.nextRun = y.nextRun ∨ ∃ t, y.Launches t z := by
  cases h with
  | stops h => exact .inl h.nextRun
  | begins _ _ _ h => exact .inr ⟨_, h⟩
  | adds _ _ hnext | launches _ _ _ _ _ _ hnext | acts _ _ _ _ _ hnext
  | finishes _ _ _ _ hnext => exact .inl hnext

theorem Deed.nextRun_le (h : y.Deed a z) : y.nextRun ≤ z.nextRun := by
  obtain hsame | ⟨t, h⟩ := h.nextRun_cases
  · exact Nat.le_of_eq hsame.symm
  · obtain ⟨c, -, -, hnext, -⟩ := h.effects
    exact hnext ▸ Nat.le_succ _

/-- A run that was not in progress before a step has just been started. -/
theorem Deed.started (h : y.Deed a z) (hnone : y.runs.get? r = none)
    (hrun : z.runs.get? r = some run) :
    r = y.nextRun ∧ y.Launches run.task z ∧ ∃ task, y.tasks[run.task]? = some task := by
  obtain ⟨before, hbefore, -⟩ | ⟨hr, -, hlaunches, task, htask, -⟩ := h.run hrun
  · rw [hnone] at hbefore
    cases hbefore
  · exact ⟨hr, hlaunches, task, htask⟩

theorem Launches.task_begin (h : y.Launches t z) (htask : y.tasks[t]? = some task) :
    ∃ c, z.tasks[t]? = some (task.begin c y.clock.wall) ∧
      z.runs.get? y.nextRun = some ⟨t, 0, c, .launched⟩ ∧ c ∈ z.contexts.lineage c := by
  obtain ⟨c, htasks, hruns, -, hself⟩ := h.effects
  refine ⟨c, ?_, ?_, hself⟩
  · rw [htasks, Array.getElem?_modify, if_pos rfl, htask]
    rfl
  · rw [hruns, Registry.get?_insert, if_pos rfl]

/-- A run goes on with its task until it ends. -/
theorem Carries.deed (hc : y.Carries task r run) (h : y.Deed a z) (hy : y.Tracked)
    (hfresh : r < y.nextRun) (hgrows : y.contexts.Grows z.contexts)
    (htask : y.tasks[run.task]? = some task) (htask' : z.tasks[run.task]? = some task')
    (hpending : task'.state.isPending = true) :
    ∃ later, later.task = run.task ∧ z.Carries task' r later := by
  obtain ⟨task'', htask'', hfate⟩ := h.fate hy hfresh hc.inProgress htask
  obtain rfl := Option.some.inj (htask''.symm.trans htask')
  obtain ⟨later, hlater, hsame, hcontext, hrunContext⟩ := hfate.runContext hpending
  refine ⟨later, hsame, hlater, ?_, ?_, fun hcanceling => ?_⟩
  · rw [hrunContext, hcontext, hc.context]
  · rw [hcontext]
    exact hgrows.mem_lineage hc.self
  · rw [hcontext]
    rw [hlater] at hfate
    have hbefore : task.state = .canceling ∨ task.state = .running ∧ y.Stops z := by
      cases hfate with
      | rests h hyields =>
          obtain rfl | ⟨hrunning, rfl⟩ := hyields
          · exact .inl hcanceling
          · exact .inr ⟨hrunning, h⟩
      | begins | goesOn => exact .inl hcanceling
      | acts _ _ _ _ h => exact .inl (h.state ▸ hcanceling)
    obtain hbefore | ⟨hrunning, hstops⟩ := hbefore
    · exact hgrows.isDone (hc.done hbefore)
    · exact hstops.isDone htask hrunning ((state_eq htask').trans hcanceling) hc.context hc.self

theorem Manned.deed (hm : y.Manned) (h : y.Deed a z) (hy : y.Tracked)
    (hgrows : y.contexts.Grows z.contexts) : z.Manned where
  fresh {r run} hrun := by
    obtain ⟨before, hbefore, -⟩ | ⟨rfl, -, hlaunches, -⟩ := h.run hrun
    · exact Nat.lt_of_lt_of_le (hm.fresh hbefore) h.nextRun_le
    · obtain ⟨c, -, -, hnext, -⟩ := hlaunches.effects
      exact hnext ▸ Nat.lt_succ_self _
  carries {t task'} htask' hpending' := by
    cases htask : y.tasks[t]? with
    | none =>
        obtain ⟨_, _, _, _, rfl⟩ := h.added htask htask'
        cases hpending'
    | some task =>
        cases hpending : task.state.isPending with
        | true =>
            obtain ⟨r, run, rfl, hc⟩ := hm.carries htask hpending
            obtain ⟨later, hsame, hlater⟩ :=
              hc.deed h hy (hm.fresh hc.inProgress) hgrows htask htask' hpending'
            exact ⟨r, later, hsame, hlater⟩
        | false =>
            obtain ⟨task'', htask'', hturn⟩ := h.turn htask
            obtain rfl := Option.some.inj (htask''.symm.trans htask')
            obtain ⟨-, hlaunches⟩ := hturn.launched hy htask hpending hpending'
            obtain ⟨c, hbegin, hrun, hself⟩ := hlaunches.task_begin htask
            obtain rfl := Option.some.inj (hbegin.symm.trans htask')
            exact ⟨_, _, rfl, hrun, rfl, hself, nofun⟩

theorem ReachableBy.manned {allowed : System → Step → Bool} (h : y.ReachableBy allowed) :
    y.Manned := by
  induction h with
  | create origin => exact ⟨nofun, fun htask => by simp [System.create] at htask⟩
  | step hu _ hz ih => exact ih.deed (deed_of_step hz) hu.tracked (proceeds_of_step hz).contexts

/-! ## The story of a run -/

/-- What befalls a run. -/
inductive RunEvent
  /-- A start call is granted. -/
  | started
  /-- The body begins. -/
  | begun
  /-- A cancel call is granted. -/
  | cancelled
  /-- The task is told the outcome. -/
  | ended
deriving DecidableEq

/-- What is seen of a run in a step. -/
def seeRun (r : RunId) (y : System) (_ : Step) (z : System) : List RunEvent :=
  match y.runs.get? r, z.runs.get? r with
  | none, none => []
  | none, some _ => [.started]
  | some _, none => [.ended]
  | some run, some run' =>
    (if run.point.isLaunched && !run'.point.isLaunched then [.begun] else []) ++
      if y.state run.task = .running ∧ z.state run.task = .canceling then [.cancelled] else []

/-- What was seen of a run, as far as it has come. -/
inductive Story (y : System) (r : RunId) : List RunEvent → Prop
  | unborn (h : y.nextRun ≤ r) : Story y r []
  | lasts {run : Run} {task : Task} {seen : List RunEvent} (hrun : y.runs.get? r = some run)
      (htask : y.tasks[run.task]? = some task) (hstarted : seen.count .started = 1)
      (hbegun : seen.count .begun = if run.point.isLaunched then 0 else 1)
      (hcancelled : seen.count .cancelled = if task.state = .canceling then 1 else 0)
      (hended : seen.count .ended = 0) : Story y r seen
  | past {seen : List RunEvent} (hr : r < y.nextRun) (hnone : y.runs.get? r = none)
      (hstarted : seen.count .started = 1) (hbegun : seen.count .begun = 1)
      (hended : seen.count .ended = 1) : Story y r seen

theorem isLaunched_eq_false {point : RunPoint} (h : point ≠ .launched) :
    point.isLaunched = false := by
  cases point with
  | launched => exact absurd rfl h
  | _ => rfl

theorem count_guarded (e e' : RunEvent) (h : e' ≠ e) (c : Prop) [Decidable c] :
    (if c then [e'] else []).count e = 0 := by
  split
  · exact List.count_eq_zero_of_not_mem fun hmem => h (List.mem_singleton.1 hmem).symm
  · rfl

/-- The story of a run in progress goes on with a step that does not end the run. -/
theorem story_append {seen : List RunEvent} (hrun : y.runs.get? r = some run)
    (htask : y.tasks[run.task]? = some task) (hstarted : seen.count .started = 1)
    (hbegun : seen.count .begun = if run.point.isLaunched then 0 else 1)
    (hcancelled : seen.count .cancelled = if task.state = .canceling then 1 else 0)
    (hended : seen.count .ended = 0) (hlater : z.runs.get? r = some later)
    (hsame : later.task = run.task) (htask' : z.tasks[run.task]? = some task')
    (hpoint : run.point.isLaunched = false → later.point.isLaunched = false)
    (hstate : task'.state = task.state ∨ task.state = .running ∧ task'.state = .canceling) :
    z.Story r (seen ++ seeRun r y a z) := by
  unfold seeRun
  rw [hrun, hlater]
  dsimp only
  rw [state_eq htask, state_eq htask']
  refine .lasts hlater (hsame ▸ htask') ?_ ?_ ?_ ?_ <;> rw [List.count_append, List.count_append]
  · rw [hstarted, count_guarded .started .begun nofun, count_guarded .started .cancelled nofun]
  · rw [hbegun, count_guarded .begun .cancelled nofun]
    cases hlaunched : run.point.isLaunched with
    | true => cases later.point.isLaunched <;> rfl
    | false =>
        rw [hpoint hlaunched]
        rfl
  · rw [hcancelled, count_guarded .cancelled .begun nofun]
    obtain hkept | ⟨hrunning, hcanceling⟩ := hstate
    · rw [hkept]
      cases task.state <;> rfl
    · rw [hrunning, hcanceling]
      rfl
  · rw [hended, count_guarded .ended .begun nofun, count_guarded .ended .cancelled nofun]

theorem Fate.story {seen : List RunEvent} (hfate : y.Fate z run task (z.runs.get? r) task')
    (hm : y.Manned) (hle : y.nextRun ≤ z.nextRun) (hrun : y.runs.get? r = some run)
    (htask : y.tasks[run.task]? = some task) (htask' : z.tasks[run.task]? = some task')
    (hstarted : seen.count .started = 1)
    (hbegun : seen.count .begun = if run.point.isLaunched then 0 else 1)
    (hcancelled : seen.count .cancelled = if task.state = .canceling then 1 else 0)
    (hended : seen.count .ended = 0) : z.Story r (seen ++ seeRun r y a z) := by
  have happend {later : Run} (hlater : z.runs.get? r = some later) (hsame : later.task = run.task)
      (hpoint : run.point.isLaunched = false → later.point.isLaunched = false)
      (hstate : task'.state = task.state ∨ task.state = .running ∧ task'.state = .canceling) :
      z.Story r (seen ++ seeRun r y a z) :=
    story_append hrun htask hstarted hbegun hcancelled hended hlater hsame htask' hpoint hstate
  generalize hlater : z.runs.get? r = later at hfate
  cases hfate with
  | rests _ hyields =>
      refine happend hlater rfl id ?_
      obtain rfl | ⟨hrunning, rfl⟩ := hyields
      · exact .inl rfl
      · exact .inr ⟨hrunning, rfl⟩
  | begins _ hpoint' hsame =>
      exact happend hlater hsame (fun _ => isLaunched_eq_false (by simp [hpoint'])) (.inl rfl)
  | acts _ hpoint' _ _ h =>
      exact happend hlater rfl (fun _ => isLaunched_eq_false hpoint') (.inl h.state)
  | goesOn => exact happend hlater rfl id (.inl rfl)
  | ends hpoint =>
      have hpoint' : run.point.isLaunched = false := by rw [hpoint]; rfl
      have hsee : seeRun r y a z = [.ended] := by simp [seeRun, hrun, hlater]
      rw [hpoint'] at hbegun
      refine .past (Nat.lt_of_lt_of_le (hm.fresh hrun) hle) hlater ?_ ?_ ?_ <;>
        rw [hsee, List.count_append]
      · rw [hstarted]; rfl
      · rw [hbegun]; rfl
      · rw [hended]; rfl

theorem Story.step {seen : List RunEvent} (hs : y.Story r seen) (hz : y.step? a = some z)
    (hy : y.Tracked) (hm : y.Manned) : z.Story r (seen ++ seeRun r y a z) := by
  have h := deed_of_step hz
  cases hs with
  | unborn hle =>
      have hnone : y.runs.get? r = none := Option.eq_none_iff_forall_ne_some.2 fun run hrun =>
        Nat.lt_irrefl _ (Nat.lt_of_lt_of_le (hm.fresh hrun) hle)
      cases hlater : z.runs.get? r with
      | none =>
          have hsee : seeRun r y a z = [] := by simp [seeRun, hnone, hlater]
          rw [hsee]
          refine .unborn ?_
          obtain hsame | ⟨t, hlaunches⟩ := h.nextRun_cases
          · exact hsame ▸ hle
          · obtain ⟨c, -, hruns, hnext, -⟩ := hlaunches.effects
            have hne : y.nextRun ≠ r := fun heq => by
              rw [hruns, Registry.get?_insert, if_pos heq.symm] at hlater
              cases hlater
            exact hnext ▸ Nat.lt_of_le_of_ne hle hne
      | some run =>
          obtain ⟨rfl, hlaunches, task, htask⟩ := h.started hnone hlater
          obtain ⟨c, htask', hrun, -⟩ := hlaunches.task_begin htask
          have hsee : seeRun y.nextRun y a z = [.started] := by simp [seeRun, hnone, hlater]
          rw [hsee]
          exact .lasts hrun htask' rfl rfl rfl rfl
  | lasts hrun htask hstarted hbegun hcancelled hended =>
      obtain ⟨task', htask', hfate⟩ := h.fate hy (hm.fresh hrun) hrun htask
      exact hfate.story hm h.nextRun_le hrun htask htask' hstarted hbegun hcancelled hended
  | past hr hnone hstarted hbegun hended =>
      have hlater : z.runs.get? r = none := by
        refine Option.eq_none_iff_forall_ne_some.2 fun run hrun => ?_
        obtain ⟨rfl, -⟩ := h.started hnone hrun
        exact Nat.lt_irrefl _ hr
      have hsee : seeRun r y a z = [] := by simp [seeRun, hnone, hlater]
      rw [hsee, List.append_nil]
      exact .past (Nat.lt_of_lt_of_le hr h.nextRun_le) hlater hstarted hbegun hended

theorem story_run (allowed : System → Step → Bool) (origin : Int) (steps : List Step)
    (r : RunId) : ((create origin).run allowed steps).Story r
      ((create origin).observe allowed (seeRun r) steps) := by
  have hrun : ((create origin).run allowed steps).Reachable ∧
      ((create origin).run allowed steps).Story r
        ([] ++ (create origin).observe allowed (seeRun r) steps) :=
    observe_induction
      (P := fun y seen => y.Reachable ∧ y.Story r seen)
      (fun y a z seen _ hz hy => ⟨hy.1.step rfl hz, hy.2.step hz hy.1.tracked hy.1.manned⟩)
      ⟨.create origin, .unborn (Nat.zero_le r)⟩ steps
  exact hrun.2

/-- The runs in progress are those that a start call has begun and that have not ended. -/
theorem Story.inProgress_iff {seen : List RunEvent} (hs : y.Story r seen) (hm : y.Manned) :
    (∃ run, y.runs.get? r = some run) ↔ seen.count .started = 1 ∧ seen.count .ended = 0 := by
  cases hs with
  | unborn hle =>
      refine iff_of_false ?_ nofun
      rintro ⟨run, hrun⟩
      exact Nat.not_lt.2 hle (hm.fresh hrun)
  | lasts hrun _ hstarted _ _ hended => exact iff_of_true ⟨_, hrun⟩ ⟨hstarted, hended⟩
  | past _ hnone _ _ hended =>
      refine iff_of_false ?_ fun hcounts => by cases hended.symm.trans hcounts.2
      rintro ⟨run, hrun⟩
      cases hnone.symm.trans hrun

/-! ## All runs of a task -/

/-- A task has one run in progress while it is pending, and else none. -/
theorem length_runs (hy : y.Tracked) (hm : y.Manned) (htask : y.tasks[t]? = some task) :
    (y.runs.values.filter fun run => run.task = t).length =
      if task.state.isPending then 1 else 0 := by
  have hmem {r : RunId} {run : Run} :
      (r, run) ∈ y.runs.entries.filter (fun e => e.2.task = t) ↔
        y.runs.get? r = some run ∧ run.task = t := by
    rw [List.mem_filter, Registry.get?_eq_some_iff, decide_eq_true_iff]
  have hlength : (y.runs.values.filter fun run => run.task = t).length =
      (y.runs.entries.filter fun e => e.2.task = t).length := by
    rw [Registry.values, List.filter_map, List.length_map]
    rfl
  rw [hlength]
  cases hpending : task.state.isPending with
  | true =>
      obtain ⟨r, run, ht, hc⟩ := hm.carries htask hpending
      have hin := hmem.2 ⟨hc.inProgress, ht⟩
      have hall (e : RunId × Run) (he : e ∈ y.runs.entries.filter fun e => e.2.task = t) :
          e = (r, run) := by
        obtain ⟨r', run'⟩ := e
        obtain ⟨hrun', ht'⟩ := hmem.1 he
        obtain rfl := hy.unique hrun' hc.inProgress (ht'.trans ht.symm)
        rw [Option.some.inj (hrun'.symm.trans hc.inProgress)]
      have hnodup : (y.runs.entries.filter fun e => e.2.task = t).Nodup :=
        ((List.pairwise_map.1 y.runs.nodup_keys).imp fun hne heq =>
          hne (congrArg Prod.fst heq)).filter _
      rw [List.eq_replicate_of_mem hall, List.nodup_replicate] at hnodup
      exact Nat.le_antisymm hnodup (List.length_pos_of_mem hin)
  | false =>
      refine List.length_eq_zero_iff.2 (List.eq_nil_iff_forall_not_mem.2 fun e he => ?_)
      obtain ⟨r, run⟩ := e
      obtain ⟨hrun, ht⟩ := hmem.1 he
      rw [hy.isPending hrun ht htask] at hpending
      cases hpending

/-- A run in progress is not stuck before its body begins, nor after its body has ended. -/
theorem moves_run (hrun : y.runs.get? r = some run) (htask : y.tasks[run.task]? = some task) :
    (run.point = .launched → ∃ z later, y.moves (.run r) = [z] ∧ z.runs.get? r = some later ∧
        later.point = .acting (task.body task.runs)) ∧
      ∀ outcome, run.point = .ended outcome →
        ∃ z, y.moves (.run r) = [z] ∧ z.runs.get? r = none := by
  refine ⟨fun hpoint => ?_, fun outcome hpoint => ?_⟩
  · refine ⟨_, { run with index := task.runs, point := .acting (task.body task.runs) },
      by simp only [moves, runMoves, hrun, hpoint, htask]; rfl, ?_, rfl⟩
    exact (Registry.get?_insert _ _ _ _).trans (if_pos rfl)
  · refine ⟨_, by simp only [moves, runMoves, hrun, hpoint]; rfl, ?_⟩
    exact (Registry.get?_erase _ _ _).trans (if_pos rfl)

/-- A run has ended in a step after which its task stands as told: the body began once, the task is
left canceled if a cancel call was granted, and else as the body ended. The error is the body's own
or, if the body of a cancelled run ended well, that of the context of the run. -/
structure Concludes (y : System) (run : Run) (seen : List RunEvent) (outcome : Outcome)
    (task : Task) : Prop where
  point : run.point = .ended outcome
  started : seen.count .started = 1
  begun : seen.count .begun = 1
  canceled : task.state = .canceled ↔ .cancelled ∈ seen
  failed : task.state = .failed ↔ .cancelled ∉ seen ∧ ∃ e, outcome = .error e
  succeeded : task.state = .succeeded ↔ .cancelled ∉ seen ∧ outcome = .ok ()
  error : ∀ e, outcome = .error e → task.error = some e
  contextError : .cancelled ∈ seen → outcome = .ok () → ∃ e,
    y.contexts.error? run.context = some e ∧ task.error = some e

theorem Story.concludes {seen : List RunEvent} (hs : y.Story r seen) (hm : y.Manned)
    (hy : y.Tracked) (h : y.Deed a z) (hrun : y.runs.get? r = some run)
    (htask : y.tasks[run.task]? = some task) (htask' : z.tasks[run.task]? = some task')
    (hnone : z.runs.get? r = none) : ∃ outcome, y.Concludes run seen outcome task' := by
  obtain ⟨task'', htask'', hfate⟩ := h.fate hy (hm.fresh hrun) hrun htask
  obtain rfl := Option.some.inj (htask''.symm.trans htask')
  rw [hnone] at hfate
  cases hfate with
  | @ends outcome hpoint =>
      cases hs with
      | unborn hle => exact absurd (hm.fresh hrun) (Nat.not_lt.2 hle)
      | past _ hnone' =>
          rw [hrun] at hnone'
          cases hnone'
      | @lasts run₀ task₀ _ hrun₀ htask₀ hstarted hbegun hcancelled hended =>
          obtain rfl := Option.some.inj (hrun₀.symm.trans hrun)
          obtain rfl := Option.some.inj (htask₀.symm.trans htask)
          have hmem : .cancelled ∈ seen ↔ task₀.state = .canceling := by
            rw [← List.count_pos_iff, hcancelled]
            split <;> simp [*]
          have hdone : task₀.state = .canceling →
              (y.contexts.error? run₀.context).isSome = true := by
            intro hcanceling
            obtain ⟨r', run', hsame, hc⟩ := hm.carries htask (by rw [hcanceling]; rfl)
            obtain rfl := hy.unique hc.inProgress hrun hsame
            obtain rfl := Option.some.inj (hc.inProgress.symm.trans hrun)
            rw [ContextTree.isSome_error?]
            exact hc.done hcanceling
          have hpending := hy.isPending hrun rfl htask
          rw [hpoint] at hbegun
          cases hstate : task₀.state with
          | running =>
              have hnot : .cancelled ∉ seen := by simp [hmem, hstate]
              refine ⟨outcome, hpoint, hstarted, hbegun, ?_, ?_, ?_, ?_, fun h => absurd h hnot⟩ <;>
                cases outcome <;> simp [Task.finish, Task.endState, hstate, hnot]
          | canceling =>
              have hin : .cancelled ∈ seen := hmem.2 hstate
              obtain ⟨e, he⟩ := Option.isSome_iff_exists.1 (hdone hstate)
              refine ⟨outcome, hpoint, hstarted, hbegun, ?_, ?_, ?_, ?_, ?_⟩ <;>
                cases outcome <;> simp [Task.finish, Task.endState, hstate, hin, he]
          | _ =>
              rw [hstate] at hpending
              cases hpending

/-- What a step makes of a task, where `seen` is what was seen of each run before. -/
structure Turns (y : System) (a : Step) (z : System) (t : TaskId) (task task' : Task)
    (seen : RunId → List RunEvent) : Prop where
  leads : task'.state = task.state ∨ task.state.Leads task'.state
  started : (∃ r run, y.runs.get? r = none ∧ z.runs.get? r = some run ∧ run.task = t) ↔
    y.Launches t z
  cancelled : (task.state = .running ∧ task'.state = .canceling) ↔
    ∃ u v, y.Stops u ∧ u.cancelTask t = (true, v) ∧ v.Stops z
  completes : ∀ r run later outcome, y.runs.get? r = some run → run.task = t →
    z.runs.get? r = some later → later.point = .ended outcome →
      run.point = .ended outcome ∨
        ∃ completion, y.Completes run completion ∧ completion.outcome = outcome
  concludes : ∀ r run, y.runs.get? r = some run → run.task = t → z.runs.get? r = none →
    ∃ outcome, y.Concludes run (seen r) outcome task'

/-- A task that is cancelled in a step is so by cancel calls. -/
theorem Deed.stops_of_cancels (h : y.Deed a z) (hy : y.Tracked) (hm : y.Manned)
    (htask : y.tasks[t]? = some task) (htask' : z.tasks[t]? = some task')
    (hrunning : task.state = .running) (hcanceling : task'.state = .canceling) : y.Stops z := by
  obtain ⟨r, run, rfl, hc⟩ := hm.carries htask (by rw [hrunning]; rfl)
  obtain ⟨task'', htask'', hfate⟩ := h.fate hy (hm.fresh hc.inProgress) hc.inProgress htask
  obtain rfl := Option.some.inj (htask''.symm.trans htask')
  generalize z.runs.get? r = later at hfate
  have hsame (hsame : task''.state = task.state) : y.Stops z := by
    rw [hcanceling, hrunning] at hsame
    cases hsame
  cases hfate with
  | rests h => exact h
  | begins | goesOn => exact hsame rfl
  | acts _ _ _ _ h => exact hsame h.state
  | @ends outcome _ =>
      have hterminal := (task.finish_state outcome (y.contexts.error? run.context) y.clock.wall).1
      rw [hcanceling] at hterminal
      cases hterminal

theorem Fate.completes (h : y.Fate z run task (some later) task') {outcome : Outcome}
    (hpoint : later.point = .ended outcome) : run.point = .ended outcome ∨
      ∃ completion, y.Completes run completion ∧ completion.outcome = outcome := by
  cases h with
  | rests | goesOn => exact .inl hpoint
  | begins _ hpoint' =>
      rw [hpoint] at hpoint'
      cases hpoint'
  | acts _ _ _ hreaches => exact .inr (hreaches.completes outcome hpoint)

theorem turns_of_step (hz : y.step? a = some z) (hy : y.Tracked) (hm : y.Manned)
    (htask : y.tasks[t]? = some task) {seen : RunId → List RunEvent}
    (hseen : ∀ r, y.Story r (seen r)) :
    ∃ task', z.tasks[t]? = some task' ∧ y.Turns a z t task task' seen := by
  have h := deed_of_step hz
  obtain ⟨task', htask', hturn⟩ := h.turn htask
  refine ⟨task', htask', hturn.leads hy htask, ⟨?_, fun hlaunches => ?_⟩,
    ⟨fun hstates => ?_, ?_⟩, fun r run later outcome hrun ht hlater hpoint => ?_,
    fun r run hrun ht hnone => ?_⟩
  · rintro ⟨r, run, hnone, hrun, rfl⟩
    exact (h.started hnone hrun).2.1
  · obtain ⟨c, -, hrun, -⟩ := hlaunches.task_begin htask
    refine ⟨y.nextRun, _, Option.eq_none_iff_forall_ne_some.2 fun run hrun => ?_, hrun, rfl⟩
    exact Nat.lt_irrefl _ (hm.fresh hrun)
  · have hstops := h.stops_of_cancels hy hm htask htask' hstates.1 hstates.2
    obtain ⟨u, v, hu, -, hv⟩ := hstops.granted ((state_eq htask).trans hstates.1)
      ((state_eq htask').trans hstates.2)
    exact ⟨u, v, hu, hv⟩
  · rintro ⟨u, v, hu, hv, hz⟩
    rw [← state_eq htask, ← state_eq htask']
    exact hu.of_granted hv hz
  · subst ht
    obtain ⟨task'', -, hfate⟩ := h.fate hy (hm.fresh hrun) hrun htask
    rw [hlater] at hfate
    exact hfate.completes hpoint
  · subst ht
    exact (hseen r).concludes hm hy h hrun htask htask' hnone

/-- In all runs of a system and in every state between two steps, the fields of a task are those
that its state calls for, and a run of it is in progress, begun by a start call that was granted and
not ended, exactly while it is pending. A start call is granted to a task that is not pending, and a
cancel call to one that is running. In a step the state changes only in certain ways, runs begin and
are cancelled only by calls that are granted, and a run that ends has begun its body once and leaves
its task canceled if it was cancelled, and else as its body ended. -/
theorem task_states (allowed : System → Step → Bool) (origin : Int) (steps : List Step)
    (htask : ((create origin).run allowed steps).tasks[t]? = some task) :
    let y := (create origin).run allowed steps
    let seen := fun r => (create origin).observe allowed (seeRun r) steps
    task.Fits ∧
      (y.runs.values.filter fun run => run.task = t).length =
        (if task.state.isPending then 1 else 0) ∧
      (∀ r, (∃ run, y.runs.get? r = some run) ↔
        (seen r).count .started = 1 ∧ (seen r).count .ended = 0) ∧
      (∀ r run, y.runs.get? r = some run → run.task = t → task.runContext = some run.context ∧
        (run.point = .launched → ∃ z later, y.moves (.run r) = [z] ∧
          z.runs.get? r = some later ∧ later.point = .acting (task.body task.runs)) ∧
        ∀ outcome, run.point = .ended outcome →
          ∃ z, y.moves (.run r) = [z] ∧ z.runs.get? r = none) ∧
      (∀ parent, (y.startTask t parent).1 = !task.state.isPending) ∧
      (y.cancelTask t).1 = decide (task.state = .running) ∧
      (∀ k, y.calls[k]? = some (.awaitTask t) → (y.moves (.call k) = [] ↔ task.pending = true)) ∧
      ∀ a z, y.step? a = some z →
        ∃ task', z.tasks[t]? = some task' ∧ y.Turns a z t task task' seen := by
  intro y seen
  have htask : y.tasks[t]? = some task := htask
  have hreach : y.Reachable := Reachable.run_any (.create origin) allowed steps
  have hy : y.Tracked := hreach.tracked
  have hm : y.Manned := hreach.manned
  have hseen (r : RunId) : y.Story r (seen r) := story_run allowed origin steps r
  refine ⟨hreach.fits htask, length_runs hy hm htask, fun r => (hseen r).inProgress_iff hm,
    fun r run hrun ht => ⟨?_, ?_⟩, fun parent => ?_, ?_, fun k hk => ?_,
    fun a z hz => turns_of_step hz hy hm htask hseen⟩
  · subst ht
    obtain ⟨r', run', hsame, hc⟩ := hm.carries htask (hy.isPending hrun rfl htask)
    obtain rfl := hy.unique hc.inProgress hrun hsame
    obtain rfl := Option.some.inj (hc.inProgress.symm.trans hrun)
    exact hc.context
  · subst ht
    exact moves_run hrun htask
  · obtain ⟨hpending, hmade⟩ | ⟨hidle, z, hmade⟩ := startTask_cases parent htask
    · rw [hmade, hpending]
      rfl
    · rw [hmade, hidle]
      rfl
  · have hstate := state_eq htask
    obtain ⟨hne, hmade⟩ | ⟨task', htask', hrunning, ⟨-, hmade⟩ | ⟨_, -, hmade⟩⟩ :=
      cancelTask_cases y t
    · rw [hmade]
      exact (decide_eq_false (hstate ▸ hne)).symm
    · obtain rfl := Option.some.inj (htask'.symm.trans htask)
      rw [hmade]
      exact (decide_eq_true hrunning).symm
    · obtain rfl := Option.some.inj (htask'.symm.trans htask)
      rw [hmade]
      exact (decide_eq_true hrunning).symm
  · simp [moves, callMoves, hk, htask]

/-- The body of a task waits for its cancellation, and then ends well. -/
def cancelledSteps : List Step :=
  [.request .newContext, .request (.newTask "a" [] fun _ => [.awaitDone]),
    .request (.startTask 0 0), .move (.run 0) 0, .request (.cancelTask 0), .move (.run 0) 0,
    .move (.run 0) 0, .move (.run 0) 0]

theorem task_states_cancelledSteps :
    ∃ task z task', (after cancelledSteps).tasks[0]? = some task ∧ task.Fits ∧
      (after cancelledSteps).step? (.move (.run 0) 0) = some z ∧ z.tasks[0]? = some task' ∧
        task'.state = .canceled := by
  have hseen : (create 0).observe (fun _ _ => true) (seeRun 0) cancelledSteps =
      [.started, .begun, .cancelled] := by decide +kernel
  have hrun : ((after cancelledSteps).tasks[0]?.isSome &&
      ((after cancelledSteps).runs.get? 0).any fun run => run.task == 0 &&
        ((after cancelledSteps).step? (.move (.run 0) 0)).any fun z =>
          (z.runs.get? 0).isNone) = true := by
    decide +kernel
  obtain ⟨hsome, hrun⟩ := Bool.and_eq_true_iff.1 hrun
  obtain ⟨task, htask⟩ := Option.isSome_iff_exists.1 hsome
  obtain ⟨run, hrun, hrest⟩ := (Option.any_eq_true _ _).1 hrun
  obtain ⟨ht, hrest⟩ := Bool.and_eq_true_iff.1 hrest
  obtain ⟨z, hz, hnone⟩ := (Option.any_eq_true _ _).1 hrest
  obtain ⟨hfits, -, -, -, -, -, -, hsteps⟩ :=
    task_states (fun _ _ => true) 0 cancelledSteps htask
  obtain ⟨task', htask', hturns⟩ := hsteps _ z hz
  obtain ⟨outcome, hconcludes⟩ :=
    hturns.concludes 0 run hrun (beq_iff_eq.1 ht) (Option.isNone_iff_eq_none.1 hnone)
  exact ⟨task, z, task', htask, hfits, hz, htask', hconcludes.canceled.2 (by simp [hseen])⟩

end System

end Scheduling
