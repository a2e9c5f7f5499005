import Scheduling.Proofs.Tasks
import Scheduling.Proofs.Reachable
/-!
# The runs of a task

A task that is pending has one run in progress, and no other task has any. So a run cannot begin, be
told to end or end behind the back of its task, and the state of a task says what a step can make of
it.
-/

namespace Scheduling

theorem State.isPending_eq_false_of_isTerminal {s : State} (h : s.isTerminal = true) :
    s.isPending = false := by
  cases s with
  | succeeded | failed | canceled => rfl
  | _ => cases h

namespace Task

theorem Yields.isPending {task task' : Task} (h : task.Yields task') :
    task'.state.isPending = task.state.isPending := by
  obtain rfl | ⟨hrunning, rfl⟩ := h
  · rfl
  · rw [hrunning]
    rfl

theorem Reports.state {task task' : Task} (h : task.Reports task') : task'.state = task.state := by
  obtain ⟨_, _, rfl⟩ := h
  rfl

/-- A run that ends leaves its task in an end state, with an error unless it succeeded. -/
theorem finish_state (task : Task) (outcome : Outcome) (err : Option Error) (now : Timestamp) :
    (task.finish outcome err now).state.isTerminal = true ∧
      ((task.finish outcome err now).error = none ↔
        (task.finish outcome err now).state = .succeeded) := by
  unfold finish endState
  cases task.state <;> cases outcome <;> exact ⟨rfl, by simp⟩

end Task

namespace System

variable {y z : System} {a : Step} {t : TaskId} {task : Task}

theorem state_eq (h : y.tasks[t]? = some task) : y.state t = task.state := by
  rw [state, h]
  rfl

theorem Corresponds.some {R : Task → Task → Prop} (h : y.Corresponds R z)
    (htask : y.tasks[t]? = some task) : ∃ task', z.tasks[t]? = some task' ∧ R task task' := by
  have hrel := h t
  rw [htask] at hrel
  generalize z.tasks[t]? = o at hrel
  cases hrel with
  | some hR => exact ⟨_, rfl, hR⟩

theorem Stops.state_cases (h : y.Stops z) (t : TaskId) :
    z.state t = y.state t ∨ y.state t = .running ∧ z.state t = .canceling := by
  have hrel := h.tasks t
  unfold state
  revert hrel
  generalize y.tasks[t]? = o, z.tasks[t]? = o'
  rintro (⟨hyields⟩ | _)
  · obtain rfl | ⟨hrunning, rfl⟩ := hyields
    · exact .inl rfl
    · exact .inr ⟨hrunning, rfl⟩
  · exact .inl rfl

/-- What a modification of one task makes of another or of itself. -/
theorem some_of_modify {t' : TaskId} {f : Task → Task} (h : z.tasks = y.tasks.modify t' f)
    (htask : y.tasks[t]? = some task) :
    (t' = t ∧ z.tasks[t]? = some (f task)) ∨ (t' ≠ t ∧ z.tasks[t]? = some task) := by
  rw [h, Array.getElem?_modify, htask]
  split
  · rename_i ht
    exact .inl ⟨ht, rfl⟩
  · rename_i ht
    exact .inr ⟨ht, rfl⟩

/-- What a step makes of a task. -/
inductive Turn (y : System) (a : Step) (z : System) (t : TaskId) (task : Task) : Task → Prop
  | yields {task' : Task} (h : task.Yields task') : Turn y a z t task task'
  | begins {c : ContextId} (hcause : y.Causes a t) (hidle : task.state.isPending = false)
      (h : y.Launches t z) : Turn y a z t task (task.begin c y.clock.wall)
  | launches {r : RunId} {run run' : Run} (hrun : y.runs.get? r = some run) (ht : run.task = t)
      (hpoint : run.point = .launched) (hpoint' : run'.point ≠ .launched)
      (hruns : z.runs = y.runs.insert r run') :
      Turn y a z t task { task with runs := task.runs + 1 }
  | reports {r : RunId} {run : Run} {task' : Task} (hrun : y.runs.get? r = some run)
      (ht : run.task = t) (h : task.Reports task') : Turn y a z t task task'
  | finishes {r : RunId} {run : Run} {outcome : Outcome} {err : Option Error} {now : Timestamp}
      (hrun : y.runs.get? r = some run) (ht : run.task = t) (hruns : z.runs = y.runs.erase r) :
      Turn y a z t task (task.finish outcome err now)

theorem Deed.turn (h : y.Deed a z) (htask : y.tasks[t]? = some task) :
    ∃ task', z.tasks[t]? = some task' ∧ y.Turn a z t task task' := by
  have hkept : y.Turn a z t task task := .yields (.inl rfl)
  cases h with
  | stops h =>
      obtain ⟨task', htask', hyields⟩ := h.tasks.some htask
      exact ⟨task', htask', .yields hyields⟩
  | adds htasks =>
      refine ⟨task, ?_, hkept⟩
      obtain ⟨hlt, hget⟩ := Array.getElem?_eq_some_iff.1 htask
      rw [htasks, Array.getElem?_push_lt hlt, hget]
  | begins hcause htask' hidle h =>
      obtain ⟨c, htasks, -⟩ := h.effects
      obtain ⟨rfl, hz⟩ | ⟨-, hz⟩ := some_of_modify htasks htask
      · rw [htask] at htask'
        cases htask'
        exact ⟨_, hz, .begins hcause hidle h⟩
      · exact ⟨task, hz, hkept⟩
  | launches hrun hpoint _ hpoint' htasks hruns =>
      obtain ⟨ht, hz⟩ | ⟨-, hz⟩ := some_of_modify htasks htask
      · exact ⟨_, hz, .launches hrun ht hpoint hpoint' hruns⟩
      · exact ⟨task, hz, hkept⟩
  | acts hrun _ _ htasks =>
      obtain ⟨f, hf, htasks⟩ := htasks
      obtain ⟨ht, hz⟩ | ⟨-, hz⟩ := some_of_modify htasks htask
      · exact ⟨_, hz, .reports hrun ht (hf task)⟩
      · exact ⟨task, hz, hkept⟩
  | finishes hrun _ htasks hruns =>
      obtain ⟨ht, hz⟩ | ⟨-, hz⟩ := some_of_modify htasks htask
      · exact ⟨_, hz, .finishes hrun ht hruns⟩
      · exact ⟨task, hz, hkept⟩

/-- A run in progress after a step was in progress before, or has just begun. -/
theorem Deed.run (h : y.Deed a z) {r : RunId} {run : Run} (hrun : z.runs.get? r = some run) :
    (∃ before, y.runs.get? r = some before ∧ before.task = run.task ∧
        (run.point = .launched → before.point = .launched)) ∨
      r = y.nextRun ∧ y.Causes a run.task ∧ y.Launches run.task z ∧
        ∃ task, y.tasks[run.task]? = some task ∧ task.state.isPending = false := by
  cases h with
  | stops h => exact .inl ⟨run, h.runs ▸ hrun, rfl, id⟩
  | adds _ hruns => exact .inl ⟨run, hruns ▸ hrun, rfl, id⟩
  | begins hcause htask hidle h =>
      obtain ⟨c, -, hruns, -⟩ := h.effects
      rw [hruns, Registry.get?_insert] at hrun
      split at hrun
      · cases hrun
        exact .inr ⟨‹_›, hcause, h, _, htask, hidle⟩
      · exact .inl ⟨run, hrun, rfl, id⟩
  | @launches r₀ run₀ run' hrun₀ hpoint htask hpoint' _ hruns =>
      rw [hruns, Registry.get?_insert] at hrun
      split at hrun
      · rename_i hr
        cases hrun
        exact .inl ⟨run₀, hr ▸ hrun₀, htask.symm, fun _ => hpoint⟩
      · exact .inl ⟨run, hrun, rfl, id⟩
  | @acts r₀ run₀ point hrun₀ _ hpoint' _ hruns =>
      rw [hruns, Registry.get?_modify] at hrun
      split at hrun
      · rename_i hr
        rw [hr, hrun₀] at hrun
        cases hrun
        exact .inl ⟨run₀, hr ▸ hrun₀, rfl, fun hlaunched => absurd hlaunched hpoint'⟩
      · exact .inl ⟨run, hrun, rfl, id⟩
  | finishes _ _ _ hruns =>
      rw [hruns, Registry.get?_erase] at hrun
      split at hrun
      · cases hrun
      · exact .inl ⟨run, hrun, rfl, id⟩

/-- Runs in progress are those of pending tasks, at most one of each. -/
structure Tracked (y : System) : Prop where
  pending : ∀ {r : RunId} {run : Run}, y.runs.get? r = some run →
    ∃ task : Task, y.tasks[run.task]? = some task ∧ task.state.isPending = true
  unique : ∀ {r r' : RunId} {run run' : Run}, y.runs.get? r = some run →
    y.runs.get? r' = some run' → run.task = run'.task → r = r'

theorem Tracked.isPending (hy : y.Tracked) {r : RunId} {run : Run}
    (hrun : y.runs.get? r = some run) (ht : run.task = t) (htask : y.tasks[t]? = some task) :
    task.state.isPending = true := by
  obtain ⟨task', htask', hpending⟩ := hy.pending hrun
  rw [ht, htask] at htask'
  cases htask'
  exact hpending

/-- A pending task stays pending until its run ends. -/
theorem Turn.pending {task' : Task} (h : y.Turn a z t task task')
    (hpending : task.state.isPending = true) :
    task'.state.isPending = true ∨
      ∃ (r : RunId) (run : Run), y.runs.get? r = some run ∧ run.task = t ∧
        z.runs = y.runs.erase r := by
  cases h with
  | yields h => exact .inl (h.isPending.trans hpending)
  | begins => exact .inl rfl
  | launches => exact .inl hpending
  | reports _ _ h => exact .inl (h.state ▸ hpending)
  | finishes hrun ht hruns => exact .inr ⟨_, _, hrun, ht, hruns⟩

/-- An idle task that is pending after a step has just been started. -/
theorem Turn.launched {task' : Task} (h : y.Turn a z t task task') (hy : y.Tracked)
    (htask : y.tasks[t]? = some task) (hidle : task.state.isPending = false)
    (hpending : task'.state.isPending = true) : y.Causes a t ∧ y.Launches t z := by
  cases h with
  | begins hcause _ h => exact ⟨hcause, h⟩
  | yields h =>
      rw [h.isPending, hidle] at hpending
      cases hpending
  | launches hrun ht | reports hrun ht | finishes hrun ht =>
      rw [hy.isPending hrun ht htask] at hidle
      cases hidle

theorem Turn.causes {task' : Task} (h : y.Turn a z t task task') (hy : y.Tracked)
    (htask : y.tasks[t]? = some task) (hidle : task.state.isPending = false)
    (hpending : task'.state.isPending = true) : y.Causes a t :=
  (h.launched hy htask hidle hpending).1

/-- A task counts a run when the body of the run begins, and is created only as long as no run of it
has begun. -/
theorem Turn.runs {task' : Task} (h : y.Turn a z t task task') (hy : y.Tracked)
    (htask : y.tasks[t]? = some task) :
    (task'.runs = task.runs ∧ (task'.state = .created → task.state = .created)) ∨
      task'.runs = task.runs + 1 ∧ task'.state ≠ .created ∧
        ∃ (r : RunId) (run run' : Run), y.runs.get? r = some run ∧ run.task = t ∧
          run.point = .launched ∧ run'.point ≠ .launched ∧ z.runs = y.runs.insert r run' := by
  cases h with
  | yields h =>
      obtain rfl | ⟨-, rfl⟩ := h
      · exact .inl ⟨rfl, id⟩
      · exact .inl ⟨rfl, nofun⟩
  | begins => exact .inl ⟨rfl, nofun⟩
  | launches hrun ht hpoint hpoint' hruns =>
      refine .inr ⟨rfl, fun hcreated => ?_, _, _, _, hrun, ht, hpoint, hpoint', hruns⟩
      have hpending := hy.isPending hrun ht htask
      replace hcreated : task.state = .created := hcreated
      rw [hcreated] at hpending
      cases hpending
  | reports _ _ h =>
      obtain ⟨_, _, rfl⟩ := h
      exact .inl ⟨rfl, id⟩
  | @finishes _ _ outcome err now =>
      refine .inl ⟨rfl, fun hcreated => ?_⟩
      have hterminal := (task.finish_state outcome err now).1
      rw [hcreated] at hterminal
      cases hterminal

theorem Tracked.deed (hy : y.Tracked) (h : y.Deed a z) : z.Tracked where
  pending {r run} hrun := by
    obtain ⟨before, hbefore, hsame, -⟩ | ⟨-, -, hlaunches, task, htask, -⟩ := h.run hrun
    · obtain ⟨task, htask, hpending⟩ := hy.pending hbefore
      rw [hsame] at htask
      obtain ⟨task', htask', hturn⟩ := h.turn htask
      obtain hstill | ⟨r', run', hrun', ht, hruns⟩ := hturn.pending hpending
      · exact ⟨task', htask', hstill⟩
      · obtain rfl := hy.unique hbefore hrun' (hsame.trans ht.symm)
        rw [hruns, Registry.get?_erase, if_pos rfl] at hrun
        cases hrun
    · obtain ⟨c, htasks, -⟩ := hlaunches.effects
      obtain ⟨-, hz⟩ | ⟨hne, -⟩ := some_of_modify htasks htask
      · exact ⟨_, hz, rfl⟩
      · exact absurd rfl hne
  unique {r r' run run'} hrun hrun' hsame := by
    -- No run of a task begins while another one is in progress.
    have hclash {r₀ : RunId} {before : Run} {t : TaskId} {task : Task}
        (hbefore : y.runs.get? r₀ = some before) (ht : before.task = t)
        (htask : y.tasks[t]? = some task) (hidle : task.state.isPending = false) : False := by
      rw [hy.isPending hbefore ht htask] at hidle
      cases hidle
    obtain ⟨before, hbefore, ht, -⟩ | ⟨hr, -, -, task, htask, hidle⟩ := h.run hrun <;>
      obtain ⟨before', hbefore', ht', -⟩ | ⟨hr', -, -, task', htask', hidle'⟩ := h.run hrun'
    · exact hy.unique hbefore hbefore' (ht.trans (hsame.trans ht'.symm))
    · exact (hclash hbefore (ht.trans hsame) htask' hidle').elim
    · exact (hclash hbefore' (ht'.trans hsame.symm) htask hidle).elim
    · exact hr.trans hr'.symm

/-- The flag and the error of a task are those that its state calls for. -/
structure Coherent (task : Task) : Prop where
  pending : task.pending = task.state.isPending
  error : task.error = none ↔ task.state ≠ .failed ∧ task.state ≠ .canceled

theorem Turn.coherent {task' : Task} (h : y.Turn a z t task task') (htask : Coherent task) :
    Coherent task' := by
  cases h with
  | yields h =>
      obtain rfl | ⟨hrunning, rfl⟩ := h
      · exact htask
      · refine ⟨htask.pending.trans (by rw [hrunning]; rfl), ?_⟩
        simpa [hrunning] using htask.error
  | begins => exact ⟨rfl, by simp [Task.begin]⟩
  | launches => exact ⟨htask.pending, htask.error⟩
  | reports _ _ h =>
      obtain ⟨_, _, rfl⟩ := h
      exact ⟨htask.pending, htask.error⟩
  | @finishes _ _ outcome err now =>
      obtain ⟨hterminal, herror⟩ := task.finish_state outcome err now
      refine ⟨(State.isPending_eq_false_of_isTerminal hterminal).symm, herror.trans ?_⟩
      generalize (task.finish outcome err now).state = s at hterminal
      cases s with
      | succeeded | failed | canceled => decide
      | _ => cases hterminal

theorem Deed.added (h : y.Deed a z) (hy : y.tasks[t]? = none) (hz : z.tasks[t]? = some task) :
    ∃ id labels now body, task = Task.create id labels now body := by
  have hmodify {t' : TaskId} {f : Task → Task} (htasks : z.tasks = y.tasks.modify t' f) :
      False := by
    rw [htasks, Array.getElem?_modify, hy, Option.map_none, ite_self] at hz
    cases hz
  cases h with
  | stops h =>
      have hrel := h.tasks t
      rw [hy, hz] at hrel
      cases hrel
  | adds htasks =>
      rw [htasks, Array.getElem?_push, hy] at hz
      split at hz
      · cases hz
        exact ⟨_, _, _, _, rfl⟩
      · cases hz
  | begins _ _ _ h =>
      obtain ⟨_, htasks, -⟩ := h.effects
      exact (hmodify htasks).elim
  | acts _ _ _ htasks =>
      obtain ⟨_, _, htasks⟩ := htasks
      exact (hmodify htasks).elim
  | launches _ _ _ _ htasks | finishes _ _ htasks => exact (hmodify htasks).elim

theorem ReachableBy.tracked {allowed : System → Step → Bool} (h : y.ReachableBy allowed) :
    y.Tracked := by
  induction h with
  | create origin => exact ⟨nofun, nofun⟩
  | step _ _ hz ih => exact ih.deed (deed_of_step hz)

theorem ReachableBy.coherent {allowed : System → Step → Bool} (h : y.ReachableBy allowed)
    (htask : y.tasks[t]? = some task) : Coherent task := by
  induction h generalizing task with
  | create origin => simp [System.create] at htask
  | @step u _ _ _ _ hz ih =>
      cases hu : u.tasks[t]? with
      | none =>
          obtain ⟨_, _, _, _, rfl⟩ := (deed_of_step hz).added hu htask
          exact ⟨rfl, fun _ => ⟨fun h => (by cases h), fun h => (by cases h)⟩, fun _ => rfl⟩
      | some before =>
          obtain ⟨task', htask', hturn⟩ := (deed_of_step hz).turn hu
          rw [htask] at htask'
          cases htask'
          exact hturn.coherent (ih hu)

end System

end Scheduling
