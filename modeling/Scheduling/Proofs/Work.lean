import Scheduling.Proofs.Attempts
import Scheduling.Proofs.Contexts
import Scheduling.System.Sessions
/-!
# Work on tasks

Runs, start calls and cancellations work on tasks, contexts and executors. This module says what
they leave alone: the clock, the schedulers, the cron tables and the calls stay as they are,
contexts are only added and hit, tasks keep their identity and their body, and an executor that is
not itself at work changes in nothing but its halt flags.
-/

namespace Scheduling

/-- A move that can only be made under a condition. -/
theorem of_mem_guarded {α : Type} {guard : Prop} [Decidable guard] {x made : α}
    (h : x ∈ if guard then [made] else []) : guard ∧ x = made := by
  obtain ⟨hguard, hmem⟩ := List.mem_ite_nil_right.1 h
  exact ⟨hguard, List.mem_singleton.1 hmem⟩

/-- The newest halt flag of an executor was raised. -/
def Executor.Halted (x : Executor) : Prop := x.isHalted x.currentHalt = true

/-- A new halt flag is not raised. -/
theorem Executor.isHalted_renewHalt (x : Executor) (halt : Nat) :
    x.renewHalt.isHalted halt = x.isHalted halt := by
  unfold Executor.isHalted Executor.renewHalt
  rw [Array.getElem?_push]
  split
  · rename_i hnew
    rw [hnew, Array.getElem?_eq_none (Nat.le_refl _)]
    rfl
  · rfl

/-- Only the newest halt flag can be raised. -/
theorem Executor.isHalted_raiseHalt (x : Executor) (halt : Nat) :
    x.raiseHalt.isHalted halt =
      if halt = x.currentHalt ∧ halt < x.halts.size then true else x.isHalted halt := by
  unfold Executor.isHalted Executor.raiseHalt
  rw [Array.getElem?_modify]
  by_cases hcurrent : halt = x.currentHalt
  · by_cases hlt : halt < x.halts.size
    · rw [if_pos hcurrent.symm, if_pos ⟨hcurrent, hlt⟩, Array.getElem?_eq_getElem hlt]
      rfl
    · rw [if_pos hcurrent.symm, if_neg fun h => hlt h.2,
        Array.getElem?_eq_none (Nat.le_of_not_lt hlt)]
      rfl
  · rw [if_neg fun h => hcurrent h.symm, if_neg fun h => hcurrent h.1]

/-- The second state of an executor comes after the first: it serves the same task under the same
policies, has lost no halt flag and taken none back, raised none but the newest one and, unless it
is at work, differs in nothing but its halt flags, to which none was added. -/
structure Executor.Follows (working : Prop) (x x' : Executor) : Prop where
  task : x'.task = x.task
  options : x'.options = x.options
  halts : x.halts.size ≤ x'.halts.size
  idle : ¬ working → x' = { x with halts := x'.halts }
  kept : ¬ working → x'.halts.size = x.halts.size
  raised : ∀ halt, x.isHalted halt = true → x'.isHalted halt = true
  older : ∀ halt, halt < x.currentHalt → x'.isHalted halt = x.isHalted halt

namespace Executor.Follows

theorem refl {working : Prop} (x : Executor) : x.Follows working x :=
  ⟨rfl, rfl, Nat.le_refl _, fun _ => rfl, fun _ => rfl, fun _ => id, fun _ _ => rfl⟩

theorem of_working {working : Prop} {x x' : Executor} (hworking : working)
    (htask : x'.task = x.task) (hoptions : x'.options = x.options)
    (hhalts : x.halts.size ≤ x'.halts.size)
    (hflags : ∀ halt, x'.isHalted halt = x.isHalted halt) : x.Follows working x' :=
  ⟨htask, hoptions, hhalts, fun hidle => absurd hworking hidle,
    fun hidle => absurd hworking hidle, fun halt h => (hflags halt).trans h,
    fun halt _ => hflags halt⟩

theorem currentHalt_le {working : Prop} {x x' : Executor} (h : x.Follows working x') :
    x.currentHalt ≤ x'.currentHalt := Nat.sub_le_sub_right h.halts 1

theorem trans {working : Prop} {x x' x'' : Executor} (h : x.Follows working x')
    (h' : x'.Follows working x'') : x.Follows working x'' where
  task := h'.task.trans h.task
  options := h'.options.trans h.options
  halts := Nat.le_trans h.halts h'.halts
  idle hw := by
    have h₁ := h.idle hw
    have h₂ := h'.idle hw
    rw [h₂, h₁]
  kept hw := (h'.kept hw).trans (h.kept hw)
  raised halt hx := h'.raised halt (h.raised halt hx)
  older halt hlt :=
    (h'.older halt (Nat.lt_of_lt_of_le hlt h.currentHalt_le)).trans (h.older halt hlt)

theorem mono {working working' : Prop} {x x' : Executor} (h : x.Follows working x')
    (hworking : working → working') : x.Follows working' x' :=
  ⟨h.task, h.options, h.halts, fun hidle => h.idle fun hw => hidle (hworking hw),
    fun hidle => h.kept fun hw => hidle (hworking hw), h.raised, h.older⟩

/-- An executor that was halted and is not at work stays so. -/
theorem halted {working : Prop} {x x' : Executor} (h : x.Follows working x') (hw : ¬ working)
    (hx : x.Halted) : x'.Halted := by
  unfold Executor.Halted at hx ⊢
  rw [Executor.currentHalt, h.kept hw]
  exact h.raised _ hx

end Executor.Follows

/-- What a task is called and what it does stays the same. -/
structure Task.Endures (task task' : Task) : Prop where
  id : task'.id = task.id
  labels : task'.labels = task.labels
  createdAt : task'.createdAt = task.createdAt
  body : task'.body = task.body

namespace Task.Endures

theorem refl (task : Task) : task.Endures task :=
  ⟨rfl, rfl, rfl, rfl⟩

theorem trans {task task' task'' : Task} (h : task.Endures task') (h' : task'.Endures task'') :
    task.Endures task'' :=
  ⟨h'.id.trans h.id, h'.labels.trans h.labels, h'.createdAt.trans h.createdAt,
    h'.body.trans h.body⟩

end Task.Endures

namespace System

/-- Every task is still there. -/
def TasksEndure (y z : System) : Prop :=
  ∀ (t : TaskId) (task : Task), y.tasks[t]? = some task →
    ∃ task' : Task, z.tasks[t]? = some task' ∧ task.Endures task'

theorem tasksEndure_of_eq {y z : System} (h : z.tasks = y.tasks) : y.TasksEndure z :=
  fun _ task htask => ⟨task, h ▸ htask, .refl task⟩

theorem TasksEndure.trans {y z u : System} (h : y.TasksEndure z) (h' : z.TasksEndure u) :
    y.TasksEndure u := by
  intro t task htask
  obtain ⟨task', htask', hendures⟩ := h t task htask
  obtain ⟨task'', htask'', hendures'⟩ := h' t task' htask'
  exact ⟨task'', htask'', hendures.trans hendures'⟩

theorem TasksEndure.size_le {y z : System} (h : y.TasksEndure z) :
    y.tasks.size ≤ z.tasks.size := by
  refine Nat.le_of_not_lt fun hlt => ?_
  obtain ⟨task', htask', -⟩ := h z.tasks.size _ (Array.getElem?_eq_getElem hlt)
  exact Nat.lt_irrefl _ (Array.getElem?_eq_some_iff.1 htask').1

/-- The second system comes from the first by work in which at most the executor `own` makes a
start call. -/
structure Works (own : Option ExecutorId) (y z : System) : Prop where
  clock : z.clock = y.clock
  queues : z.queues = y.queues
  tables : z.tables = y.tables
  schedulers : z.schedulers = y.schedulers
  calls : z.calls = y.calls
  contexts : y.contexts.Grows z.contexts
  tasks : y.TasksEndure z
  size : z.executors.size = y.executors.size
  executors : ∀ (e : ExecutorId) (x : Executor), y.executors[e]? = some x →
    ∃ x' : Executor, z.executors[e]? = some x' ∧ x.Follows (own = some e) x'

variable {own : Option ExecutorId}

namespace Works

theorem of_executors_eq {y z : System} (hs : z.schedulers = y.schedulers)
    (hc : z.calls = y.calls) (hx : z.executors = y.executors) (htasks : z.tasks = y.tasks)
    (hcontexts : y.contexts.Grows z.contexts) (hclock : z.clock = y.clock := by rfl)
    (hqueues : z.queues = y.queues := by rfl) (htables : z.tables = y.tables := by rfl) :
    y.Works own z where
  clock := hclock
  queues := hqueues
  tables := htables
  schedulers := hs
  calls := hc
  contexts := hcontexts
  tasks := tasksEndure_of_eq htasks
  size := congrArg Array.size hx
  executors _ x h := ⟨x, hx ▸ h, .refl x⟩

theorem refl (y : System) : y.Works own y :=
  .of_executors_eq rfl rfl rfl rfl (.refl _)

theorem trans {y z u : System} (h : y.Works own z) (h' : z.Works own u) : y.Works own u where
  clock := h'.clock.trans h.clock
  queues := h'.queues.trans h.queues
  tables := h'.tables.trans h.tables
  schedulers := h'.schedulers.trans h.schedulers
  calls := h'.calls.trans h.calls
  contexts := h.contexts.trans h'.contexts
  tasks := h.tasks.trans h'.tasks
  size := h'.size.trans h.size
  executors e x hx := by
    obtain ⟨x', hx', hf⟩ := h.executors e x hx
    obtain ⟨x'', hx'', hf'⟩ := h'.executors e x' hx'
    exact ⟨x'', hx'', hf.trans hf'⟩

end Works

/-! ## Contexts, tasks and runs -/

theorem works_record (y : System) (e : Event) : y.Works own (y.record e) :=
  .of_executors_eq rfl rfl rfl rfl (.refl _)

theorem works_modifyTask (y : System) (t : TaskId) {f : Task → Task}
    (hf : ∀ task : Task, task.Endures (f task)) : y.Works own (y.modifyTask t f) where
  clock := rfl
  queues := rfl
  tables := rfl
  schedulers := rfl
  calls := rfl
  contexts := .refl _
  size := rfl
  executors _ x hx := ⟨x, hx, .refl x⟩
  tasks t' task htask := by
    change ∃ task', (y.tasks.modify t f)[t']? = some task' ∧ _
    rw [Array.getElem?_modify, htask]
    by_cases ht : t = t'
    · exact ⟨f task, by simp [ht], hf task⟩
    · exact ⟨task, by simp [ht], .refl task⟩

theorem works_runAt (y : System) (r : RunId) (point : RunPoint) : y.Works own (y.runAt r point) :=
  .of_executors_eq rfl rfl rfl rfl (.refl _)

theorem works_cancelContext (y : System) (c : ContextId) : y.Works own (y.cancelContext c) :=
  .of_executors_eq rfl rfl rfl rfl (ContextTree.grows_cancel _ _)

theorem works_newChild (y : System) (parent : ContextId) : y.Works own (y.newChild parent).2 :=
  .of_executors_eq rfl rfl rfl rfl (ContextTree.grows_child _ _)

theorem works_newChildFor {y : System} {parent : ContextId} {timeout : Duration}
    {made : ContextId × System} (h : y.newChildFor parent timeout = some made) :
    y.Works own made.2 := by
  obtain ⟨expiry, -, rfl⟩ := Option.map_eq_some_iff.1 h
  exact .of_executors_eq rfl rfl rfl rfl (ContextTree.grows_childUntil _ _ _)

theorem works_startTask (y : System) (t : TaskId) (parent : ContextId) :
    y.Works own (y.startTask t parent).2 := by
  unfold startTask
  split
  · exact .refl y
  · split
    · exact .refl y
    · have hbegin : (y.newChild parent).2.Works own ((y.newChild parent).2.modifyTask t
          (·.begin (y.newChild parent).1 (y.newChild parent).2.clock.wall)) :=
        works_modifyTask _ t fun _ => ⟨rfl, rfl, rfl, rfl⟩
      exact ((works_newChild y parent).trans hbegin).trans
        (.of_executors_eq rfl rfl rfl rfl (.refl _))

theorem works_cancelTask (y : System) (t : TaskId) : y.Works own (y.cancelTask t).2 := by
  unfold cancelTask
  split
  · exact .refl y
  · split
    · dsimp only
      split
      · refine .trans (works_modifyTask y t ?_) (works_cancelContext _ _)
        exact fun _ => ⟨rfl, rfl, rfl, rfl⟩
      · exact works_modifyTask y _ fun _ => ⟨rfl, rfl, rfl, rfl⟩
    · exact .refl y

theorem works_note (y : System) (run : Run) (n : Note) : y.Works own (y.note run n) :=
  works_record y _

theorem works_endBody (y : System) (r : RunId) (run : Run) (outcome : Outcome) :
    y.Works own (y.endBody r run outcome) :=
  (works_note y _ _).trans (works_runAt _ _ _)

theorem works_endSleep (y : System) (r : RunId) (run : Run) (strict : Bool) (rest : List Action)
    (outcome : Outcome) : y.Works own (y.endSleep r run strict rest outcome) := by
  unfold endSleep
  split
  · split
    · exact works_runAt y _ _
    · exact works_endBody y _ _ _
  · exact (works_note y _ _).trans (works_runAt _ _ _)

theorem works_finishRun (y : System) (r : RunId) (run : Run) (outcome : Outcome) :
    y.Works own (y.finishRun r run outcome) := by
  have hfinish : y.Works own (y.modifyTask run.task
      (·.finish outcome (y.contexts.error? run.context) y.clock.wall)) :=
    works_modifyTask y _ fun _ => ⟨rfl, rfl, rfl, rfl⟩
  exact (hfinish.trans (works_cancelContext _ _)).trans
    (.of_executors_eq rfl rfl rfl rfl (.refl _))

theorem works_act (y : System) (r : RunId) (run : Run) (action : Action) (rest : List Action) :
    y.Works own (y.act r run action rest) := by
  cases action with
  | sleep | trySleep | rawSleep | awaitDone => exact works_runAt y _ _
  | progress | result =>
      refine .trans (works_modifyTask y run.task ?_) (works_runAt _ _ _)
      exact fun _ => ⟨rfl, rfl, rfl, rfl⟩
  | look | say => exact (works_note y _ _).trans (works_runAt _ _ _)
  | cancelContext => exact (works_cancelContext y _).trans (works_runAt _ _ _)
  | unkeyedResult | succeed | fail | failWithContext => exact works_endBody y _ _ _
  | panic => exact works_runAt y _ _
  | childSleep timeout d =>
      dsimp only [act]
      split
      · exact works_runAt y _ _
      · rename_i h
        exact (works_newChildFor h).trans (works_runAt _ _ _)

/-- A move of a run is work in which no executor makes a start call. -/
theorem works_of_mem_runMoves {y z : System} {r : RunId} (h : z ∈ y.runMoves r) :
    y.Works own z := by
  unfold runMoves at h
  split at h
  · simp at h
  · rename_i run hrun
    split at h
    · split at h
      · simp at h
      · obtain rfl := List.mem_singleton.1 h
        have hcount : y.Works own (y.modifyTask run.task fun t => { t with runs := t.runs + 1 }) :=
          works_modifyTask y _ fun _ => ⟨rfl, rfl, rfl, rfl⟩
        exact hcount.trans (.of_executors_eq rfl rfl rfl rfl (.refl _))
    · obtain rfl := List.mem_singleton.1 h
      exact works_endBody y _ _ _
    · obtain rfl := List.mem_singleton.1 h
      exact works_act y _ _ _ _
    · rcases List.mem_append.1 h with h | h
      · split at h
        · obtain ⟨-, rfl⟩ := of_mem_guarded h
          exact works_endSleep y _ _ _ _ _
        · simp at h
      · obtain ⟨-, rfl⟩ := of_mem_guarded h
        exact works_endSleep y _ _ _ _ _
    · obtain ⟨-, rfl⟩ := of_mem_guarded h
      exact works_runAt y _ _
    · obtain rfl := List.mem_singleton.1 h
      exact works_finishRun y _ _ _

/-! ## Executors -/

theorem works_modifyExecutor (y : System) (e : ExecutorId) {f : Executor → Executor}
    (hf : ∀ x : Executor, x.Follows (own = some e) (f x)) :
    y.Works own (y.modifyExecutor e f) where
  clock := rfl
  queues := rfl
  tables := rfl
  schedulers := rfl
  calls := rfl
  contexts := .refl _
  tasks := tasksEndure_of_eq rfl
  size := Array.size_modify
  executors e' x hx := by
    change ∃ x', (y.executors.modify e f)[e']? = some x' ∧ _
    rw [Array.getElem?_modify, hx]
    by_cases he : e = e'
    · subst he
      exact ⟨f x, by simp, hf x⟩
    · exact ⟨x, by simp [he], .refl x⟩

theorem currentHalt_raiseHalt (x : Executor) : x.raiseHalt.currentHalt = x.currentHalt := by
  simp [Executor.currentHalt, Executor.raiseHalt]

/-- Raising the halt flag of an executor that has one halts it. -/
theorem halted_raiseHalt {x : Executor} (h : 0 < x.halts.size) : x.raiseHalt.Halted := by
  have hlt : x.currentHalt < x.halts.size := Nat.sub_one_lt_of_lt h
  unfold Executor.Halted
  rw [currentHalt_raiseHalt, Executor.isHalted_raiseHalt, if_pos ⟨rfl, hlt⟩]

theorem follows_raiseHalt {working : Prop} (x : Executor) : x.Follows working x.raiseHalt where
  task := rfl
  options := rfl
  halts := Nat.le_of_eq Array.size_modify.symm
  idle _ := rfl
  kept _ := Array.size_modify
  raised halt hx := by
    rw [Executor.isHalted_raiseHalt]
    split
    · rfl
    · exact hx
  older halt hlt := by
    rw [Executor.isHalted_raiseHalt, if_neg fun h => Nat.ne_of_lt hlt h.1]

theorem works_cancelExecutor (y : System) (e : ExecutorId) :
    y.Works own (y.cancelExecutor e).2 := by
  unfold cancelExecutor
  split
  · exact .refl y
  · exact (works_modifyExecutor y _ follows_raiseHalt).trans (works_cancelTask _ _)

theorem works_cancelExecution (y : System) (x : Execution) : y.Works own (y.cancelExecution x) :=
  (works_cancelExecutor y _).trans (works_cancelContext _ _)

theorem works_foldl_cancelExecution (y : System) (xs : List Execution) :
    y.Works own (xs.foldl cancelExecution y) := by
  induction xs generalizing y with
  | nil => exact .refl y
  | cons x xs ih => exact (works_cancelExecution y x).trans (ih _)

/-! ## Start calls -/

section StartCall

variable {y : System} {e : ExecutorId}

theorem works_afterAttempt (executor : Executor) (context : ContextId) (attempt halt : Nat)
    (outcome : Outcome) :
    y.Works (some e) (y.afterAttempt e executor context attempt halt outcome).1 := by
  have hrecord : y.Works (some e) (y.modifyExecutor e (·.record attempt outcome)) := by
    refine works_modifyExecutor y e fun x => ?_
    cases outcome <;> exact .of_working rfl rfl rfl (Nat.le_refl _) fun _ => rfl
  obtain ⟨-, h⟩ | ⟨_, -, ⟨-, h⟩ | ⟨_, -, -, h⟩⟩ :=
    afterAttempt_eq y e executor context attempt halt outcome
  · rw [h]
    exact .refl y
  · rw [h]
    exact hrecord
  · rw [h]
    exact hrecord

theorem works_attemptContext {executor : Executor} {context : ContextId}
    {made : ContextId × System} (h : y.attemptContext executor context = some made) :
    y.Works own made.2 := by
  unfold attemptContext at h
  split at h
  · cases h
    exact works_newChild y _
  · exact works_newChildFor h

theorem works_beginAttempt (executor : Executor) (context : ContextId) (attempt halt : Nat) :
    y.Works (some e) (y.beginAttempt e executor context attempt halt).1 := by
  obtain ⟨-, h⟩ | ⟨c, z, started, u, _, hmade, hstart, h⟩ :=
    beginAttempt_eq y e executor context attempt halt
  · rw [h]
    exact .refl y
  · have hmake : y.Works (some e) z := works_attemptContext hmade
    have hbegin : z.Works (some e) u := by
      simpa only [hstart] using works_startTask z executor.task c
    rw [h]
    cases started with
    | true => exact hmake.trans hbegin
    | false =>
        exact ((hmake.trans hbegin).trans (works_cancelContext _ _)).trans
          (works_afterAttempt _ _ _ _ _)

theorem works_endAttempt (executor : Executor) (task : Task) (context : ContextId)
    (attempt halt : Nat) (runContext : ContextId) :
    y.Works (some e) (y.endAttempt e executor task context attempt halt runContext).1 := by
  have hcancel : y.Works (some e) (y.cancelContext runContext) := works_cancelContext y _
  obtain h | ⟨u, outcome, hu, -, h⟩ :=
    endAttempt_eq y e executor task context attempt halt runContext
  · rw [h]
    exact hcancel
  · rw [h]
    refine .trans ?_ (works_afterAttempt _ _ _ _ _)
    obtain rfl | ⟨instant, rfl⟩ := hu
    · exact hcancel
    · refine hcancel.trans (works_modifyExecutor _ e fun x => ?_)
      exact .of_working rfl rfl rfl (Nat.le_refl _) fun _ => rfl

theorem works_enter (executor : Executor) (task : Task) (context : ContextId) :
    y.Works (some e) (y.enter e executor task context).1 := by
  obtain ⟨_, h⟩ | ⟨-, -, h⟩ := enter_eq y e executor task context
  · rw [h]
    exact .refl y
  · rw [h]
    refine (works_modifyExecutor y e fun x => ?_).trans (works_beginAttempt _ _ _ _)
    exact .of_working rfl rfl rfl (by simp [Executor.renewHalt]) x.isHalted_renewHalt

/-- A start call that has begun does not stand at its beginning again. -/
def CallStatus.Begun : CallStatus → Prop
  | .at point => point ≠ .entered
  | .ended _ => True

theorem begun_afterAttempt (executor : Executor) (context : ContextId) (attempt halt : Nat)
    (outcome : Outcome) : (y.afterAttempt e executor context attempt halt outcome).2.Begun := by
  obtain ⟨-, h⟩ | ⟨_, -, ⟨-, h⟩ | ⟨_, -, -, h⟩⟩ :=
    afterAttempt_eq y e executor context attempt halt outcome
  · rw [h]
    trivial
  · rw [h]
    trivial
  · rw [h]
    exact CallPoint.noConfusion

theorem begun_beginAttempt (executor : Executor) (context : ContextId) (attempt halt : Nat) :
    (y.beginAttempt e executor context attempt halt).2.Begun := by
  obtain ⟨-, h⟩ | ⟨c, z, started, u, _, -, -, h⟩ :=
    beginAttempt_eq y e executor context attempt halt
  · rw [h]
    trivial
  · rw [h]
    cases started with
    | true => exact CallPoint.noConfusion
    | false => exact begun_afterAttempt _ _ _ _ _

theorem begun_endAttempt (executor : Executor) (task : Task) (context : ContextId)
    (attempt halt : Nat) (runContext : ContextId) :
    (y.endAttempt e executor task context attempt halt runContext).2.Begun := by
  obtain h | ⟨u, outcome, -, -, h⟩ :=
    endAttempt_eq y e executor task context attempt halt runContext
  · rw [h]
    trivial
  · rw [h]
    exact begun_afterAttempt _ _ _ _ _

theorem begun_enter (executor : Executor) (task : Task) (context : ContextId) :
    (y.enter e executor task context).2.Begun := by
  obtain ⟨_, h⟩ | ⟨-, -, h⟩ := enter_eq y e executor task context
  · rw [h]
    trivial
  · rw [h]
    exact begun_beginAttempt _ _ _ _

/-- A move of a start call is work of its executor. -/
theorem works_of_mem_executionMoves {context : ContextId} {point : CallPoint}
    {made : System × CallStatus} (h : made ∈ y.executionMoves e context point) :
    y.Works (some e) made.1 := by
  obtain ⟨x, task, -, -, hmove⟩ := executionMove_of_mem h
  cases hmove with
  | enter => exact works_enter _ _ _
  | endAttempt => exact works_endAttempt _ _ _ _ _ _
  | giveUp => exact .refl y
  | retry => exact works_beginAttempt _ _ _ _

theorem begun_of_mem_executionMoves {context : ContextId} {point : CallPoint}
    {made : System × CallStatus} (h : made ∈ y.executionMoves e context point) :
    made.2.Begun := by
  obtain ⟨x, task, -, -, hmove⟩ := executionMove_of_mem h
  cases hmove with
  | enter => exact begun_enter _ _ _
  | endAttempt => exact begun_endAttempt _ _ _ _ _ _
  | giveUp => trivial
  | retry => exact begun_beginAttempt _ _ _ _

end StartCall

end System

end Scheduling
