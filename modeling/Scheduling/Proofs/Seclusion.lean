import Scheduling.Proofs.Work
/-!
# Contexts that no work uses

A context may be cancelled by its own timer, by a task whose run it belongs to and by that run. Work
hits no context that none of these use, and takes none into use but the new ones that it makes for
itself.
-/

namespace Scheduling

namespace ContextTree

variable {t u : ContextTree} {c d : ContextId}

/-- A context is none of those that are made between two stages of a tree. -/
def Apart (t u : ContextTree) (c : ContextId) : Prop :=
  c < t.nodes.size ∨ u.nodes.size ≤ c

/-- Between two stages of a tree a context is neither hit nor given a timer. -/
structure Spares (c : ContextId) (t u : ContextTree) : Prop where
  size : t.nodes.size ≤ u.nodes.size
  timers : t.Apart u c → c ∈ u.timers → c ∈ t.timers
  isHit : t.Apart u c → u.isHit c = t.isHit c

theorem spares_of_nodes_eq_modify {f : Context → Context} (hnodes : u.nodes = t.nodes.modify d f)
    (hsub : ∀ x, x ∈ u.timers → x ∈ t.timers) (hne : d ≠ c) : t.Spares c u where
  size := Nat.le_of_eq (by rw [hnodes, Array.size_modify])
  timers _ := hsub c
  isHit _ := by rw [isHit, get?, hnodes, Array.getElem?_modify, if_neg hne, isHit, get?]

theorem spares_hitWith (cause : Error) (hne : d ≠ c) : t.Spares c (t.hitWith d cause) := by
  have h : (t.hitWith d cause).nodes = t.nodes.modify d fun n =>
      { n with
        hit := true
        cause := if n.cause.isNone && !t.isDone d then some cause else n.cause } := rfl
  exact spares_of_nodes_eq_modify h (fun _ hx => (List.mem_filter.1 hx).1) hne

theorem spares_cancel (hne : d ≠ c) : t.Spares c (t.cancel d) := spares_hitWith _ hne

theorem spares_expire (hne : d ≠ c) : t.Spares c (t.expire d) := spares_hitWith _ hne

theorem spares_cancelSilently (hne : d ≠ c) : t.Spares c (t.cancelSilently d) := by
  have h : (t.cancelSilently d).nodes = t.nodes.modify d fun n => { n with hit := true } := rfl
  exact spares_of_nodes_eq_modify h (fun _ hx => (List.mem_filter.1 hx).1) hne

theorem Apart.ne_size {node : Context} (h : t.Apart u c) (hnodes : u.nodes = t.nodes.push node) :
    c ≠ t.nodes.size := by
  obtain hlt | hle := h
  · exact Nat.ne_of_lt hlt
  · rw [hnodes, Array.size_push] at hle
    exact Nat.ne_of_gt hle

theorem spares_of_nodes_eq_push {node : Context} (hnodes : u.nodes = t.nodes.push node)
    (hsub : ∀ x, x ∈ u.timers → x ∈ t.timers ∨ x = t.nodes.size) : t.Spares c u where
  size := by rw [hnodes, Array.size_push]; exact Nat.le_succ _
  timers hapart hmem := (hsub c hmem).resolve_right (hapart.ne_size hnodes)
  isHit hapart := by
    rw [isHit, get?, hnodes, Array.getElem?_push, if_neg (hapart.ne_size hnodes), isHit, get?]

theorem spares_background : t.Spares c t.background.2 :=
  spares_of_nodes_eq_push rfl fun _ hx => .inl hx

theorem spares_child (parent : ContextId) : t.Spares c (t.child parent).2 :=
  spares_of_nodes_eq_push rfl fun _ hx => .inl hx

theorem spares_childUntil (parent : ContextId) (expiry : Instant) :
    t.Spares c (t.childUntil parent expiry).2 := by
  refine spares_of_nodes_eq_push rfl fun x hx => ?_
  simp only [childUntil] at hx
  split at hx
  · exact .inl hx
  · exact (List.mem_append.1 hx).imp_right List.mem_singleton.1

end ContextTree

/-- A start call waits for the end of a run in a context. -/
def CallPoint.Awaits (point : CallPoint) (c : ContextId) : Prop :=
  ∃ attempt halt, point = .running attempt halt c

namespace System

variable {y z u : System} {c d : ContextId} {e : ExecutorId}

/-- Neither a timer, nor a task, nor a run uses a context. -/
structure Unused (y : System) (c : ContextId) : Prop where
  timers : c ∉ y.contexts.timers
  tasks : ∀ (t : TaskId) (task : Task), y.tasks[t]? = some task → task.runContext ≠ some c
  runs : ∀ (r : RunId) (run : Run), y.runs.get? r = some run → run.context ≠ c

/-- A context that is not used stays so and is not hit. -/
structure Spares (c : ContextId) (y z : System) : Prop where
  size : y.contexts.nodes.size ≤ z.contexts.nodes.size
  spared : y.contexts.Apart z.contexts c → y.Unused c →
    z.Unused c ∧ z.contexts.isHit c = y.contexts.isHit c

theorem Spares.trans (h : y.Spares c z) (h' : z.Spares c u) : y.Spares c u where
  size := Nat.le_trans h.size h'.size
  spared hapart hy := by
    have hfirst : y.contexts.Apart z.contexts c := hapart.imp_right (Nat.le_trans h'.size)
    have hlast : z.contexts.Apart u.contexts c :=
      hapart.imp_left fun hlt => Nat.lt_of_lt_of_le hlt h.size
    obtain ⟨hz, hhit⟩ := h.spared hfirst hy
    obtain ⟨hu, hhit'⟩ := h'.spared hlast hz
    exact ⟨hu, hhit'.trans hhit⟩

theorem spares_of_contexts (hcontexts : y.contexts.Spares c z.contexts)
    (htasks : z.tasks = y.tasks) (hruns : z.runs = y.runs) : y.Spares c z where
  size := hcontexts.size
  spared hapart hy :=
    ⟨⟨fun hmem => hy.timers (hcontexts.timers hapart hmem), htasks ▸ hy.tasks, hruns ▸ hy.runs⟩,
      hcontexts.isHit hapart⟩

theorem spares_of_eq (hcontexts : z.contexts = y.contexts) (htasks : z.tasks = y.tasks)
    (hruns : z.runs = y.runs) : y.Spares c z := by
  refine spares_of_contexts ?_ htasks hruns
  rw [hcontexts]
  exact ⟨Nat.le_refl _, fun _ => id, fun _ => rfl⟩

theorem Spares.refl (y : System) : y.Spares c y := spares_of_eq rfl rfl rfl

/-- A new state of a scheduler concerns no context. -/
theorem spares_setScheduler (y : System) (i : SchedulerId) (s : Scheduler) :
    y.Spares c (y.setScheduler i s) :=
  spares_of_eq rfl rfl rfl

/-- Work that has made a context may hit that one. -/
theorem Spares.trans_of_push {node : Context} (h : y.Spares c z)
    (hnodes : z.contexts.nodes = y.contexts.nodes.push node) (hgrows : z.contexts.Grows u.contexts)
    (h' : y.contexts.nodes.size ≠ c → z.Spares c u) : y.Spares c u where
  size := Nat.le_trans h.size hgrows.size_le
  spared hapart := by
    have hfirst : y.contexts.Apart z.contexts c := hapart.imp_right (Nat.le_trans hgrows.size_le)
    exact (h.trans (h' (hfirst.ne_size hnodes).symm)).spared hapart

/-! ## Contexts, tasks and runs -/

/-- What is cancelled is in use. -/
theorem spares_cancelContext (h : y.Unused c → d ≠ c) : y.Spares c (y.cancelContext d) where
  size := Nat.le_of_eq Array.size_modify.symm
  spared hapart hy := by
    have hspares : y.Spares c (y.cancelContext d) :=
      spares_of_contexts (ContextTree.spares_cancel (h hy)) rfl rfl
    exact hspares.spared hapart hy

/-- A context that is hit is not used for it. -/
theorem Unused.cancelContext (hy : y.Unused c) (d : ContextId) : (y.cancelContext d).Unused c where
  timers hmem := hy.timers (List.mem_filter.1 hmem).1
  tasks := hy.tasks
  runs := hy.runs

theorem spares_newChild (y : System) (parent : ContextId) : y.Spares c (y.newChild parent).2 :=
  spares_of_contexts (ContextTree.spares_child parent) rfl rfl

theorem spares_newChildFor {parent : ContextId} {timeout : Duration} {made : ContextId × System}
    (h : y.newChildFor parent timeout = some made) : y.Spares c made.2 := by
  obtain ⟨expiry, -, rfl⟩ := Option.map_eq_some_iff.1 h
  exact spares_of_contexts (ContextTree.spares_childUntil _ _) rfl rfl

/-- The tasks are those of before but for one, which uses the context no more than it did. -/
theorem runContext_ne_of_modify {f : Task → Task} {t t' : TaskId} {task' : Task}
    (hf : ∀ task : Task, task.runContext ≠ some c → (f task).runContext ≠ some c)
    (hy : y.Unused c) (htask' : (y.tasks.modify t f)[t']? = some task') :
    task'.runContext ≠ some c := by
  rw [Array.getElem?_modify] at htask'
  split at htask'
  · obtain ⟨task, htask, rfl⟩ := Option.map_eq_some_iff.1 htask'
    exact hf task (hy.tasks t' task htask)
  · exact hy.tasks t' task' htask'

theorem spares_modifyTask (y : System) (t : TaskId) {f : Task → Task}
    (hf : ∀ task : Task, task.runContext ≠ some c → (f task).runContext ≠ some c) :
    y.Spares c (y.modifyTask t f) where
  size := Nat.le_refl _
  spared _ hy := ⟨⟨hy.timers, fun _ _ => runContext_ne_of_modify hf hy, hy.runs⟩, rfl⟩

/-- Runs that go on keep their contexts. -/
theorem spares_of_runs (hcontexts : z.contexts = y.contexts) (htasks : z.tasks = y.tasks)
    (hruns : ∀ r run', z.runs.get? r = some run' →
      ∃ r' run, y.runs.get? r' = some run ∧ run'.context = run.context) : y.Spares c z where
  size := Nat.le_of_eq (by rw [hcontexts])
  spared _ hy := by
    refine ⟨⟨hcontexts ▸ hy.timers, htasks ▸ hy.tasks, fun r run' hrun' => ?_⟩, by rw [hcontexts]⟩
    obtain ⟨r', run, hrun, hsame⟩ := hruns r run' hrun'
    rw [hsame]
    exact hy.runs r' run hrun

/-- A run begins in a context that is new. -/
theorem spares_startTask (y : System) (t : TaskId) (parent : ContextId) :
    y.Spares c (y.startTask t parent).2 := by
  unfold startTask
  split
  · exact .refl y
  · split
    · exact .refl y
    · have hcontexts : y.contexts.Spares c (y.contexts.child parent).2 :=
        ContextTree.spares_child parent
      refine ⟨hcontexts.size, fun hapart hy => ⟨?_, hcontexts.isHit hapart⟩⟩
      have hne : y.contexts.nodes.size ≠ c := (hapart.ne_size rfl).symm
      have htask : ∀ task : Task, task.runContext ≠ some c →
          (task.begin y.contexts.nodes.size y.clock.wall).runContext ≠ some c :=
        fun _ _ h => hne (Option.some.inj h)
      refine ⟨fun hmem => hy.timers (hcontexts.timers hapart hmem),
        fun t' task' htask' => runContext_ne_of_modify htask hy htask', fun r run hrun => ?_⟩
      replace hrun : (y.runs.insert y.nextRun ⟨t, 0, y.contexts.nodes.size, .launched⟩).get? r =
        some run := hrun
      rw [Registry.get?_insert] at hrun
      split at hrun
      · cases hrun
        exact hne
      · exact hy.runs r run hrun

theorem spares_cancelTask (y : System) (t : TaskId) : y.Spares c (y.cancelTask t).2 := by
  unfold cancelTask
  split
  · exact .refl y
  · rename_i task htask
    split
    · have hmark := spares_modifyTask (c := c) y t
        (f := fun task => { task with state := .canceling }) fun _ h => h
      dsimp only
      split
      · rename_i d hd
        refine hmark.trans (spares_cancelContext fun hunused heq => ?_)
        have hsame : (y.tasks.modify t fun task => { task with state := .canceling })[t]? =
            some { task with state := .canceling } := by
          rw [Array.getElem?_modify, if_pos rfl, htask]
          rfl
        exact hunused.tasks t _ hsame (heq ▸ hd)
      · exact hmark
    · exact .refl y

theorem spares_runAt (y : System) (r : RunId) (point : RunPoint) :
    y.Spares c (y.runAt r point) := by
  refine spares_of_runs rfl rfl fun r' run' hrun' => ?_
  dsimp only [runAt] at hrun'
  rw [Registry.get?_modify] at hrun'
  split at hrun'
  · obtain ⟨run, hrun, rfl⟩ := Option.map_eq_some_iff.1 hrun'
    exact ⟨r', run, hrun, rfl⟩
  · exact ⟨r', run', hrun', rfl⟩

theorem spares_note (y : System) (run : Run) (n : Note) : y.Spares c (y.note run n) :=
  spares_of_eq rfl rfl rfl

theorem spares_endBody (y : System) (r : RunId) (run : Run) (outcome : Outcome) :
    y.Spares c (y.endBody r run outcome) :=
  (spares_note y _ _).trans (spares_runAt _ _ _)

theorem spares_endSleep (y : System) (r : RunId) (run : Run) (strict : Bool) (rest : List Action)
    (outcome : Outcome) : y.Spares c (y.endSleep r run strict rest outcome) := by
  unfold endSleep
  split
  · split
    · exact spares_runAt y _ _
    · exact spares_endBody y _ _ _
  · exact (spares_note y _ _).trans (spares_runAt _ _ _)

theorem spares_finishRun {r : RunId} {run : Run} (hrun : y.runs.get? r = some run)
    (outcome : Outcome) : y.Spares c (y.finishRun r run outcome) := by
  have hfinish := spares_modifyTask (c := c) y run.task
    (f := (·.finish outcome (y.contexts.error? run.context) y.clock.wall)) fun _ _ => nofun
  have hcancel := hfinish.trans (spares_cancelContext fun hunused => hunused.runs r run hrun)
  refine hcancel.trans (spares_of_runs rfl rfl fun r' run' hrun' => ⟨r', run', ?_, rfl⟩)
  replace hrun' : (y.runs.erase r).get? r' = some run' := hrun'
  rw [Registry.get?_erase] at hrun'
  split at hrun'
  · cases hrun'
  · exact hrun'

theorem spares_act {r : RunId} {run : Run} (hrun : y.runs.get? r = some run) (action : Action)
    (rest : List Action) : y.Spares c (y.act r run action rest) := by
  cases action with
  | sleep | trySleep | rawSleep | awaitDone => exact spares_runAt y _ _
  | progress | result =>
      refine .trans (spares_modifyTask y run.task ?_) (spares_runAt _ _ _)
      exact fun _ h => h
  | look | say => exact (spares_note y _ _).trans (spares_runAt _ _ _)
  | cancelContext =>
      exact (spares_cancelContext fun hunused => hunused.runs r run hrun).trans
        (spares_runAt _ _ _)
  | unkeyedResult | succeed | fail | failWithContext => exact spares_endBody y _ _ _
  | panic => exact spares_runAt y _ _
  | childSleep timeout d =>
      dsimp only [act]
      split
      · exact spares_runAt y _ _
      · rename_i h
        exact (spares_newChildFor h).trans (spares_runAt _ _ _)

theorem spares_of_mem_runMoves {r : RunId} (h : z ∈ y.runMoves r) : y.Spares c z := by
  unfold runMoves at h
  split at h
  · simp at h
  · rename_i run hrun
    split at h
    · split at h
      · simp at h
      · obtain rfl := List.mem_singleton.1 h
        have hcount := spares_modifyTask (c := c) y run.task
          (f := fun t => { t with runs := t.runs + 1 }) fun _ h => h
        refine hcount.trans (spares_of_runs rfl rfl fun r' run' hrun' => ?_)
        replace hrun' : (y.runs.insert r _).get? r' = some run' := hrun'
        rw [Registry.get?_insert] at hrun'
        split at hrun'
        · cases hrun'
          exact ⟨r, run, hrun, rfl⟩
        · exact ⟨r', run', hrun', rfl⟩
    · obtain rfl := List.mem_singleton.1 h
      exact spares_endBody y _ _ _
    · obtain rfl := List.mem_singleton.1 h
      exact spares_act hrun _ _
    · rcases List.mem_append.1 h with h | h
      · split at h
        · obtain ⟨-, rfl⟩ := of_mem_guarded h
          exact spares_endSleep y _ _ _ _ _
        · simp at h
      · obtain ⟨-, rfl⟩ := of_mem_guarded h
        exact spares_endSleep y _ _ _ _ _
    · obtain ⟨-, rfl⟩ := of_mem_guarded h
      exact spares_runAt y _ _
    · obtain rfl := List.mem_singleton.1 h
      exact spares_finishRun hrun _

/-! ## Executors -/

theorem spares_modifyExecutor (y : System) (f : Executor → Executor) :
    y.Spares c (y.modifyExecutor e f) :=
  spares_of_eq rfl rfl rfl

theorem spares_cancelExecutor (y : System) (e : ExecutorId) :
    y.Spares c (y.cancelExecutor e).2 := by
  unfold cancelExecutor
  split
  · exact .refl y
  · exact (spares_modifyExecutor y _).trans (spares_cancelTask _ _)

theorem spares_cancelExecution {x : Execution} (hx : x.context ≠ c) :
    y.Spares c (y.cancelExecution x) :=
  (spares_cancelExecutor y _).trans (spares_cancelContext fun _ => hx)

theorem spares_foldl_cancelExecution {xs : List Execution} (hxs : ∀ x ∈ xs, x.context ≠ c) :
    y.Spares c (xs.foldl cancelExecution y) := by
  induction xs generalizing y with
  | nil => exact .refl y
  | cons x xs ih =>
      exact (spares_cancelExecution (hxs x List.mem_cons_self)).trans
        (ih fun v hv => hxs v (List.mem_cons_of_mem _ hv))

/-! ## Start calls -/

section StartCall

variable {executor : Executor} {context : ContextId} {attempt halt : Nat}

theorem spares_afterAttempt (outcome : Outcome) :
    y.Spares c (y.afterAttempt e executor context attempt halt outcome).1 := by
  obtain ⟨-, h⟩ | ⟨_, -, ⟨-, h⟩ | ⟨_, -, -, h⟩⟩ :=
    afterAttempt_eq y e executor context attempt halt outcome
  · rw [h]
    exact .refl y
  · rw [h]
    exact spares_modifyExecutor y _
  · rw [h]
    exact spares_modifyExecutor y _

theorem spares_attemptContext {made : ContextId × System}
    (h : y.attemptContext executor context = some made) :
    y.Spares c made.2 ∧ made.1 = y.contexts.nodes.size ∧
      ∃ node, made.2.contexts.nodes = y.contexts.nodes.push node := by
  unfold attemptContext at h
  split at h
  · cases h
    exact ⟨spares_newChild y _, rfl, _, rfl⟩
  · refine ⟨spares_newChildFor h, ?_⟩
    obtain ⟨expiry, -, rfl⟩ := Option.map_eq_some_iff.1 h
    exact ⟨rfl, _, rfl⟩

/-- An attempt cancels no context but the one that it has made for itself. -/
theorem spares_beginAttempt :
    y.Spares c (y.beginAttempt e executor context attempt halt).1 := by
  obtain ⟨-, h⟩ | ⟨d, z, started, u, _, hmade, hstart, h⟩ :=
    beginAttempt_eq y e executor context attempt halt
  · rw [h]
    exact .refl y
  · obtain ⟨hmake, rfl, node, hnodes⟩ := spares_attemptContext hmade
    have hbegin : z.Spares c u := by
      simpa only [hstart] using spares_startTask z executor.task y.contexts.nodes.size
    have hworks : z.Works (some e) u := by
      simpa only [hstart] using works_startTask z executor.task y.contexts.nodes.size
    rw [h]
    cases started with
    | true => exact hmake.trans hbegin
    | false =>
        refine hmake.trans_of_push hnodes ?_ fun hne =>
          (hbegin.trans (spares_cancelContext fun _ => hne)).trans (spares_afterAttempt _)
        exact ((hworks.trans (works_cancelContext _ _)).trans
          (works_afterAttempt _ _ _ _ _)).contexts

theorem spares_endAttempt {task : Task} {runContext : ContextId} (hne : runContext ≠ c) :
    y.Spares c (y.endAttempt e executor task context attempt halt runContext).1 := by
  have hcancel : y.Spares c (y.cancelContext runContext) := spares_cancelContext fun _ => hne
  obtain h | ⟨u, outcome, hu, -, h⟩ :=
    endAttempt_eq y e executor task context attempt halt runContext
  · rw [h]
    exact hcancel
  · rw [h]
    refine .trans ?_ (spares_afterAttempt _)
    obtain rfl | ⟨instant, rfl⟩ := hu
    · exact hcancel
    · exact hcancel.trans (spares_modifyExecutor _ _)

theorem spares_enter {task : Task} : y.Spares c (y.enter e executor task context).1 := by
  obtain ⟨_, h⟩ | ⟨-, -, h⟩ := enter_eq y e executor task context
  · rw [h]
    exact .refl y
  · rw [h]
    exact (spares_modifyExecutor y _).trans spares_beginAttempt

/-- A start call hits no context but that of the run for whose end it waits. -/
theorem spares_of_mem_executionMoves {point : CallPoint} {made : System × CallStatus}
    (h : made ∈ y.executionMoves e context point) (hpoint : ¬ point.Awaits c) :
    y.Spares c made.1 := by
  obtain ⟨executor, task, -, -, hmove⟩ := executionMove_of_mem h
  cases hmove with
  | enter => exact spares_enter
  | endAttempt => exact spares_endAttempt fun heq => hpoint ⟨_, _, by rw [heq]⟩
  | giveUp => exact .refl y
  | retry => exact spares_beginAttempt

theorem not_awaits_afterAttempt {outcome : Outcome} {point : CallPoint}
    (h : y.afterAttempt e executor context attempt halt outcome = (z, .at point)) :
    ¬ point.Awaits c := by
  rintro ⟨_, _, rfl⟩
  obtain ⟨-, hmade⟩ | ⟨_, -, ⟨-, hmade⟩ | ⟨_, -, -, hmade⟩⟩ :=
    afterAttempt_eq y e executor context attempt halt outcome <;>
    cases hmade.symm.trans h

/-- An attempt waits for its run in the context that it has made for it. -/
theorem not_awaits_beginAttempt {point : CallPoint}
    (h : y.beginAttempt e executor context attempt halt = (z, .at point))
    (hapart : y.contexts.Apart z.contexts c) : ¬ point.Awaits c := by
  obtain ⟨-, hmade⟩ | ⟨d, u, started, v, _, hcontext, hstart, hmade⟩ :=
    beginAttempt_eq y e executor context attempt halt
  · cases hmade.symm.trans h
  · obtain ⟨-, rfl, node, hnodes⟩ := spares_attemptContext (c := c) hcontext
    replace hmade := hmade.symm.trans h
    cases started with
    | false => exact not_awaits_afterAttempt hmade
    | true =>
        obtain ⟨rfl, rfl⟩ : v = z ∧ .running attempt halt y.contexts.nodes.size = point := by
          simpa using hmade
        have hworks : u.Works (some e) v := by
          simpa only [hstart] using works_startTask u executor.task y.contexts.nodes.size
        have hfirst : y.contexts.Apart u.contexts c :=
          hapart.imp_right (Nat.le_trans hworks.contexts.size_le)
        rintro ⟨_, _, heq⟩
        injection heq with _ _ heq
        exact hfirst.ne_size hnodes heq.symm

theorem not_awaits_endAttempt {task : Task} {runContext : ContextId} {point : CallPoint}
    (h : y.endAttempt e executor task context attempt halt runContext = (z, .at point)) :
    ¬ point.Awaits c := by
  obtain hmade | ⟨u, outcome, -, -, hmade⟩ :=
    endAttempt_eq y e executor task context attempt halt runContext
  · cases hmade.symm.trans h
  · exact not_awaits_afterAttempt (hmade.symm.trans h)

theorem not_awaits_enter {task : Task} {point : CallPoint}
    (h : y.enter e executor task context = (z, .at point))
    (hapart : y.contexts.Apart z.contexts c) : ¬ point.Awaits c := by
  obtain ⟨_, hmade⟩ | ⟨-, -, hmade⟩ := enter_eq y e executor task context
  · cases hmade.symm.trans h
  · exact not_awaits_beginAttempt (hmade.symm.trans h) hapart

theorem not_awaits_of_mem_executionMoves {point point' : CallPoint}
    (h : (z, .at point') ∈ y.executionMoves e context point)
    (hapart : y.contexts.Apart z.contexts c) : ¬ point'.Awaits c := by
  obtain ⟨executor, task, -, -, hmove⟩ := executionMove_of_mem h
  generalize hmade : (z, CallStatus.at point') = made at hmove
  cases hmove with
  | enter => exact not_awaits_enter hmade.symm hapart
  | endAttempt => exact not_awaits_endAttempt hmade.symm
  | giveUp => cases hmade
  | retry => exact not_awaits_beginAttempt hmade.symm hapart

end StartCall

end System

end Scheduling
