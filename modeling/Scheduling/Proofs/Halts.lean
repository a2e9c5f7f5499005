import Scheduling.Proofs.Executors
/-!
# Cancelling what is executing

The executor and the context of an executing plan serve nothing but its worker. So once the plan is
cancelled it stays so: its context stays done, a start call under a context that is done takes no
new halt flag, and no other one can be made.
-/

namespace Scheduling

/-- The executor that a request uses. -/
def Step.borrows : Step → Option ExecutorId
  | .request (.cancelExecutor e) | .request (.resetExecutor e) => some e
  | .request (.call (.start e _ _)) | .request (.call (.stop e _)) => some e
  | _ => none

section Change

variable {y z : System} {a : Step} {i : SchedulerId} {j : SessionId} {s s' : Scheduler}
  {n n' : Session} {v : Scheduler.Stores} {key : String} {x : Execution}

/-- A plan that is executing was so before, or was admitted just now with an executor and a context
of its own. -/
theorem Session.Change.executing_or (h : n.Change y z a i j s v n')
    (hx : v.executing.get? key = some x) :
    s.executing.get? key = some x ∨
      x = ⟨y.executors.size, y.contexts.nodes.size⟩ ∧
        (∃ parent, z.contexts = (y.contexts.child parent).2) ∧
        ∃ task options, z.executors = y.executors.push (Executor.create task options) := by
  cases h with
  | enter _ _ _ _ hc hz =>
      rw [Registry.get?_insert] at hx
      split at hx
      · cases hx
        exact .inr ⟨rfl, ⟨_, hc⟩, _, _, hz⟩
      · exact .inl hx
  | endWorker =>
      rw [Registry.get?_erase] at hx
      split at hx
      · cases hx
      · exact .inl hx
  | _ => exact .inl hx

theorem Scheduler.Change.executing_or (h : s.Change y z a i s')
    (hx : s'.executing.get? key = some x) :
    s.executing.get? key = some x ∨
      x = ⟨y.executors.size, y.contexts.nodes.size⟩ ∧
        (∃ parent, z.contexts = (y.contexts.child parent).2) ∧
        ∃ task options, z.executors = y.executors.push (Executor.create task options) := by
  obtain hreg | ⟨-, -, hn⟩ | ⟨-, -, rfl⟩ := h.outcome
  · exact .inl (hreg.registers.executing ▸ hx)
  · exact hn.executing_or hx
  · exact .inl hx

end Change

namespace System

/-! ## Start calls under a context that is done -/

/-- The halt flags of all executors. -/
def halts (y : System) : Array (Array Bool) := y.executors.map Executor.halts

section StartCall

variable {y z : System} {e : ExecutorId} {executor : Executor} {task : Task} {context : ContextId}
  {attempt halt : Nat}

theorem halts_modifyExecutor {f : Executor → Executor} (h : ∀ x, (f x).halts = x.halts) :
    (y.modifyExecutor e f).halts = y.halts := by
  refine Array.ext_getElem? fun k => ?_
  simp only [halts, modifyExecutor, Array.getElem?_map, Array.getElem?_modify]
  split
  · rw [Option.map_map]
    exact congrArg (Option.map · _) (funext h)
  · rfl

theorem halts_startTask (t : TaskId) (parent : ContextId) :
    (y.startTask t parent).2.halts = y.halts := by
  unfold startTask
  split
  · rfl
  · split <;> rfl

theorem halts_attemptContext {made : ContextId × System}
    (h : y.attemptContext executor context = some made) : made.2.halts = y.halts := by
  unfold attemptContext at h
  split at h
  · cases h
    rfl
  · obtain ⟨expiry, -, rfl⟩ := Option.map_eq_some_iff.1 h
    rfl

theorem halts_afterAttempt (outcome : Outcome) :
    (y.afterAttempt e executor context attempt halt outcome).1.halts = y.halts := by
  have hrecord : (y.modifyExecutor e (·.record attempt outcome)).halts = y.halts :=
    halts_modifyExecutor fun x => by cases outcome <;> rfl
  obtain ⟨-, h⟩ | ⟨_, -, ⟨-, h⟩ | ⟨_, -, -, h⟩⟩ :=
    afterAttempt_eq y e executor context attempt halt outcome
  · rw [h]
  · rw [h]
    exact hrecord
  · rw [h]
    exact hrecord

theorem halts_beginAttempt :
    (y.beginAttempt e executor context attempt halt).1.halts = y.halts := by
  obtain ⟨-, h⟩ | ⟨c, z, started, u, _, hmade, hstart, h⟩ :=
    beginAttempt_eq y e executor context attempt halt
  · rw [h]
  · have hu : u.halts = y.halts :=
      calc u.halts = (z.startTask executor.task c).2.halts := by rw [hstart]
        _ = z.halts := halts_startTask executor.task c
        _ = y.halts := halts_attemptContext hmade
    rw [h]
    cases started with
    | true => exact hu
    | false => exact (halts_afterAttempt _).trans hu

theorem halts_endAttempt (runContext : ContextId) :
    (y.endAttempt e executor task context attempt halt runContext).1.halts = y.halts := by
  obtain h | ⟨u, outcome, hu, -, h⟩ :=
    endAttempt_eq y e executor task context attempt halt runContext
  · rw [h]
    rfl
  · rw [h, halts_afterAttempt]
    obtain rfl | ⟨instant, rfl⟩ := hu
    · rfl
    · exact halts_modifyExecutor fun _ => rfl

/-- A start call under a context that is done is refused before it takes a halt flag. -/
theorem enter_of_isDone (h : y.contexts.isDone context = true) :
    (y.enter e executor task context).1 = y := by
  obtain ⟨_, hmade⟩ | ⟨-, herror, -⟩ := enter_eq y e executor task context
  · rw [hmade]
  · have hsome := ContextTree.isSome_error? y.contexts context
    rw [herror, h] at hsome
    cases hsome

theorem halts_of_mem_executionMoves {point : CallPoint} {made : System × CallStatus}
    (h : made ∈ y.executionMoves e context point) (hdone : y.contexts.isDone context = true) :
    made.1.halts = y.halts := by
  obtain ⟨executor, task, -, -, hmove⟩ := executionMove_of_mem h
  cases hmove with
  | enter => rw [enter_of_isDone hdone]
  | endAttempt => exact halts_endAttempt _
  | giveUp => rfl
  | retry => exact halts_beginAttempt

theorem halted_of_halts_eq {x : Executor} (h : z.halts = y.halts)
    (hx : y.executors[e]? = some x) (hhalted : x.Halted) :
    ∃ x' : Executor, z.executors[e]? = some x' ∧ x'.Halted := by
  have hlook : z.halts[e]? = y.halts[e]? := congrArg (·[e]?) h
  rw [halts, halts, Array.getElem?_map, Array.getElem?_map, hx] at hlook
  obtain ⟨x', hx', hsame⟩ := Option.map_eq_some_iff.1 hlook
  refine ⟨x', hx', ?_⟩
  unfold Executor.Halted Executor.isHalted Executor.currentHalt at hhalted ⊢
  rwa [hsame]

end StartCall

/-! ## Cancelled plans -/

/-- A plan that is executing was told to stop: its context is done, and the newest halt flag of its
executor was raised. -/
structure Cancelled (y : System) (x : Execution) : Prop where
  context : y.contexts.isDone x.context = true
  executor : ∃ executor : Executor, y.executors[x.executor]? = some executor ∧ executor.Halted

/-- A plan that is executing has an executor with a halt flag and a context. -/
structure Hosts (y : System) (x : Execution) : Prop where
  executor : ∃ executor : Executor,
    y.executors[x.executor]? = some executor ∧ 0 < executor.halts.size
  context : ∃ node : Context, y.contexts.nodes[x.context]? = some node ∧ x.context ∈ node.lineage

variable {y z : System} {x : Execution}

theorem Hosts.proceeds {own : Option ExecutorId} (h : y.Hosts x) (hz : y.Proceeds own z) :
    z.Hosts x where
  executor := by
    obtain ⟨executor, hexecutor, hpos⟩ := h.executor
    obtain ⟨executor', hexecutor', hfollows⟩ := hz.executors _ executor hexecutor
    exact ⟨executor', hexecutor', Nat.lt_of_lt_of_le hpos hfollows.halts⟩
  context := by
    obtain ⟨node, hnode, hmem⟩ := h.context
    obtain ⟨later, hlater, hlineage, -⟩ := hz.contexts.nodes _ node hnode
    exact ⟨later, hlater, hlineage ▸ hmem⟩

/-- What is cancelled stays so unless its executor is at work. -/
theorem Cancelled.proceeds {own : Option ExecutorId} (h : y.Cancelled x) (hz : y.Proceeds own z)
    (hown : own ≠ some x.executor) : z.Cancelled x where
  context := hz.contexts.isDone h.context
  executor := by
    obtain ⟨executor, hexecutor, hhalted⟩ := h.executor
    obtain ⟨executor', hexecutor', hfollows⟩ := hz.executors _ executor hexecutor
    exact ⟨executor', hexecutor', hfollows.halted hown hhalted⟩

theorem cancelled_cancelExecution (h : y.Hosts x) : (y.cancelExecution x).Cancelled x := by
  obtain ⟨executor, hexecutor, hpos⟩ := h.executor
  obtain ⟨node, hnode, hmem⟩ := h.context
  constructor
  · have hcancel : y.Works none (y.cancelExecutor x.executor).2 := works_cancelExecutor y _
    obtain ⟨node', hnode', hlineage, -⟩ := hcancel.contexts.nodes _ node hnode
    exact ContextTree.isDone_cancel hnode' (hlineage ▸ hmem)
  · have hraise : (y.modifyExecutor x.executor Executor.raiseHalt).executors[x.executor]? =
        some executor.raiseHalt := by
      change (y.executors.modify x.executor Executor.raiseHalt)[x.executor]? = _
      rw [Array.getElem?_modify, if_pos rfl, hexecutor]
      rfl
    have hcancel : (y.modifyExecutor x.executor Executor.raiseHalt).Works none
        (y.cancelExecutor x.executor).2 := by
      rw [cancelExecutor, hexecutor]
      exact works_cancelTask _ _
    obtain ⟨executor', hexecutor', hfollows⟩ := hcancel.executors _ _ hraise
    exact ⟨executor', hexecutor', hfollows.halted nofun (halted_raiseHalt hpos)⟩

/-- A task whose cancellation is requested is not running any more, be it that it is canceling. -/
theorem state_cancelTask_ne_running (y : System) (t : TaskId) :
    (y.cancelTask t).2.state t ≠ .running := by
  unfold cancelTask
  split
  · rename_i hnone
    simp [state, hnone]
  · rename_i task htask
    split
    · have hstate (u : System)
          (hu : u.tasks = y.tasks.modify t fun task => { task with state := .canceling }) :
          u.state t ≠ .running := by
        simp [state, hu, Array.getElem?_modify, htask]
      dsimp only
      split <;> exact hstate _ rfl
    · rename_i hstate
      simpa [state, htask] using hstate

theorem state_cancelExecution_ne_running {executor : Executor}
    (h : y.executors[x.executor]? = some executor) :
    (y.cancelExecution x).state executor.task ≠ .running := by
  have hcancel := state_cancelTask_ne_running (y.modifyExecutor x.executor Executor.raiseHalt)
    executor.task
  unfold cancelExecution cancelExecutor
  rw [h]
  exact hcancel

/-- Cancelling one plan after the other leaves all of them cancelled. -/
theorem cancelled_foldl_cancelExecution {xs : List Execution} (h : ∀ v ∈ xs, y.Hosts v)
    (hx : x ∈ xs ∨ y.Cancelled x) : (xs.foldl cancelExecution y).Cancelled x := by
  induction xs generalizing y with
  | nil => exact hx.resolve_left List.not_mem_nil
  | cons v xs ih =>
      have hstep : y.Proceeds none (y.cancelExecution v) :=
        (works_cancelExecution y v).proceeds rfl rfl rfl rfl
      refine ih (fun u hu => (h u (List.mem_cons_of_mem _ hu)).proceeds hstep) ?_
      obtain hmem | hcancelled := hx
      · obtain rfl | hmem := List.mem_cons.1 hmem
        · exact .inr (cancelled_cancelExecution (h x List.mem_cons_self))
        · exact .inl hmem
      · exact .inr (hcancelled.proceeds hstep nofun)

/-! ## Executors that are not used from outside -/

/-- Whether a step leaves the executors of executing plans alone: a request that uses one cannot be
made, as no scheduler hands them out. -/
def discreet (y : System) (a : Step) : Bool :=
  y.schedulers.all fun s => s.executing.values.all fun x => a.borrows != some x.executor

/-- The executor and the context of an executing plan serve nothing but its worker. -/
structure Reserves (y : System) (x : Execution) : Prop extends y.Hosts x where
  apart : ¬ y.Starts x.executor
  workers : ∀ {i : SchedulerId} {j : SessionId} {s : Scheduler} {n : Session} {w : Worker},
    y.schedulers[i]? = some s → s.sessions[j]? = some n → w ∈ n.workers →
      w.executor = x.executor → w.context = x.context

section Step

variable {y z : System} {a : Step} {i : SchedulerId} {e : ExecutorId} {x : Execution}
  {s s' : Scheduler} {key : String}

theorem borrows_ne_of_discreet (ha : y.discreet a = true) (hs : y.schedulers[i]? = some s)
    (hx : s.executing.get? key = some x) : a.borrows ≠ some x.executor := by
  have hall := (Array.all_eq_true'.1 ha) s (Array.mem_of_getElem? hs)
  have hne := List.all_eq_true.1 hall x (Registry.mem_values_iff.2 ⟨key, hx⟩)
  simpa using hne

/-- An executor that is at work belongs to a worker or to a call from outside, or is used by a
request. -/
theorem working_cases (h : y.step? a = some z) (hworking : y.working a = some e) :
    (∃ i j choice, a = .move (.worker i j e) choice ∧ y.Employs i j e) ∨
      y.Starts e ∨ a.borrows = some e := by
  cases a with
  | pass millis => cases hworking
  | request r =>
      cases r with
      | resetExecutor => exact .inr (.inr hworking)
      | call call =>
          cases call with
          | start => exact .inr (.inr hworking)
          | _ => cases hworking
      | _ => cases hworking
  | move actor choice =>
      cases actor with
      | call k =>
          simp only [working] at hworking
          split at hworking
          · rename_i e' c point hk
            cases hworking
            exact .inr (.inl ⟨k, c, point, hk⟩)
          · cases hworking
      | worker i j e' =>
          cases hworking
          obtain ⟨s, w, _, _, hs, hworker, -, -⟩ := workerMove_of_getElem? h
          obtain ⟨n, hn, hw⟩ := Scheduler.mem_of_worker? hworker
          obtain rfl := Scheduler.executor_of_worker? hworker
          exact .inl ⟨i, j, choice, rfl, employs_of_mem hs hn hw⟩
      | _ => cases hworking

/-- A call from outside was there before the step, or the step has just made it. -/
theorem starts_of_step (h : y.step? a = some z) (he : z.Starts e) :
    y.Starts e ∨ a.borrows = some e ∧ e < y.executors.size := by
  obtain hstarts | ⟨hworking, hlends⟩ := (proceeds_of_step h).starts e he
  · exact .inl hstarts
  · obtain ⟨hlt, hnone⟩ := lends_iff.1 hlends
    obtain ⟨i, j, _, -, hemploys⟩ | hstarts | hborrows := working_cases h hworking
    · exact absurd hemploys (hnone i j)
    · exact .inl hstarts
    · exact .inr ⟨hborrows, hlt⟩

theorem Reserves.step (hx : y.Reserves x) (h : y.step? a = some z)
    (ha : a.borrows ≠ some x.executor) : z.Reserves x where
  toHosts := hx.toHosts.proceeds (proceeds_of_step h)
  apart hstarts := by
    obtain hstarts | ⟨hborrows, -⟩ := starts_of_step h hstarts
    · exact hx.apart hstarts
    · exact ha hborrows
  workers hs' hn' hw' hexecutor := by
    obtain ⟨s, n, hs, hn, -, _, hchange⟩ | rfl := session_of_step h hs' hn'
    · obtain ⟨w, hw, -, hsame, hcontext, -⟩ | ⟨hnew, -, -⟩ := hchange.worker hw'
      · exact hcontext ▸ hx.workers hs hn hw (hsame.trans hexecutor)
      · -- A new worker has an executor that was not there before.
        obtain ⟨executor, hlook, -⟩ := hx.executor
        obtain ⟨hlt, -⟩ := Array.getElem?_eq_some_iff.1 hlook
        rw [← hexecutor, hnew] at hlt
        exact absurd hlt (Nat.lt_irrefl _)
    · simp [Scheduler.Session.create] at hw'

theorem Cancelled.step (hx : y.Cancelled x) (hy : y.Reserves x) (h : y.step? a = some z)
    (ha : a.borrows ≠ some x.executor) : z.Cancelled x := by
  by_cases hworking : y.working a = some x.executor
  · refine ⟨(proceeds_of_step h).contexts.isDone hx.context, ?_⟩
    obtain ⟨i, j, choice, rfl, -⟩ | hstarts | hborrows := working_cases h hworking
    · obtain ⟨s, w, u, status, hs, hworker, hmade, hmove⟩ := workerMove_of_getElem? h
      obtain ⟨n, hn, hw⟩ := Scheduler.mem_of_worker? hworker
      have hcontext : w.context = x.context :=
        hy.workers hs hn hw (Scheduler.executor_of_worker? hworker)
      obtain ⟨executor, hexecutor, hhalted⟩ := hx.executor
      have hhalts : u.halts = y.halts :=
        halts_of_mem_executionMoves (List.mem_of_getElem? hmade) (hcontext ▸ hx.context)
      have hz : z.halts = u.halts := by cases hmove <;> rfl
      exact halted_of_halts_eq (hz.trans hhalts) hexecutor hhalted
    · exact absurd hstarts hy.apart
    · exact absurd hborrows ha
  · exact hx.proceeds (proceeds_of_step h) hworking

end Step

section Admission

variable {y z : System} {a : Step} {i : SchedulerId} {x : Execution} {s : Scheduler}
  {key : String}

/-- A plan that was admitted just now shares its executor and its context with nobody. -/
theorem reserves_of_enter {task : TaskId} {options : ExecutorOptions} {parent : ContextId}
    (hy : y.Numbered) (h : y.step? a = some z) (hc : z.contexts = (y.contexts.child parent).2)
    (hz : z.executors = y.executors.push (Executor.create task options)) :
    z.Reserves ⟨y.executors.size, y.contexts.nodes.size⟩ where
  executor :=
    ⟨Executor.create task options, by rw [hz, Array.getElem?_push_size], Nat.zero_lt_one⟩
  context := by
    have hnode : z.contexts.nodes[y.contexts.nodes.size]? =
        some ⟨y.contexts.nodes.size :: y.contexts.lineage parent, y.contexts.deadline parent, false,
          none⟩ := by
      rw [hc, ContextTree.child, Array.getElem?_push_size]
    exact ⟨_, hnode, List.mem_cons_self⟩
  apart hstarts := by
    obtain hstarts | ⟨-, hlt⟩ := starts_of_step h hstarts
    · exact absurd (hy.starts_lt hstarts) (Nat.lt_irrefl _)
    · exact absurd hlt (Nat.lt_irrefl _)
  workers hs' hn' hw' hexecutor := by
    obtain ⟨s, n, hs, hn, -, _, hchange⟩ | rfl := session_of_step h hs' hn'
    · obtain ⟨w, hw, -, hsame, -, -⟩ | ⟨-, hcontext, -⟩ := hchange.worker hw'
      · have hlt := hy.lt (employs_of_mem hs hn hw)
        rw [hsame, hexecutor] at hlt
        exact absurd hlt (Nat.lt_irrefl _)
      · exact hcontext
    · simp [Scheduler.Session.create] at hw'

/-- Every plan that is executing has an executor and a context. -/
theorem ReachableBy.hosts {allowed : System → Step → Bool} (h : y.ReachableBy allowed)
    (hs : y.schedulers[i]? = some s) (hx : s.executing.get? key = some x) : y.Hosts x := by
  induction h generalizing s with
  | create origin => simp [System.create] at hs
  | step h _ hz ih =>
      obtain ⟨s₀, hs₀, hchange⟩ | ⟨_, -, hb⟩ := change_of_step hz hs
      · obtain hx₀ | ⟨rfl, ⟨parent, hc⟩, task, options, hpush⟩ := hchange.executing_or hx
        · exact (ih hs₀ hx₀).proceeds (proceeds_of_step hz)
        · exact (reserves_of_enter h.numbered hz hc hpush).toHosts
      · rw [eq_create_of_build hb] at hx
        cases hx

/-- As long as no executor of an executing plan is used from outside, each serves its worker
only. -/
theorem ReachableBy.reserves (h : y.ReachableBy discreet) (hs : y.schedulers[i]? = some s)
    (hx : s.executing.get? key = some x) : y.Reserves x := by
  induction h generalizing s with
  | create origin => simp [System.create] at hs
  | step h ha hz ih =>
      obtain ⟨s₀, hs₀, hchange⟩ | ⟨_, -, hb⟩ := change_of_step hz hs
      · obtain hx₀ | ⟨rfl, ⟨parent, hc⟩, task, options, hpush⟩ := hchange.executing_or hx
        · exact (ih hs₀ hx₀).step hz (borrows_ne_of_discreet ha hs₀ hx₀)
        · exact reserves_of_enter h.numbered hz hc hpush
      · rw [eq_create_of_build hb] at hx
        cases hx

end Admission

end System

end Scheduling
