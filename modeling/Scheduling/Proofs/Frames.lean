import Scheduling.Proofs.Changes
/-!
# What a step leaves alone

In every step contexts are only added and hit, tasks stay what they are, and no executor changes in
more than its halt flags but the one whose start call moves. The start calls from outside are those
of executors that are no worker's.
-/

namespace Scheduling.System

/-- A start call from outside runs under an executor. -/
def Starts (y : System) (e : ExecutorId) : Prop :=
  ∃ (k : CallId) (c : ContextId) (point : CallPoint), y.calls[k]? = some (.start e c point)

/-- The second system comes after the first by a step in which at most the executor `own` makes a
start call. -/
structure Proceeds (own : Option ExecutorId) (y z : System) : Prop where
  contexts : y.contexts.Grows z.contexts
  tasks : y.TasksEndure z
  executors : ∀ (e : ExecutorId) (x : Executor), y.executors[e]? = some x →
    ∃ x' : Executor, z.executors[e]? = some x' ∧ x.Follows (own = some e) x'
  starts : ∀ e : ExecutorId, z.Starts e → y.Starts e ∨ own = some e ∧ y.lends e = true

variable {own : Option ExecutorId} {y z u : System}

theorem Proceeds.executors_size (h : y.Proceeds own z) : y.executors.size ≤ z.executors.size := by
  refine Nat.le_of_not_lt fun hlt => ?_
  obtain ⟨x', hx', -⟩ := h.executors z.executors.size _ (Array.getElem?_eq_getElem (by omega))
  obtain ⟨hlt', -⟩ := Array.getElem?_eq_some_iff.1 hx'
  omega

theorem Proceeds.hasContext {c : ContextId} (h : y.Proceeds own z)
    (hc : y.hasContext c = true) : z.hasContext c = true := by
  simp only [System.hasContext, decide_eq_true_eq] at hc ⊢
  obtain ⟨later, hlater, -⟩ := h.contexts.nodes c _ (Array.getElem?_eq_getElem hc)
  exact (Array.getElem?_eq_some_iff.1 hlater).1

/-- A plan goes on to carry the identifier of its task. -/
theorem Proceeds.knows {p : Plan} (h : y.Proceeds own z) (hp : y.knows p = true) :
    z.knows p = true := by
  simp only [System.knows, Bool.and_eq_true, Option.any_eq_true] at hp ⊢
  obtain ⟨hcontext, task, htask, hkey, hcreated⟩ := hp
  obtain ⟨task', htask', hendures⟩ := h.tasks p.task task htask
  refine ⟨h.hasContext hcontext, task', htask', ?_, ?_⟩
  · rw [hendures.id]
    exact hkey
  · rw [hendures.createdAt]
    exact hcreated

theorem starts_of_calls_eq (h : z.calls = y.calls) {e : ExecutorId} (he : z.Starts e) :
    y.Starts e := by
  obtain ⟨k, c, point, hk⟩ := he
  exact ⟨k, c, point, h ▸ hk⟩

theorem starts_of_callAt {k : CallId} {call : Call} {e : ExecutorId}
    (h : (y.callAt k call).Starts e) :
    y.Starts e ∨ ∃ (c : ContextId) (point : CallPoint), call = .start e c point := by
  obtain ⟨k', c, point, hk'⟩ := h
  replace hk' : (y.calls.modify k fun _ => call)[k']? = some (.start e c point) := hk'
  rw [Array.getElem?_modify] at hk'
  split at hk'
  · obtain ⟨_, -, hcall⟩ := Option.map_eq_some_iff.1 hk'
    exact .inr ⟨c, point, hcall⟩
  · exact .inl ⟨k', c, point, hk'⟩

/-- Work on a system that agrees with another but for its schedulers, queues and tables. -/
theorem Works.proceeds (h : y.Works own z) (hc : y.contexts = u.contexts)
    (htasks : y.tasks = u.tasks) (hx : y.executors = u.executors) (hcalls : y.calls = u.calls) :
    u.Proceeds own z where
  contexts := hc ▸ h.contexts
  tasks := (tasksEndure_of_eq htasks).trans h.tasks
  executors e x he := h.executors e x (hx ▸ he)
  starts _ he := .inl (starts_of_calls_eq (h.calls.trans hcalls) he)

theorem proceeds_of_eq (hc : y.contexts.Grows z.contexts) (htasks : z.tasks = y.tasks)
    (hx : z.executors = y.executors) (hcalls : z.calls = y.calls) : y.Proceeds own z where
  contexts := hc
  tasks := tasksEndure_of_eq htasks
  executors _ x he := ⟨x, hx ▸ he, .refl x⟩
  starts _ he := .inl (starts_of_calls_eq hcalls he)

theorem proceeds_of_push {x : Executor} (hc : y.contexts.Grows z.contexts)
    (htasks : z.tasks = y.tasks) (hx : z.executors = y.executors.push x)
    (hcalls : z.calls = y.calls) : y.Proceeds own z where
  contexts := hc
  tasks := tasksEndure_of_eq htasks
  executors e x₀ he := by
    obtain ⟨hlt, hget⟩ := Array.getElem?_eq_some_iff.1 he
    exact ⟨x₀, by rw [hx, Array.getElem?_push_lt hlt, hget], .refl x₀⟩
  starts _ he := .inl (starts_of_calls_eq hcalls he)

/-- A call goes to another point; a start call goes on under its executor. -/
theorem Proceeds.callAt {k : CallId} {call : Call} (h : y.Proceeds own u)
    (hcall : ∀ e c point, call = .start e c point → y.Starts e) :
    y.Proceeds own (u.callAt k call) where
  contexts := h.contexts
  tasks := h.tasks
  executors := h.executors
  starts e he := by
    obtain he | ⟨c, point, hstart⟩ := starts_of_callAt he
    · exact h.starts e he
    · exact .inl (hcall e c point hstart)

/-! ## Requests -/

theorem proceeds_addPlans (y : System) (k : SchedulerId) (plans : List Plan) :
    y.Proceeds own ((y.addPlans k plans).toOption.getD y) := by
  obtain hsame | ⟨_, _, -, -, hset⟩ := addPlans_cases y k plans
  · rw [hsame]
    exact proceeds_of_eq (.refl _) rfl rfl rfl
  · rw [hset]
    exact proceeds_of_eq (.refl _) rfl rfl rfl

theorem proceeds_removePlan (y : System) (k : SchedulerId) (p : Plan) :
    y.Proceeds own (y.removePlan k p) := by
  cases hs : y.schedulers[k]? with
  | none =>
      have hsame : y.removePlan k p = y := by simp [removePlan, hs]
      rw [hsame]
      exact (Works.refl y).proceeds rfl rfl rfl rfl
  | some s => exact (works_removePlan hs).proceeds rfl rfl rfl rfl

theorem proceeds_startScheduler (y : System) (k : SchedulerId) (c : ContextId) :
    y.Proceeds own (y.startScheduler k c) := by
  obtain hsame | ⟨_, -, -, hstart⟩ := startScheduler_cases y k c
  · rw [hsame]
    exact proceeds_of_eq (.refl _) rfl rfl rfl
  · rw [hstart]
    exact proceeds_of_eq (ContextTree.grows_child _ _) rfl rfl rfl

/-- An executor that a request uses may be used from outside. -/
theorem lends_of_accepts {r : Request} {e : ExecutorId} (h : y.accepts r = true)
    (hworking : y.working (.request r) = some e) : y.lends e = true := by
  cases r with
  | resetExecutor =>
      cases hworking
      exact h
  | call call =>
      cases call with
      | start _ _ point =>
          cases hworking
          cases point with
          | entered =>
              have haccepts : (y.lends e && y.hasContext _) = true := h
              exact (Bool.and_eq_true_iff.1 haccepts).1
          | _ => cases h
      | _ => cases hworking
  | _ => cases hworking

theorem proceeds_call {call : Call} (h : y.accepts (.call call) = true) :
    y.Proceeds (y.working (.request (.call call))) { y with calls := y.calls.push call } where
  contexts := .refl _
  tasks := tasksEndure_of_eq rfl
  executors e x he := ⟨x, he, .refl x⟩
  starts e he := by
    obtain ⟨k, c, point, hk⟩ := he
    replace hk : (y.calls.push call)[k]? = some (.start e c point) := hk
    rw [Array.getElem?_push] at hk
    split at hk
    · cases hk
      exact .inr ⟨rfl, lends_of_accepts h rfl⟩
    · exact .inl ⟨k, c, point, hk⟩

theorem proceeds_carryOut {r : Request} (h : y.accepts r = true) :
    y.Proceeds (y.working (.request r)) (y.carryOut r) := by
  cases r with
  | call call => exact proceeds_call h
  | addPlans k plans => exact proceeds_addPlans y k plans
  | removePlan k p => exact proceeds_removePlan y k p
  | startScheduler k c => exact proceeds_startScheduler y k c
  | cancelPlan k key => exact (works_cancelPlan y k key).proceeds rfl rfl rfl rfl
  | cancelExecutor e => exact (works_cancelExecutor y e).proceeds rfl rfl rfl rfl
  | cancelTask t => exact (works_cancelTask y t).proceeds rfl rfl rfl rfl
  | startTask t c => exact (works_startTask y t c).proceeds rfl rfl rfl rfl
  | cancelContext c => exact (works_cancelContext y c).proceeds rfl rfl rfl rfl
  | newContext => exact proceeds_of_eq (ContextTree.grows_background _) rfl rfl rfl
  | newChild c => exact (works_newChild y c).proceeds rfl rfl rfl rfl
  | cancelSilently c => exact proceeds_of_eq (ContextTree.grows_cancelSilently _ _) rfl rfl rfl
  | newTask id labels body =>
      refine ⟨.refl _, fun t task htask => ⟨task, ?_, .refl task⟩,
        fun _ x he => ⟨x, he, .refl x⟩, fun _ he => .inl (starts_of_calls_eq rfl he)⟩
      obtain ⟨hlt, hget⟩ := Array.getElem?_eq_some_iff.1 htask
      change (y.tasks.push _)[t]? = some task
      rw [Array.getElem?_push_lt hlt, hget]
  | newExecutor t options => exact proceeds_of_push (.refl _) rfl rfl rfl
  | resetExecutor e =>
      have hworks : y.Works (some e) (y.modifyExecutor e Executor.reset) :=
        works_modifyExecutor y e fun x =>
          .of_working rfl rfl rfl (by simp [Executor.reset, Executor.renewHalt]) fun halt =>
            Executor.isHalted_renewHalt _ halt
      exact hworks.proceeds rfl rfl rfl rfl
  | newChildFor parent timeout =>
      cases hmade : y.newChildFor parent timeout with
      | none =>
          simp only [carryOut, hmade]
          exact (Works.refl y).proceeds rfl rfl rfl rfl
      | some made =>
          simp only [carryOut, hmade]
          exact (works_newChildFor hmade).proceeds rfl rfl rfl rfl
  | addEntry k name expression =>
      unfold carryOut
      dsimp only
      split <;> exact proceeds_of_eq (.refl _) rfl rfl rfl
  | newScheduler b =>
      unfold carryOut
      dsimp only
      split <;> exact proceeds_of_eq (.refl _) rfl rfl rfl
  | _ => exact proceeds_of_eq (.refl _) rfl rfl rfl

/-! ## Moves -/

theorem proceeds_requestStop (y : System) (k : SchedulerId) (wait : Bool) :
    y.Proceeds own (y.requestStop k wait).2 := by
  obtain ⟨u, rfl | ⟨_, _, -, -, rfl⟩, hstop | ⟨_, hstop⟩⟩ := requestStop_cases y k wait <;>
    rw [hstop]
  · exact proceeds_of_eq (.refl _) rfl rfl rfl
  · exact proceeds_of_eq (.refl _) rfl rfl rfl
  · exact proceeds_of_eq (ContextTree.grows_cancel _ _) rfl rfl rfl
  · exact proceeds_of_eq (ContextTree.grows_cancel _ _) rfl rfl rfl

theorem CallMove.proceeds {k : CallId} {choice : Nat} {call call' : Call}
    (h : y.CallMove call u call') (hcall : y.calls[k]? = some call) :
    y.Proceeds (y.working (.move (.call k) choice)) u := by
  cases h with
  | goOn hmade | returns hmade | panics hmade =>
      simp only [working, hcall]
      exact (works_of_mem_executionMoves hmade).proceeds rfl rfl rfl rfl
  | stopAndWait | stop => exact (works_cancelExecutor y _).proceeds rfl rfl rfl rfl
  | waitOn | pop => exact proceeds_of_eq (.refl _) rfl rfl rfl
  | @awaitEnd i _ wait _ hstop | @stopScheduler i wait _ hstop =>
      have hproceeds : y.Proceeds (y.working (.move (.call k) choice)) (y.requestStop i wait).2 :=
        proceeds_requestStop y i wait
      rw [hstop] at hproceeds
      exact hproceeds
  | _ => exact (Works.refl y).proceeds rfl rfl rfl rfl

theorem proceeds_of_mem_callMoves {k : CallId} {choice : Nat} (h : z ∈ y.callMoves k) :
    y.Proceeds (y.working (.move (.call k) choice)) z := by
  obtain ⟨call, u, call', hcall, hmove, rfl⟩ := callMove_of_mem h
  refine (hmove.proceeds hcall).callAt fun e c point hstart => ?_
  cases hmove with
  | goOn =>
      cases hstart
      exact ⟨k, _, _, hcall⟩
  | _ => cases hstart

theorem proceeds_of_mem_dispatchMoves {k : SchedulerId} {j : SessionId}
    (h : z ∈ y.dispatchMoves k j) : y.Proceeds own z := by
  obtain ⟨s, -, hmove⟩ := of_mem_dispatchMoves h
  cases hmove with
  | move _ hz | skip _ _ hz =>
      subst hz
      exact proceeds_of_eq (.refl _) rfl rfl rfl
  | enter _ _ hz =>
      subst hz
      exact proceeds_of_push (ContextTree.grows_child _ _) rfl rfl rfl
  | @cancelAll s' _ hz =>
      subst hz
      exact (works_foldl_cancelExecution (y.setScheduler k s') _).proceeds rfl rfl rfl rfl

theorem proceeds_of_workerMoves {k : SchedulerId} {j : SessionId} {e : ExecutorId} {choice : Nat}
    (h : (y.workerMoves k j e)[choice]? = some z) : y.Proceeds (some e) z := by
  obtain ⟨s, w, u, status, -, hworker, hmade, hmove⟩ := workerMove_of_getElem? h
  obtain rfl := Scheduler.executor_of_worker? hworker
  have hu : y.Works (some w.executor) u :=
    works_of_mem_executionMoves (List.mem_of_getElem? hmade)
  have hproceeds : y.Proceeds (some w.executor) u := hu.proceeds rfl rfl rfl rfl
  cases hmove with
  | goOn | panics => exact ⟨hu.contexts, hu.tasks, hu.executors, hproceeds.starts⟩
  | returns =>
      exact ⟨hu.contexts.trans (ContextTree.grows_cancel _ _), hu.tasks, hu.executors,
        hproceeds.starts⟩

/-- A new state of a scheduler alone changes nothing around it. -/
theorem proceeds_setScheduler (y : System) (k : SchedulerId) (s : Scheduler) :
    y.Proceeds own (y.setScheduler k s) :=
  proceeds_of_eq (.refl _) rfl rfl rfl

/-- What every step leaves alone. -/
theorem proceeds_of_step {a : Step} (h : y.step? a = some z) : y.Proceeds (y.working a) z := by
  cases a with
  | request r =>
      obtain ⟨haccepts, rfl⟩ := step_request_iff.1 h
      exact proceeds_carryOut haccepts
  | pass millis =>
      obtain ⟨-, rfl⟩ := step_pass_iff.1 h
      exact proceeds_of_eq (.refl _) rfl rfl rfl
  | move actor choice =>
      have hmem : z ∈ y.moves actor := List.mem_of_getElem? h
      cases actor with
      | deadline c =>
          obtain ⟨-, rfl⟩ := of_mem_guarded hmem
          exact proceeds_of_eq (ContextTree.grows_expire _ _) rfl rfl rfl
      | run r => exact (works_of_mem_runMoves hmem).proceeds rfl rfl rfl rfl
      | call k => exact proceeds_of_mem_callMoves hmem
      | tableTimer k timer =>
          obtain ⟨_, _, _, -, -, rfl⟩ := of_mem_tableTimerMoves hmem
          exact proceeds_of_eq (.refl _) rfl rfl rfl
      | planTimer k timer =>
          obtain ⟨_, s, -, -, rfl⟩ := of_mem_planTimerMoves hmem
          exact proceeds_setScheduler y k s
      | fetch k j =>
          obtain ⟨_, s, -, -, rfl⟩ := of_mem_fetchMoves hmem
          exact proceeds_setScheduler y k s
      | dispatch k j => exact proceeds_of_mem_dispatchMoves hmem
      | supervisor k j =>
          obtain ⟨_, s, -, -, rfl⟩ := of_mem_closeMoves hmem
          exact proceeds_setScheduler y k s
      | worker k j e => exact proceeds_of_workerMoves h

/-! ## Calls -/

/-- The calls after a step are those before it, with one more if one is made, or one of them has
made a move. -/
inductive CallsStep (y z : System) : Step → Prop
  | kept {a : Step} (h : z.calls = y.calls) : CallsStep y z a
  | made {call : Call} (haccepts : y.acceptsCall call = true)
      (h : z = { y with calls := y.calls.push call }) : CallsStep y z (.request (.call call))
  | moved {k : CallId} {choice : Nat} {call call' : Call} {u : System}
      (hcall : y.calls[k]? = some call) (hmove : y.CallMove call u call')
      (h : z = u.callAt k call') : CallsStep y z (.move (.call k) choice)

theorem calls_removePlan (y : System) (i : SchedulerId) (p : Plan) :
    (y.removePlan i p).calls = y.calls := by
  cases hs : y.schedulers[i]? with
  | none => simp [removePlan, hs]
  | some s =>
      have hworks : (y.setScheduler i ((s.unschedule p.key).dequeue p.key)).Works none
          (y.removePlan i p) := works_removePlan hs
      exact hworks.calls

theorem calls_carryOut (y : System) {r : Request} (hr : ∀ call, r ≠ .call call) :
    (y.carryOut r).calls = y.calls := by
  cases r with
  | call call => exact absurd rfl (hr call)
  | cancelPlan k key => exact (show y.Works none _ from works_cancelPlan y k key).calls
  | cancelExecutor e => exact (show y.Works none _ from works_cancelExecutor y e).calls
  | cancelTask t => exact (show y.Works none _ from works_cancelTask y t).calls
  | startTask t c => exact (show y.Works none _ from works_startTask y t c).calls
  | removePlan k p => exact calls_removePlan y k p
  | addPlans k plans =>
      simp only [carryOut]
      obtain hsame | ⟨_, _, -, -, hset⟩ := addPlans_cases y k plans
      · rw [hsame]
      · rw [hset]
        rfl
  | startScheduler k c =>
      simp only [carryOut]
      obtain hsame | ⟨_, -, -, hstart⟩ := startScheduler_cases y k c
      · rw [hsame]
      · rw [hstart]
        rfl
  | newChildFor parent timeout =>
      cases hmade : y.newChildFor parent timeout with
      | none => simp [carryOut, hmade]
      | some made =>
          simp only [carryOut, hmade]
          exact (show y.Works none _ from works_newChildFor hmade).calls
  | addEntry | newScheduler =>
      simp only [carryOut]
      split <;> rfl
  | _ => rfl

theorem calls_requestStop (y : System) (i : SchedulerId) (wait : Bool) :
    (y.requestStop i wait).2.calls = y.calls := by
  obtain ⟨u, rfl | ⟨_, _, -, -, rfl⟩, hstop | ⟨_, hstop⟩⟩ := requestStop_cases y i wait <;>
    rw [hstop] <;> rfl

/-- What a call does around itself concerns no call. -/
theorem CallMove.calls {call call' : Call} (h : y.CallMove call u call') : u.calls = y.calls := by
  cases h with
  | goOn hmade | returns hmade | panics hmade => exact (works_of_mem_executionMoves hmade).calls
  | @stopAndWait e | @stop e => exact (show y.Works none _ from works_cancelExecutor y e).calls
  | @awaitEnd i _ wait _ hstop | @stopScheduler i wait _ hstop =>
      have hcalls := calls_requestStop y i wait
      rw [hstop] at hcalls
      exact hcalls
  | _ => rfl

theorem calls_of_mem_dispatchMoves {k : SchedulerId} {j : SessionId}
    (h : z ∈ y.dispatchMoves k j) : z.calls = y.calls := by
  obtain ⟨s, -, hmove⟩ := of_mem_dispatchMoves h
  cases hmove with
  | move _ hz | skip _ _ hz | enter _ _ hz => rw [hz]; rfl
  | @cancelAll s' _ hz =>
      subst hz
      exact (show (y.setScheduler k s').Works none _ from works_foldl_cancelExecution _ _).calls

theorem calls_of_workerMoves {k : SchedulerId} {j : SessionId} {e : ExecutorId} {choice : Nat}
    (h : (y.workerMoves k j e)[choice]? = some z) : z.calls = y.calls := by
  obtain ⟨s, w, u, status, -, -, hmade, hmove⟩ := workerMove_of_getElem? h
  have hu : u.calls = y.calls :=
    (works_of_mem_executionMoves (List.mem_of_getElem? hmade)).calls
  cases hmove <;> exact hu

theorem callsStep_of_step {a : Step} (h : y.step? a = some z) : y.CallsStep z a := by
  cases a with
  | request r =>
      obtain ⟨haccepts, rfl⟩ := step_request_iff.1 h
      by_cases hr : ∃ call, r = .call call
      · obtain ⟨call, rfl⟩ := hr
        exact .made haccepts rfl
      · exact .kept (calls_carryOut y fun call hcall => hr ⟨call, hcall⟩)
  | pass millis =>
      obtain ⟨-, rfl⟩ := step_pass_iff.1 h
      exact .kept rfl
  | move actor choice =>
      have hmem : z ∈ y.moves actor := List.mem_of_getElem? h
      cases actor with
      | deadline c =>
          obtain ⟨-, rfl⟩ := of_mem_guarded hmem
          exact .kept rfl
      | run r => exact .kept (show y.Works none z from works_of_mem_runMoves hmem).calls
      | call k =>
          obtain ⟨call, u, call', hcall, hmove, hz⟩ := callMove_of_mem hmem
          exact .moved hcall hmove hz
      | dispatch k j => exact .kept (calls_of_mem_dispatchMoves hmem)
      | worker k j e => exact .kept (calls_of_workerMoves h)
      | tableTimer =>
          obtain ⟨_, _, _, -, -, rfl⟩ := of_mem_tableTimerMoves hmem
          exact .kept rfl
      | planTimer =>
          obtain ⟨_, _, -, -, rfl⟩ := of_mem_planTimerMoves hmem
          exact .kept rfl
      | fetch =>
          obtain ⟨_, _, -, -, rfl⟩ := of_mem_fetchMoves hmem
          exact .kept rfl
      | supervisor =>
          obtain ⟨_, _, -, -, rfl⟩ := of_mem_closeMoves hmem
          exact .kept rfl

theorem getElem?_callAt {k : CallId} {call call' : Call} (hcall : u.calls[k]? = some call) :
    (u.callAt k call').calls[k]? = some call' := by
  change (u.calls.modify k fun _ => call')[k]? = some call'
  rw [Array.getElem?_modify, if_pos rfl, hcall]
  rfl

/-- A call stays where it is in all steps but its own moves. -/
theorem call_of_step {a : Step} {k : CallId} {call : Call} (h : y.step? a = some z)
    (hcall : y.calls[k]? = some call) :
    z.calls[k]? = some call ∨ ∃ (u : System) (call' : Call), y.CallMove call u call' ∧
      z = u.callAt k call' ∧ z.calls[k]? = some call' := by
  cases callsStep_of_step h with
  | kept hkept => exact .inl (hkept ▸ hcall)
  | made _ hmade =>
      obtain ⟨hlt, hget⟩ := Array.getElem?_eq_some_iff.1 hcall
      exact .inl (by rw [hmade, Array.getElem?_push_lt hlt, hget])
  | @moved k' _ call₀ call' u hcall₀ hmove hmoved =>
      rw [← hmove.calls] at hcall hcall₀
      by_cases heq : k' = k
      · subst heq
        obtain rfl := Option.some.inj (hcall.symm.trans hcall₀)
        exact .inr ⟨u, call', hmove, hmoved, hmoved ▸ getElem?_callAt hcall⟩
      · refine .inl ?_
        rw [hmoved]
        change (u.calls.modify k' fun _ => call')[k]? = some call
        rw [Array.getElem?_modify, if_neg heq, hcall]

/-- No context is hit for a cause other than a cancellation or a deadline. -/
theorem ReachableBy.isContextError_of_cause {allowed : System → Step → Bool} {c : ContextId}
    {err : Error} (h : y.ReachableBy allowed) (herr : y.contexts.cause c = some err) :
    err.isContextError = true := by
  induction h generalizing c err with
  | create origin =>
      simp [System.create, ContextTree.cause, ContextTree.get?, ContextTree.empty] at herr
  | step _ _ hz ih =>
      obtain ⟨node, hnode, hcause⟩ := Option.bind_eq_some_iff.1 herr
      obtain hcontext | hold := (proceeds_of_step hz).contexts.causes c node err hnode hcause
      · exact hcontext
      · exact ih hold

theorem ReachableBy.isContextError {allowed : System → Step → Bool} {c : ContextId} {err : Error}
    (h : y.ReachableBy allowed) (herr : y.contexts.error? c = some err) :
    err.isContextError = true := by
  unfold ContextTree.error? at herr
  split at herr
  · obtain rfl := Option.some.inj herr
    cases hfind : (y.contexts.lineage c).findSome? y.contexts.cause with
    | none => rfl
    | some err =>
        obtain ⟨c', -, hc'⟩ := List.exists_of_findSome?_eq_some hfind
        exact h.isContextError_of_cause hc'
  · cases herr

end Scheduling.System
