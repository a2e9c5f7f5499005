import Scheduling.Proofs.Operations
import Scheduling.Proofs.Reachable
/-!
# What a step does to a scheduler

`change_of_step` says once what a step of a system can do to each of its schedulers: it carries out
a registration, a start or one move of a loop, a worker, a timer or the supervisor. Everything that
is proved of schedulers in all runs comes from this list.
-/

namespace Scheduling

namespace System

/-- Whether a step ends the start call of a worker of a session by a panic. -/
def crashesWorker (y : System) (i : SchedulerId) (j : SessionId) : Step → Bool
  | .move (.worker i' j' e) choice =>
    i' == i && j' == j &&
      match y.schedulers[i]?.bind fun s => s.worker? j e with
      | none => false
      | some w =>
        match (y.executionMoves w.executor w.context w.point)[choice]? with
        | some (_, .ended (.panicked _)) => true
        | _ => false
  | _ => false

/-- The step `a` from `y` to `z` is a move of a worker, which leads its start call to a status. -/
structure Advances (y : System) (a : Step) (z : System) (i : SchedulerId) (j : SessionId)
    (w : Worker) (status : CallStatus) : Prop where
  actor : ∃ choice, a = .move (.worker i j w.executor) choice
  made : ∃ u : System, (u, status) ∈ y.executionMoves w.executor w.context w.point ∧
    z.tasks = u.tasks ∧ z.runs = u.runs ∧ u.contexts.Grows z.contexts

/-- The executor whose start call is made or makes a move in a step, or which is reset by it. -/
def working (y : System) : Step → Option ExecutorId
  | .move (.worker _ _ e) _ => some e
  | .move (.call k) _ =>
    match y.calls[k]? with
    | some (.start e _ _) => some e
    | _ => none
  | .request (.resetExecutor e) => some e
  | .request (.call (.start e _ _)) => some e
  | _ => none

end System

namespace Scheduler

/-- How the step `a` of a system in the state `y` changes its scheduler with number `i` without its
sessions. -/
inductive Registration (y : System) (a : Step) (i : SchedulerId) (s : Scheduler) :
    Scheduler → Prop
  /-- The step is about something else. -/
  | idle : Registration y a i s s
  | add {plans : List Plan} {s' : Scheduler} (ha : a = .request (.addPlans i plans))
      (h : s.add plans = .ok s') : Registration y a i s s'
  | remove {p : Plan} (ha : a = .request (.removePlan i p)) :
      Registration y a i s ((s.unschedule p.key).dequeue p.key)
  /-- A call that stops the scheduler takes the session whose end can be waited for. -/
  | unsupervise {k : CallId} {choice : Nat} (ha : a = .move (.call k) choice)
      (hcall : y.calls[k]? = some (.stopScheduler i true)) :
      Registration y a i s { s with supervised := none }
  | timer {id : Cron.TimerId} {choice : Nat} {s' : Scheduler}
      (ha : a = .move (.planTimer i id) choice) (h : s.advanceTimer y.clock id = some s') :
      Registration y a i s s'

/-- How the step `a` of a system from `y` to `z` changes its scheduler with number `i`. -/
inductive Change (y z : System) (a : Step) (i : SchedulerId) (s : Scheduler) : Scheduler → Prop
  | registration {s' : Scheduler} (h : s.Registration y a i s') : Change y z a i s s'
  | start {c : ContextId} (ha : a = .request (.startScheduler i c)) (h : s.running = false) :
      Change y z a i s (s.start y.contexts.nodes.size)
  | fetch {j : SessionId} {s' : Scheduler}
      (h : s' ∈ s.fetchMoves j (y.stopping s j) y.planOrder) : Change y z a i s s'
  | dispatch {j : SessionId} {s' : Scheduler} {effect : DispatchEffect}
      (h : (s', effect) ∈ s.dispatchMoves j (y.stopping s j)) (he : ∀ p, effect ≠ .accept p)
      (hz : effect = .cancelAll →
        z = s'.executing.values.foldl System.cancelExecution (y.setScheduler i s')) :
      Change y z a i s s'
  | skip {j : SessionId} {s' : Scheduler} {p : Plan}
      (h : (s', .accept p) ∈ s.dispatchMoves j (y.stopping s j))
      (hx : s'.isExecuting p.key = true) (hz : z = y.setScheduler i (s'.skip j)) :
      Change y z a i s (s'.skip j)
  | enter {j : SessionId} {s' : Scheduler} {p : Plan} {choice : Nat}
      (h : (s', .accept p) ∈ s.dispatchMoves j (y.stopping s j))
      (hx : s'.isExecuting p.key = false) (ha : a = .move (.dispatch i j) choice)
      (hc : z.contexts = (y.contexts.child p.context).2)
      (hz : z.executors = y.executors.push (Executor.create p.task (p.options.getD s'.defaults))) :
      Change y z a i s (s'.enter j p ⟨y.executors.size, y.contexts.nodes.size⟩)
  | work {j : SessionId} {w : Worker} {point : CallPoint} (h : s.worker? j w.executor = some w)
      (hp : point ≠ .entered) (ha : y.Advances a z i j w (.at point)) :
      Change y z a i s (s.workerAt j w.executor point)
  | endWorker {j : SessionId} {w : Worker} {outcome : Outcome}
      (h : s.worker? j w.executor = some w)
      (ha : y.Advances a z i j w (.ended (.returned outcome))) :
      Change y z a i s (s.endWorker j w)
  | crashWorker {j : SessionId} {w : Worker} {text : String}
      (h : s.worker? j w.executor = some w) (hc : y.crashesWorker i j a = true)
      (ha : y.Advances a z i j w (.ended (.panicked text))) :
      Change y z a i s (s.crashWorker j w)
  | close {j : SessionId} {choice : Nat} {s' : Scheduler} (ha : a = .move (.supervisor i j) choice)
      (h : s.close? j = some s') : Change y z a i s s'

end Scheduler

namespace System

open Scheduler (Change)

variable {y z : System} {a : Step} {i : SchedulerId} {s' : Scheduler}

/-- A step keeps all schedulers, and changes each as it may or was about something else. -/
structure Changes (y z : System) (a : Step) : Prop where
  size : z.schedulers.size = y.schedulers.size
  change : ∀ (i : SchedulerId) (s' : Scheduler), z.schedulers[i]? = some s' →
    ∃ s : Scheduler, y.schedulers[i]? = some s ∧ s.Change y z a i s'

theorem changes_of_schedulers_eq (h : z.schedulers = y.schedulers) : y.Changes z a :=
  ⟨congrArg Array.size h, fun _ s' hs' => ⟨s', h ▸ hs', .registration .idle⟩⟩

theorem Works.changes (h : y.Works none z) : y.Changes z a :=
  changes_of_schedulers_eq h.schedulers

/-- If a step gives one scheduler a new state, it is enough to know the change of that one. -/
theorem changes_of_setScheduler {k : SchedulerId} {s s₁ : Scheduler}
    (hz : z.schedulers = (y.setScheduler k s₁).schedulers) (hs : y.schedulers[k]? = some s)
    (hc : s.Change y z a k s₁) : y.Changes z a := by
  refine ⟨hz ▸ Array.size_modify, fun i s' hs' => ?_⟩
  have hlook : z.schedulers[i]? = if k = i then (y.schedulers[i]?).map fun _ => s₁
      else y.schedulers[i]? := by
    rw [hz]
    exact Array.getElem?_modify
  rw [hlook] at hs'
  by_cases hk : k = i
  · subst hk
    rw [if_pos rfl, hs] at hs'
    cases hs'
    exact ⟨s, hs, hc⟩
  · rw [if_neg hk] at hs'
    exact ⟨s', hs', .registration .idle⟩

/-! ## Requests -/

theorem works_removePlan {s : Scheduler} {p : Plan} {own : Option ExecutorId}
    (hs : y.schedulers[i]? = some s) :
    (y.setScheduler i ((s.unschedule p.key).dequeue p.key)).Works own (y.removePlan i p) := by
  unfold removePlan
  rw [hs]
  dsimp only
  split
  · exact works_cancelExecution _ _
  · exact works_cancelTask _ _

theorem changes_removePlan (y : System) (k : SchedulerId) (p : Plan) :
    y.Changes (y.removePlan k p) (.request (.removePlan k p)) := by
  cases hs : y.schedulers[k]? with
  | none =>
      refine changes_of_schedulers_eq ?_
      simp [removePlan, hs]
  | some s =>
      have hw : (y.setScheduler k ((s.unschedule p.key).dequeue p.key)).Works none
          (y.removePlan k p) := works_removePlan hs
      exact changes_of_setScheduler hw.schedulers hs (.registration (.remove rfl))

theorem changes_addPlans (y : System) (k : SchedulerId) (plans : List Plan) :
    y.Changes ((y.addPlans k plans).toOption.getD y) (.request (.addPlans k plans)) := by
  obtain hsame | ⟨s, s', hs, hadd, hset⟩ := addPlans_cases y k plans
  · exact changes_of_schedulers_eq (by rw [hsame])
  · exact changes_of_setScheduler (by rw [hset]) hs (.registration (.add rfl hadd))

theorem changes_startScheduler (y : System) (k : SchedulerId) (c : ContextId) :
    y.Changes (y.startScheduler k c) (.request (.startScheduler k c)) := by
  obtain hsame | ⟨s, hs, hidle, hstart⟩ := startScheduler_cases y k c
  · exact changes_of_schedulers_eq (by rw [hsame])
  · exact changes_of_setScheduler (by rw [hstart]; rfl) hs (.start rfl hidle)

theorem works_cancelPlan {own : Option ExecutorId} (y : System) (k : SchedulerId) (key : String) :
    y.Works own ((y.cancelPlan k key).toOption.getD y) := by
  unfold cancelPlan
  split
  · exact .refl y
  · exact works_cancelExecution y _

/-- What a request does to the schedulers; only a new one is not covered. -/
theorem changes_carryOut (y : System) {r : Request} (hr : ∀ b, r ≠ .newScheduler b) :
    y.Changes (y.carryOut r) (.request r) := by
  cases r with
  | newScheduler b => exact absurd rfl (hr b)
  | addPlans k plans => exact changes_addPlans y k plans
  | removePlan k p => exact changes_removePlan y k p
  | startScheduler k c => exact changes_startScheduler y k c
  | cancelPlan k key => exact (works_cancelPlan y k key).changes
  | cancelExecutor e => exact (works_cancelExecutor y e).changes
  | cancelTask t => exact (works_cancelTask y t).changes
  | startTask t c => exact (works_startTask y t c).changes
  | newChildFor parent timeout =>
      refine changes_of_schedulers_eq ?_
      cases h : y.newChildFor parent timeout with
      | none => simp [carryOut, h]
      | some made =>
          have hw : y.Works none made.2 := works_newChildFor h
          simpa [carryOut, h] using hw.schedulers
  | addEntry k name expression =>
      refine changes_of_schedulers_eq ?_
      unfold carryOut
      dsimp only
      split <;> rfl
  | _ => exact changes_of_schedulers_eq rfl

/-! ## Moves -/

theorem schedulers_requestStop {k : SchedulerId} {s : Scheduler} (wait : Bool)
    (hs : y.schedulers[k]? = some s) :
    (y.requestStop k wait).2.schedulers =
      if wait then (y.setScheduler k { s with supervised := none }).schedulers
      else y.schedulers := by
  unfold requestStop
  rw [hs]
  cases hc : s.shutdown <;> cases wait <;> simp only [hc] <;> rfl

theorem changes_of_requestStop {k : SchedulerId} {c : CallId} {wait : Bool} {choice : Nat}
    (hcall : y.calls[c]? = some (.stopScheduler k wait))
    (hz : z.schedulers = (y.requestStop k wait).2.schedulers) :
    y.Changes z (.move (.call c) choice) := by
  cases hs : y.schedulers[k]? with
  | none =>
      refine changes_of_schedulers_eq (hz.trans ?_)
      simp [requestStop, hs]
  | some s =>
      rw [schedulers_requestStop wait hs] at hz
      cases wait with
      | false => exact changes_of_schedulers_eq hz
      | true => exact changes_of_setScheduler hz hs (.registration (.unsupervise rfl hcall))

theorem changes_of_mem_callMoves {k : CallId} {choice : Nat} (h : z ∈ y.callMoves k) :
    y.Changes z (.move (.call k) choice) := by
  obtain ⟨call, u, call', hcall, hmove, rfl⟩ := callMove_of_mem h
  cases hmove with
  | goOn hmade | returns hmade | panics hmade =>
      exact changes_of_schedulers_eq (works_of_mem_executionMoves hmade).schedulers
  | @stopAndWait e | @stop e =>
      have hcancel : y.Works none (y.cancelExecutor e).2 := works_cancelExecutor y e
      exact changes_of_schedulers_eq hcancel.schedulers
  | awaitEnd hstop | stopScheduler hstop =>
      exact changes_of_requestStop hcall (congrArg (schedulers ·.2) hstop).symm
  | _ => exact changes_of_schedulers_eq rfl

theorem changes_of_mem_dispatchMoves {k : SchedulerId} {j : SessionId} {choice : Nat}
    (h : z ∈ y.dispatchMoves k j) : y.Changes z (.move (.dispatch k j) choice) := by
  obtain ⟨s, hs, hmove⟩ := of_mem_dispatchMoves h
  cases hmove with
  | move hmove hz =>
      exact changes_of_setScheduler (by rw [hz]) hs (.dispatch hmove (by simp) (by simp))
  | skip hmove hx hz => exact changes_of_setScheduler (by rw [hz]) hs (.skip hmove hx hz)
  | enter hmove hx hz =>
      subst hz
      exact changes_of_setScheduler rfl hs (.enter hmove hx rfl rfl rfl)
  | @cancelAll s' hmove hz =>
      have hw : (y.setScheduler k s').Works none
          (s'.executing.values.foldl cancelExecution (y.setScheduler k s')) :=
        works_foldl_cancelExecution _ _
      exact changes_of_setScheduler (by rw [hz, hw.schedulers]) hs
        (.dispatch hmove (by simp) fun _ => hz)

theorem WorkerMove.advances {k : SchedulerId} {j : SessionId} {s : Scheduler} {w : Worker}
    {u : System} {status : CallStatus} (h : WorkerMove k j s w u status z) (choice : Nat)
    (hmade : (u, status) ∈ y.executionMoves w.executor w.context w.point) :
    y.Advances (.move (.worker k j w.executor) choice) z k j w status := by
  cases h with
  | goOn | panics => exact ⟨⟨choice, rfl⟩, u, hmade, rfl, rfl, .refl _⟩
  | returns => exact ⟨⟨choice, rfl⟩, u, hmade, rfl, rfl, ContextTree.grows_cancel _ _⟩

theorem changes_of_workerMoves {k : SchedulerId} {j : SessionId} {e : ExecutorId} {choice : Nat}
    (h : (y.workerMoves k j e)[choice]? = some z) :
    y.Changes z (.move (.worker k j e) choice) := by
  obtain ⟨s, w, u, status, hs, hworker, hmade, hmove⟩ := workerMove_of_getElem? h
  obtain rfl := Scheduler.executor_of_worker? hworker
  have hu : u.schedulers = y.schedulers :=
    (works_of_mem_executionMoves (List.mem_of_getElem? hmade)).schedulers
  have hset (s' : Scheduler) :
      (u.setScheduler k s').schedulers = (y.setScheduler k s').schedulers := by
    simp only [setScheduler, hu]
  have hadvances := hmove.advances choice (List.mem_of_getElem? hmade)
  cases hmove with
  | goOn hbegun => exact changes_of_setScheduler (hset _) hs (.work hworker hbegun hadvances)
  | returns => exact changes_of_setScheduler (hset _) hs (.endWorker hworker hadvances)
  | panics =>
      refine changes_of_setScheduler (hset _) hs (.crashWorker hworker ?_ hadvances)
      simp [crashesWorker, hs, hworker, hmade]

theorem changes_of_moves {actor : Actor} {choice : Nat} (h : (y.moves actor)[choice]? = some z) :
    y.Changes z (.move actor choice) := by
  have hmem : z ∈ y.moves actor := List.mem_of_getElem? h
  cases actor with
  | deadline c =>
      obtain ⟨-, rfl⟩ := of_mem_guarded hmem
      exact changes_of_schedulers_eq rfl
  | run r => exact (works_of_mem_runMoves hmem).changes
  | call k => exact changes_of_mem_callMoves hmem
  | tableTimer k timer =>
      obtain ⟨_, _, _, -, -, rfl⟩ := of_mem_tableTimerMoves hmem
      exact changes_of_schedulers_eq rfl
  | planTimer k timer =>
      obtain ⟨s, s', hs, hadvance, rfl⟩ := of_mem_planTimerMoves hmem
      exact changes_of_setScheduler rfl hs (.registration (.timer rfl hadvance))
  | fetch k j =>
      obtain ⟨s, s', hs, hmove, rfl⟩ := of_mem_fetchMoves hmem
      exact changes_of_setScheduler rfl hs (.fetch hmove)
  | dispatch k j => exact changes_of_mem_dispatchMoves hmem
  | supervisor k j =>
      obtain ⟨s, s', hs, hclose, rfl⟩ := of_mem_closeMoves hmem
      exact changes_of_setScheduler rfl hs (.close rfl hclose)
  | worker k j e => exact changes_of_workerMoves h

/-! ## Steps -/

/-- A scheduler after a step comes from the one before it by a change, or was made just now. -/
theorem change_of_step (h : y.step? a = some z) (hs' : z.schedulers[i]? = some s') :
    (∃ s : Scheduler, y.schedulers[i]? = some s ∧ s.Change y z a i s') ∨
      ∃ b : Blueprint, y.schedulers[i]? = none ∧ b.build = .ok s' := by
  have holds : y.Changes z a → ∃ s : Scheduler, y.schedulers[i]? = some s ∧ s.Change y z a i s' :=
    fun hc => hc.change i s' hs'
  cases a with
  | request r =>
      obtain ⟨-, rfl⟩ := step_request_iff.1 h
      by_cases hr : ∃ b, r = .newScheduler b
      · obtain ⟨b, rfl⟩ := hr
        cases hb : b.build with
        | error err =>
            refine .inl (holds (changes_of_schedulers_eq ?_))
            simp [carryOut, hb]
        | ok made =>
            have hz : (y.carryOut (.newScheduler b)).schedulers = y.schedulers.push made := by
              simp [carryOut, hb]
            rw [hz, Array.getElem?_push] at hs'
            split at hs'
            · rename_i hi
              obtain rfl := Option.some.inj hs'
              exact .inr ⟨b, Array.getElem?_eq_none (by omega), hb⟩
            · exact .inl ⟨s', hs', .registration .idle⟩
      · exact .inl (holds (changes_carryOut y fun b hb => hr ⟨b, hb⟩))
  | move actor choice => exact .inl (holds (changes_of_moves h))
  | pass millis =>
      obtain ⟨-, rfl⟩ := step_pass_iff.1 h
      exact .inl (holds (changes_of_schedulers_eq rfl))

/-- No scheduler is ever lost. -/
theorem schedulers_size_of_step (h : y.step? a = some z) :
    y.schedulers.size ≤ z.schedulers.size := by
  cases a with
  | request r =>
      obtain ⟨-, rfl⟩ := step_request_iff.1 h
      by_cases hr : ∃ b, r = .newScheduler b
      · obtain ⟨b, rfl⟩ := hr
        unfold carryOut
        dsimp only
        split
        · exact Nat.le_refl _
        · simp
      · exact Nat.le_of_eq (changes_carryOut y fun b hb => hr ⟨b, hb⟩).size.symm
  | move actor choice => exact Nat.le_of_eq (changes_of_moves h).size.symm
  | pass millis =>
      obtain ⟨-, rfl⟩ := step_pass_iff.1 h
      exact Nat.le_refl _

/-- A scheduler is still there after a step, which has changed it. -/
theorem exists_change_of_step {s : Scheduler} (h : y.step? a = some z)
    (hs : y.schedulers[i]? = some s) :
    ∃ s' : Scheduler, z.schedulers[i]? = some s' ∧ s.Change y z a i s' := by
  have hlt : i < z.schedulers.size :=
    Nat.lt_of_lt_of_le (Array.getElem?_eq_some_iff.1 hs).1 (schedulers_size_of_step h)
  have hs' : z.schedulers[i]? = some z.schedulers[i] := Array.getElem?_eq_getElem hlt
  obtain ⟨s₀, hs₀, hchange⟩ | ⟨_, hnone, -⟩ := change_of_step h hs'
  · obtain rfl := Option.some.inj (hs.symm.trans hs₀)
    exact ⟨_, hs', hchange⟩
  · rw [hs] at hnone
    cases hnone

end System

end Scheduling
