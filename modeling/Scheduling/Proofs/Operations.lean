import Scheduling.Proofs.Calls
/-!
# Operations on the schedulers of a system

What each operation on a scheduler is, said once: which scheduler it is about, what becomes of that
scheduler and what is done around it. Timers, the fetch loop and the supervisor change nothing but
their scheduler.
-/

namespace Scheduling.System

variable {y z : System} {i : SchedulerId} {j : SessionId}

/-! ## Requests -/

theorem addPlans_cases (y : System) (i : SchedulerId) (plans : List Plan) :
    (y.addPlans i plans).toOption.getD y = y ∨
      ∃ s s' : Scheduler, y.schedulers[i]? = some s ∧ s.add plans = .ok s' ∧
        (y.addPlans i plans).toOption.getD y = y.setScheduler i s' := by
  unfold addPlans
  split
  · exact .inl rfl
  · rename_i s hs
    split
    · exact .inl rfl
    · rename_i s' hadd
      exact .inr ⟨s, s', hs, hadd, rfl⟩

theorem startScheduler_cases (y : System) (i : SchedulerId) (c : ContextId) :
    y.startScheduler i c = y ∨
      ∃ s : Scheduler, y.schedulers[i]? = some s ∧ s.running = false ∧
        y.startScheduler i c =
          (y.newChild c).2.setScheduler i (s.start y.contexts.nodes.size) := by
  unfold startScheduler
  split
  · exact .inl rfl
  · rename_i s hs
    split
    · exact .inl rfl
    · rename_i hidle
      exact .inr ⟨s, hs, by simpa using hidle, rfl⟩

/-- A stop cancels the context of the session in progress, if there is one, and may give the
scheduler a new state. -/
theorem requestStop_cases (y : System) (i : SchedulerId) (wait : Bool) :
    ∃ u : System,
      (u = y ∨ ∃ (s : Scheduler) (c : ContextId), y.schedulers[i]? = some s ∧
        s.shutdown = some c ∧ u = y.cancelContext c) ∧
      ((y.requestStop i wait).2 = u ∨
        ∃ s' : Scheduler, (y.requestStop i wait).2 = u.setScheduler i s') := by
  unfold requestStop
  split
  · exact ⟨y, .inl rfl, .inl rfl⟩
  · rename_i s hs
    cases hshutdown : s.shutdown with
    | none =>
        cases wait with
        | false => exact ⟨y, .inl rfl, .inl rfl⟩
        | true => exact ⟨y, .inl rfl, .inr ⟨_, rfl⟩⟩
    | some c =>
        refine ⟨y.cancelContext c, .inr ⟨s, c, hs, hshutdown, rfl⟩, ?_⟩
        cases wait with
        | false => exact .inl rfl
        | true => exact .inr ⟨_, rfl⟩

/-! ## Moves -/

theorem of_mem_planTimerMoves {timer : Cron.TimerId} (h : z ∈ y.planTimerMoves i timer) :
    ∃ s s' : Scheduler, y.schedulers[i]? = some s ∧ s.advanceTimer y.clock timer = some s' ∧
      z = y.setScheduler i s' := by
  unfold planTimerMoves at h
  split at h
  · simp at h
  · rename_i s' hs'
    obtain ⟨s, hs, hadvance⟩ := Option.bind_eq_some_iff.1 hs'
    exact ⟨s, s', hs, hadvance, List.mem_singleton.1 h⟩

theorem of_mem_closeMoves (h : z ∈ y.closeMoves i j) :
    ∃ s s' : Scheduler, y.schedulers[i]? = some s ∧ s.close? j = some s' ∧
      z = y.setScheduler i s' := by
  unfold closeMoves at h
  split at h
  · simp at h
  · rename_i s' hs'
    obtain ⟨s, hs, hclose⟩ := Option.bind_eq_some_iff.1 hs'
    exact ⟨s, s', hs, hclose, List.mem_singleton.1 h⟩

/-- Whether the context of a session of a scheduler is done. -/
def stopping (y : System) (s : Scheduler) (j : SessionId) : Bool :=
  s.sessions[j]?.any fun n => y.contexts.isDone n.shutdown

theorem of_mem_fetchMoves (h : z ∈ y.fetchMoves i j) :
    ∃ s s' : Scheduler, y.schedulers[i]? = some s ∧
      s' ∈ s.fetchMoves j (y.stopping s j) y.planOrder ∧ z = y.setScheduler i s' := by
  unfold fetchMoves at h
  split at h
  · simp at h
  · rename_i s hs
    obtain ⟨s', hmove, rfl⟩ := List.mem_map.1 h
    exact ⟨s, s', hs, hmove, rfl⟩

/-- A move of the dispatch loop of a session of the scheduler `s` leads to the system `z`. -/
inductive DispatchMove (y : System) (i : SchedulerId) (j : SessionId) (s : Scheduler)
    (z : System) : Prop
  /-- The loop asks for nothing. -/
  | move {s' : Scheduler} (h : (s', .none) ∈ s.dispatchMoves j (y.stopping s j))
      (hz : z = y.setScheduler i s')
  /-- The plan that it received is executing. -/
  | skip {s' : Scheduler} {p : Plan} (h : (s', .accept p) ∈ s.dispatchMoves j (y.stopping s j))
      (hx : s'.isExecuting p.key = true) (hz : z = y.setScheduler i (s'.skip j))
  /-- A worker is entered for the plan that it received, with an executor and a context. -/
  | enter {s' : Scheduler} {p : Plan} (h : (s', .accept p) ∈ s.dispatchMoves j (y.stopping s j))
      (hx : s'.isExecuting p.key = false)
      (hz : z = { (y.newChild p.context).2 with
        executors := y.executors.push (Executor.create p.task (p.options.getD s'.defaults)),
        schedulers := (y.setScheduler i
          (s'.enter j p ⟨y.executors.size, y.contexts.nodes.size⟩)).schedulers })
  /-- It has ended and cancels what is executing. -/
  | cancelAll {s' : Scheduler} (h : (s', .cancelAll) ∈ s.dispatchMoves j (y.stopping s j))
      (hz : z = s'.executing.values.foldl cancelExecution (y.setScheduler i s'))

theorem of_mem_dispatchMoves (h : z ∈ y.dispatchMoves i j) :
    ∃ s : Scheduler, y.schedulers[i]? = some s ∧ y.DispatchMove i j s z := by
  unfold dispatchMoves at h
  split at h
  · simp at h
  · rename_i s hs
    obtain ⟨⟨s', effect⟩, hmove, rfl⟩ := List.mem_map.1 h
    refine ⟨s, hs, ?_⟩
    cases effect with
    | none => exact .move hmove rfl
    | cancelAll => exact .cancelAll hmove rfl
    | accept p =>
        unfold applyDispatch admitPlan
        dsimp only
        split
        · rename_i hx
          exact .skip hmove hx rfl
        · rename_i hx
          exact .enter hmove (by simpa using hx) rfl

end Scheduling.System
