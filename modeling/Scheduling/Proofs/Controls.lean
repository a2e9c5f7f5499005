import Scheduling.Proofs.Histories
/-!
# What starts and ends a session

Three parties decide whether a scheduler is running: a start that finds it not running, the calls
that stop it, and the one who notices that both loops have ended. No other step makes a difference
to it, and a running scheduler has exactly one session that is not closed, the last one.
-/

namespace Scheduling

namespace Scheduler

variable {y z : System} {a : Step} {i : SchedulerId} {j : SessionId} {s s' : Scheduler}

/-- Whether it runs, what ends its session and whose end can be waited for is the same for both
states of a scheduler. -/
structure SameControl (s s' : Scheduler) : Prop where
  running : s'.running = s.running
  shutdown : s'.shutdown = s.shutdown
  supervised : s'.supervised = s.supervised

/-- How the step `a` of a system in the state `y` changes who controls its scheduler `i`. -/
inductive Control (y : System) (a : Step) (i : SchedulerId) (s : Scheduler) : Scheduler → Prop
  | kept {s' : Scheduler} (h : s.SameControl s') : Control y a i s s'
  | start {c : ContextId} (ha : a = .request (.startScheduler i c)) (h : s.running = false) :
      Control y a i s (s.start y.contexts.nodes.size)
  | stop {k : CallId} {choice : Nat} (ha : a = .move (.call k) choice)
      (hcall : y.calls[k]? = some (.stopScheduler i true)) :
      Control y a i s { s with supervised := none }
  | close {j : SessionId} {choice : Nat} {s' : Scheduler} (ha : a = .move (.supervisor i j) choice)
      (h : s.close? j = some s') : Control y a i s s'

theorem SameControl.trans {s'' : Scheduler} (h : s.SameControl s') (h' : s'.SameControl s'') :
    s.SameControl s'' :=
  ⟨h'.running.trans h.running, h'.shutdown.trans h.shutdown, h'.supervised.trans h.supervised⟩

theorem sameControl_foldl_register (s : Scheduler) (plans : List Plan) :
    s.SameControl (plans.foldl register s) := by
  refine List.foldlRecOn plans register ⟨rfl, rfl, rfl⟩ fun s' h p _ => h.trans ?_
  unfold register
  split
  · exact ⟨rfl, rfl, rfl⟩
  · split <;> exact ⟨rfl, rfl, rfl⟩

theorem sameControl_of_mem_fetchMoves {stopping : Bool} {order : Plan → Plan → Ordering}
    (h : s' ∈ s.fetchMoves j stopping order) : s.SameControl s' := by
  obtain ⟨n, -, hmove⟩ := fetchMove_of_mem h
  cases hmove with
  | @take _ p =>
      unfold fetched
      split <;> exact ⟨rfl, rfl, rfl⟩
  | _ => exact ⟨rfl, rfl, rfl⟩

theorem sameControl_of_mem_dispatchMoves {stopping : Bool} {effect : DispatchEffect}
    (h : (s', effect) ∈ s.dispatchMoves j stopping) : s.SameControl s' := by
  obtain ⟨n, -, hmove⟩ := dispatchMove_of_mem h
  cases hmove <;> exact ⟨rfl, rfl, rfl⟩

theorem Registration.control (h : s.Registration y a i s') : s.Control y a i s' := by
  cases h with
  | idle => exact .kept ⟨rfl, rfl, rfl⟩
  | add _ hadd =>
      rw [eq_foldl_of_add hadd]
      exact .kept (sameControl_foldl_register s _)
  | remove =>
      refine .kept ?_
      unfold unschedule
      split <;> exact ⟨rfl, rfl, rfl⟩
  | unsupervise ha hcall => exact .stop ha hcall
  | timer _ hadvance =>
      obtain ⟨fired, cron, -, rfl⟩ := advanceTimer_cases hadvance
      exact .kept ⟨rfl, rfl, rfl⟩

/-- What a step can do to the control of a scheduler. -/
theorem Change.control (h : s.Change y z a i s') : s.Control y a i s' := by
  cases h with
  | registration hreg => exact hreg.control
  | start ha hrun => exact .start ha hrun
  | fetch hmove => exact .kept (sameControl_of_mem_fetchMoves hmove)
  | dispatch hmove => exact .kept (sameControl_of_mem_dispatchMoves hmove)
  | skip hmove | enter hmove =>
      exact .kept ((sameControl_of_mem_dispatchMoves hmove).trans ⟨rfl, rfl, rfl⟩)
  | work | endWorker | crashWorker => exact .kept ⟨rfl, rfl, rfl⟩
  | close ha hclose => exact .close ha hclose

/-- Without a start there are no more sessions than before. -/
theorem Change.sessions_size_of_running (h : s.Change y z a i s')
    (hrunning : s'.running = s.running) : s'.sessions.size = s.sessions.size := by
  obtain hreg | ⟨-, hedit, -⟩ | ⟨-, hidle, rfl⟩ := h.outcome
  · rw [hreg.registers.sessions]
  · rw [hedit.sessions, Array.size_setIfInBounds]
  · rw [hidle] at hrunning
    cases hrunning

end Scheduler

/-- A session is closed only in a step after which its scheduler is not running. -/
theorem Session.Change.closed_of_running {y z : System} {a : Step} {i : SchedulerId}
    {j : SessionId} {s : Scheduler} {n n' : Session} {x : Scheduler.Stores}
    (h : n.Change y z a i j s x n') (hrunning : x.running = true) : n'.closed = n.closed := by
  cases h with
  | close => cases hrunning
  | _ => rfl

/-! ## The session in progress -/

/-- A running scheduler has a last session, which is not closed and ends with the context that the
scheduler keeps; otherwise it keeps none. -/
structure Scheduler.Governed (s : Scheduler) : Prop where
  running : s.running = true → ∃ (j : SessionId) (n : Session), s.sessions[j]? = some n ∧
    j + 1 = s.sessions.size ∧ n.closed = false ∧ s.shutdown = some n.shutdown
  idle : s.running = false → s.shutdown = none

namespace System

variable {allowed : System → Step → Bool} {y z : System} {a : Step} {i k : SchedulerId}
  {j l : SessionId} {s s' : Scheduler} {n m : Session}

theorem governed_of_step (h : y.step? a = some z) (hs : y.schedulers[i]? = some s)
    (hs' : z.schedulers[i]? = some s') (hgoverned : s.Governed) : s'.Governed := by
  obtain ⟨s₁, hs₁, hchange⟩ := exists_change_of_step h hs
  obtain rfl := Option.some.inj (hs₁.symm.trans hs')
  cases hchange.control with
  | kept hsame =>
      refine ⟨fun hrunning => ?_, fun hidle => ?_⟩
      · have hbefore : s.running = true := hsame.running.symm.trans hrunning
        obtain ⟨j, n, hn, hlast, hopen, hshutdown⟩ := hgoverned.running hbefore
        obtain ⟨s₂, n', hs₂, hn', -, hkept⟩ := change_of_session h hs hn
        obtain rfl := Option.some.inj (hs₂.symm.trans hs')
        have hsize := hchange.sessions_size_of_running hsame.running
        refine ⟨j, n', hn', hsize ▸ hlast, ?_, ?_⟩
        · obtain rfl | hmove := hkept
          · exact hopen
          · exact (hmove.closed_of_running hrunning).trans hopen
        · obtain rfl | hmove := hkept
          · exact hsame.shutdown.trans hshutdown
          · rw [hmove.shutdown]
            exact hsame.shutdown.trans hshutdown
      · exact hsame.shutdown.trans (hgoverned.idle (hsame.running.symm.trans hidle))
  | start =>
      refine ⟨fun _ => ⟨s.sessions.size, Scheduler.Session.create y.contexts.nodes.size, ?_⟩,
        fun hidle => by cases hidle⟩
      simp [Scheduler.start, Scheduler.Session.create]
  | stop => exact ⟨hgoverned.running, hgoverned.idle⟩
  | close _ hclose =>
      obtain ⟨_, -, -, -, -, rfl⟩ := Scheduler.close?_eq_some_iff.1 hclose
      exact ⟨fun hrunning => (by cases hrunning), fun _ => rfl⟩

theorem ReachableBy.governed (h : y.ReachableBy allowed) (hs : y.schedulers[i]? = some s) :
    s.Governed := by
  induction h generalizing s with
  | create origin => simp [System.create] at hs
  | step _ _ hz ih =>
      obtain ⟨s₀, hs₀, -⟩ | ⟨_, -, hb⟩ := change_of_step hz hs
      · exact governed_of_step hz hs₀ hs (ih hs₀)
      · rw [eq_create_of_build hb]
        exact ⟨fun hrunning => (by cases hrunning), fun _ => rfl⟩

/-! ## The contexts that end sessions -/

/-- A start that finds the scheduler not running begins a session that ends with a new context. -/
theorem eq_of_start {c : ContextId} (h : y.step? (.request (.startScheduler i c)) = some z)
    (hs : y.schedulers[i]? = some s) (hidle : s.running = false) :
    y.hasContext c = true ∧
      z = (y.newChild c).2.setScheduler i (s.start y.contexts.nodes.size) := by
  obtain ⟨haccepts, rfl⟩ := step_request_iff.1 h
  replace haccepts : (decide (i < y.schedulers.size) && y.hasContext c) = true := haccepts
  refine ⟨(Bool.and_eq_true_iff.1 haccepts).2, ?_⟩
  simp only [carryOut, startScheduler, hs, hidle, Bool.false_eq_true, if_false]
  rfl

/-- A session ends with the context it was begun with, and is not opened again. -/
theorem shutdown_of_step (h : y.step? a = some z) (hn' : z.session? i j = some n) :
    (∃ m : Session, y.session? i j = some m ∧ m.shutdown = n.shutdown ∧
        (n.closed = false → m.closed = false)) ∨
      ∃ (c : ContextId) (s : Scheduler), a = .request (.startScheduler i c) ∧
        y.schedulers[i]? = some s ∧ s.running = false ∧ j = s.sessions.size ∧
        n.shutdown = y.contexts.nodes.size := by
  obtain ⟨s', hs', hget⟩ := session?_eq_some_iff.1 hn'
  obtain ⟨s, hs, hchange⟩ | ⟨_, -, hb⟩ := change_of_step h hs'
  · obtain hreg | ⟨-, hedit, hmove⟩ | ⟨ha, hidle, rfl⟩ := hchange.outcome
    · rw [hreg.registers.sessions] at hget
      exact .inl ⟨n, session?_eq_some_iff.2 ⟨s, hs, hget⟩, rfl, id⟩
    · obtain ⟨rfl, rfl⟩ | ⟨-, hkept⟩ := hedit.session hget
      · refine .inl ⟨_, session?_eq_some_iff.2 ⟨s, hs, hedit.before⟩, hmove.shutdown.symm, ?_⟩
        obtain ⟨hsame, -⟩ | ⟨hbefore, -⟩ := hmove.closed_or
        · exact fun hopen => hsame.symm.trans hopen
        · exact fun _ => hbefore
      · exact .inl ⟨n, session?_eq_some_iff.2 ⟨s, hs, hkept⟩, rfl, id⟩
    · simp only [Scheduler.start, Array.getElem?_push] at hget
      split at hget
      · rename_i hj
        cases hget
        exact .inr ⟨_, s, ha, hs, hidle, hj, rfl⟩
      · exact .inl ⟨n, session?_eq_some_iff.2 ⟨s, hs, hget⟩, rfl, id⟩
  · rw [sessions_of_build hb] at hget
    simp at hget

/-- The context that ends a session exists. -/
theorem ReachableBy.hasContext_shutdown (h : y.ReachableBy allowed)
    (hn : y.session? i j = some n) : y.hasContext n.shutdown = true := by
  induction h generalizing n with
  | create origin => simp [System.create, session?] at hn
  | step _ _ hz ih =>
      obtain ⟨m, hm, hsame, -⟩ | ⟨c, s, rfl, hs, hidle, -, hnew⟩ := shutdown_of_step hz hn
      · exact hsame ▸ (proceeds_of_step hz).hasContext (ih hm)
      · obtain ⟨-, rfl⟩ := eq_of_start hz hs hidle
        rw [hnew]
        simp [hasContext, setScheduler, newChild, ContextTree.child]

/-- No two sessions end with the same context. -/
theorem ReachableBy.session_unique (h : y.ReachableBy allowed) (hn : y.session? i j = some n)
    (hm : y.session? k l = some m) (heq : n.shutdown = m.shutdown) : i = k ∧ j = l := by
  induction h generalizing n m with
  | create origin => simp [System.create, session?] at hn
  | @step y z a h _ hz ih =>
      have hold {i : SchedulerId} {j : SessionId} {n : Session} (hn : y.session? i j = some n)
          (hnew : n.shutdown = y.contexts.nodes.size) : False := by
        have hlt := h.hasContext_shutdown hn
        simp [hasContext, hnew] at hlt
      obtain ⟨n₀, hn₀, hsame, -⟩ | ⟨c, s, rfl, hs, -, rfl, hnew⟩ := shutdown_of_step hz hn
      · obtain ⟨m₀, hm₀, hsame', -⟩ | ⟨c, s, rfl, hs, -, rfl, hnew⟩ := shutdown_of_step hz hm
        · exact ih hn₀ hm₀ (hsame.trans (heq.trans hsame'.symm))
        · exact (hold hn₀ (hsame.trans (heq.trans hnew))).elim
      · obtain ⟨m₀, hm₀, hsame', -⟩ | ⟨c', s', ha, hs', -, rfl, -⟩ := shutdown_of_step hz hm
        · exact (hold hm₀ (hsame'.trans (heq.symm.trans hnew))).elim
        · cases ha
          obtain rfl := Option.some.inj (hs.symm.trans hs')
          exact ⟨rfl, rfl⟩

end System

end Scheduling
