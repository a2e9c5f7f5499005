import Scheduling.Proofs.SessionContexts
import Scheduling.Proofs.WorkConservation
/-!
# When a scheduler runs

A scheduler runs from a start that it accepts until that start is no longer in force: until the
context of the start is done or a call stops the scheduler, and then until both loops have ended.
Nothing that happens to plans makes a difference to that.
-/

namespace Scheduling

namespace System

/-- What a scheduler is told by those who use it. -/
inductive Signal
  /-- A start in a context, made while the scheduler was not running. -/
  | start (context : ContextId)
  /-- A call that stops the scheduler, which wants to wait for the end of the session or not. -/
  | stop (wait : Bool)
deriving DecidableEq

/-- What a step tells a scheduler. -/
def seeSignal (i : SchedulerId) (y : System) (a : Step) (_ : System) : List Signal :=
  match a with
  | .request (.startScheduler k c) => if k = i && !y.isRunning i then [.start c] else []
  | a => (y.stopOf? i a).toList.map .stop

/-- The last start that was accepted is in force: the scheduler was not stopped since, and the
context of the start is not done. -/
def InForce (y : System) (signals : List Signal) : Prop :=
  ∃ c, signals.getLast? = some (.start c) ∧ y.contexts.isDone c = false

variable {y z : System} {a : Step} {i : SchedulerId} {j : SessionId} {s s' : Scheduler}
  {n : Session} {signals : List Signal}

/-! ## Signals -/

theorem seeSignal_cases (i : SchedulerId) (y : System) (a : Step) (z : System) :
    (∃ c, a = .request (.startScheduler i c) ∧ y.isRunning i = false ∧
        seeSignal i y a z = [.start c]) ∨
      (∃ wait, y.stopOf? i a = some wait ∧ seeSignal i y a z = [.stop wait]) ∨
      (∀ c, a = .request (.startScheduler i c) → y.isRunning i = true) ∧ y.stopOf? i a = none ∧
        seeSignal i y a z = [] := by
  unfold seeSignal
  split
  · rename_i k c
    split
    · rename_i hstart
      obtain ⟨hk, hidle⟩ := Bool.and_eq_true_iff.1 hstart
      obtain rfl := of_decide_eq_true hk
      exact .inl ⟨c, rfl, by simpa using hidle, rfl⟩
    · rename_i hstart
      refine .inr (.inr ⟨fun c' heq => ?_, rfl, rfl⟩)
      cases heq
      simpa using hstart
  · rename_i hother
    cases hstop : y.stopOf? i a with
    | some wait => exact .inr (.inl ⟨wait, rfl, rfl⟩)
    | none => exact .inr (.inr ⟨fun c heq => absurd heq (hother i c), rfl, rfl⟩)

theorem isRunning_eq (hs : y.schedulers[i]? = some s) : y.isRunning i = s.running := by
  simp [isRunning, hs]

/-- What a start comes to that a scheduler accepts. -/
theorem accepted_start {c : ContextId} (h : y.step? (.request (.startScheduler i c)) = some z)
    (hidle : y.isRunning i = false) :
    ∃ s : Scheduler, y.schedulers[i]? = some s ∧ s.running = false ∧ y.hasContext c = true ∧
      z = (y.newChild c).2.setScheduler i (s.start y.contexts.nodes.size) := by
  obtain ⟨haccepts, -⟩ := step_request_iff.1 h
  replace haccepts : (decide (i < y.schedulers.size) && y.hasContext c) = true := haccepts
  obtain ⟨s, hs⟩ : ∃ s, y.schedulers[i]? = some s :=
    ⟨_, Array.getElem?_eq_getElem (of_decide_eq_true (Bool.and_eq_true_iff.1 haccepts).1)⟩
  rw [isRunning_eq hs] at hidle
  obtain ⟨hc, hz⟩ := eq_of_start h hs hidle
  exact ⟨s, hs, hidle, hc, hz⟩

/-- A call that stops a scheduler hits the context of its session. -/
theorem isHit_of_stopOf? {c : ContextId} {wait : Bool} (h : y.step? a = some z)
    (hstop : y.stopOf? i a = some wait) (hs : y.schedulers[i]? = some s)
    (hshutdown : s.shutdown = some c) (hc : c < y.contexts.nodes.size) :
    z.contexts.isHit c = true := by
  obtain ⟨awaited, u, k, call, hrequest, rfl⟩ := requestStop_of_stopOf? h hstop
  obtain rfl : (y.requestStop i wait).2 = u := congrArg Prod.snd hrequest
  change (y.requestStop i wait).2.contexts.isHit c = true
  unfold requestStop
  simp only [hs, hshutdown]
  cases wait <;> exact ContextTree.isHit_cancel hc

/-! ## What the signals say about the sessions -/

/-- The last signal tells which session there is: after a start the one that it began, whose context
is below that of the start and was not hit; after a stop none, but those that end. -/
structure Heeds (y : System) (i : SchedulerId) (signals : List Signal) : Prop where
  started : ∀ c, signals.getLast? = some (.start c) → ∃ (j : SessionId) (n : Session),
    y.session? i j = some n ∧ y.contexts.ChildOf n.shutdown c ∧
      y.contexts.isHit n.shutdown = false
  opened : ∀ (j : SessionId) (n : Session), y.session? i j = some n → n.closed = false →
    ∃ c, y.contexts.ChildOf n.shutdown c ∧
      (y.contexts.isHit n.shutdown = true ∨ signals.getLast? = some (.start c))

/-- A start that is accepted begins the only session that is open. -/
theorem heeds_of_start {c : ContextId} (hy : y.ReachableBy reticent)
    (h : y.step? (.request (.startScheduler i c)) = some z) (hidle : y.isRunning i = false) :
    z.Heeds i (signals ++ [.start c]) := by
  obtain ⟨s, hs, hidle, hc, hz⟩ := accepted_start h hidle
  have hchild : z.contexts.ChildOf y.contexts.nodes.size c := by
    rw [hz]
    exact ContextTree.childOf_child (of_decide_eq_true hc)
  constructor
  · intro c' hlast
    rw [List.getLast?_concat] at hlast
    cases hlast
    have hsession : z.session? i s.sessions.size =
        some (Scheduler.Session.create y.contexts.nodes.size) := by
      refine session?_eq_some_iff.2 ⟨s.start y.contexts.nodes.size, ?_, ?_⟩
      · rw [hz]
        exact getElem?_setScheduler hs _
      · rw [Scheduler.start, Array.getElem?_push_size]
    refine ⟨_, _, hsession, hchild, ?_⟩
    rw [hz]
    simp [setScheduler, newChild, ContextTree.child, ContextTree.isHit, ContextTree.get?,
      Scheduler.Session.create]
  · intro j n hn hopen
    obtain ⟨m, hm, -, hbefore⟩ | ⟨c', _, ha, _, _, _, hnew⟩ := shutdown_of_step h hn
    · obtain ⟨s', hs', hm⟩ := session?_eq_some_iff.1 hm
      obtain rfl := Option.some.inj (hs.symm.trans hs')
      rw [(hy.last hs hm (hbefore hopen)).1] at hidle
      cases hidle
    · exact ⟨c, hnew ▸ hchild, .inr List.getLast?_concat⟩

/-- A session that is open after a step in which no start was accepted was open before. -/
theorem opened_of_step (hnone : ∀ c, a = .request (.startScheduler i c) → y.isRunning i = true)
    (h : y.step? a = some z) (hn : z.session? i j = some n) (hopen : n.closed = false) :
    ∃ m : Session, y.session? i j = some m ∧ m.shutdown = n.shutdown ∧ m.closed = false := by
  obtain ⟨m, hm, hsame, hbefore⟩ | ⟨c, s, ha, hs, hidle, -⟩ := shutdown_of_step h hn
  · exact ⟨m, hm, hsame, hbefore hopen⟩
  · have hrunning := hnone c ha
    rw [isRunning_eq hs, hidle] at hrunning
    cases hrunning

theorem Heeds.stop {wait : Bool} (hheeds : y.Heeds i signals) (hy : y.ReachableBy reticent)
    (h : y.step? a = some z) (hstop : y.stopOf? i a = some wait) :
    z.Heeds i (signals ++ [.stop wait]) where
  started c hlast := by
    rw [List.getLast?_concat] at hlast
    cases hlast
  opened j n hn hopen := by
    have hnone : ∀ c, a = .request (.startScheduler i c) → y.isRunning i = true := by
      rintro c rfl
      cases hstop
    obtain ⟨m, hm, hsame, hbefore⟩ := opened_of_step hnone h hn hopen
    obtain ⟨c, hchild, -⟩ := hheeds.opened j m hm hbefore
    obtain ⟨s, hs, hm⟩ := session?_eq_some_iff.1 hm
    -- The session that is open is the last one, which ends with the context that is hit.
    have hrunning := (hy.last hs hm hbefore).1
    obtain ⟨l, m', hm', -, hopen', hshutdown⟩ := (hy.governed hs).running hrunning
    obtain rfl : l = j := hy.open_unique hs hm' hm hopen' hbefore
    obtain rfl := Option.some.inj (hm.symm.trans hm')
    rw [← hsame]
    exact ⟨c, hchild.grows (proceeds_of_step h).contexts,
      .inl (isHit_of_stopOf? h hstop hs hshutdown hchild.made)⟩

theorem Heeds.step (hheeds : y.Heeds i signals) (hy : y.ReachableBy reticent)
    (ha : y.reticent a = true) (h : y.step? a = some z)
    (hnone : ∀ c, a = .request (.startScheduler i c) → y.isRunning i = true)
    (hstop : y.stopOf? i a = none) : z.Heeds i signals where
  started c hlast := by
    obtain ⟨j, n, hn, hchild, hhit⟩ := hheeds.started c hlast
    obtain ⟨s, hs, hn'⟩ := session?_eq_some_iff.1 hn
    obtain ⟨s', n', hs', hm, -, hkept⟩ := change_of_session h hs hn'
    have hshutdown : n'.shutdown = n.shutdown := by
      obtain rfl | hchange := hkept
      · rfl
      · exact hchange.shutdown
    refine ⟨j, n', session?_eq_some_iff.2 ⟨s', hs', hm⟩, ?_, ?_⟩
    · rw [hshutdown]
      exact hchild.grows (proceeds_of_step h).contexts
    · rw [hshutdown]
      cases hafter : z.contexts.isHit n.shutdown with
      | false => rfl
      | true =>
          have hstopped := hy.stops_of_isHit ha h hn hhit hafter
          rw [hstop] at hstopped
          cases hstopped
  opened j n hn hopen := by
    obtain ⟨m, hm, hsame, hbefore⟩ := opened_of_step hnone h hn hopen
    have hgrows := (proceeds_of_step h).contexts
    obtain ⟨c, hchild, hcause⟩ := hheeds.opened j m hm hbefore
    exact hsame ▸ ⟨c, hchild.grows hgrows, hcause.imp_left hgrows.isHit⟩

theorem heeds_of_run (origin : Int) (steps : List Step) (i : SchedulerId) :
    ((create origin).run reticent steps).Heeds i
      ((create origin).observe reticent (seeSignal i) steps) := by
  have hrun : ((create origin).run reticent steps).ReachableBy reticent ∧
      ((create origin).run reticent steps).Heeds i
        ([] ++ (create origin).observe reticent (seeSignal i) steps) := by
    refine observe_induction (P := fun y signals => y.ReachableBy reticent ∧ y.Heeds i signals)
      (fun y a z signals ha hz hy => ⟨.step hy.1 ha hz, ?_⟩)
      ⟨.create origin, fun _ hlast => by simp at hlast,
        fun _ _ hn => by simp [create, session?] at hn⟩ steps
    obtain ⟨c, rfl, hidle, hsee⟩ | ⟨wait, hstop, hsee⟩ | ⟨hnone, hstop, hsee⟩ :=
      seeSignal_cases i y a z
    · rw [hsee]
      exact heeds_of_start hy.1 hz hidle
    · rw [hsee]
      exact hy.2.stop hy.1 hz hstop
    · rw [hsee, List.append_nil]
      exact hy.2.step hy.1 ha hz hnone hstop
  exact hrun.2

/-! ## Loops that are asked to end -/

theorem fetch_ended_of_stopping {order : Plan → Plan → Ordering} (hn : s.sessions[j]? = some n)
    (h : s.fetchMoves j true order = []) : n.fetch = .ended := by
  unfold Scheduler.fetchMoves at h
  rw [hn] at h
  cases hfetch : n.fetch with
  | ended => rfl
  | _ => simp [hfetch] at h

theorem dispatch_over_of_stopping (hn : s.sessions[j]? = some n)
    (h : s.dispatchMoves j true = []) : n.dispatch.isOver = true := by
  unfold Scheduler.dispatchMoves at h
  rw [hn] at h
  cases hdispatch : n.dispatch with
  | ended | crashed => rfl
  | opening =>
      simp only [hdispatch] at h
      split at h <;> cases h
  | _ => simp [hdispatch] at h

/-- A session whose context is done is closed before the system settles. -/
theorem Settled.closed_of_isDone (h : y.Settled) (hs : y.schedulers[i]? = some s)
    (hn : s.sessions[j]? = some n) (hdone : y.contexts.isDone n.shutdown = true) :
    n.closed = true := by
  have hstopping : (s.sessions[j]?.any fun n => y.contexts.isDone n.shutdown) = true := by
    simp [hn, hdone]
  have hfetch : y.fetchMoves i j = [] := h (.fetch i j)
  have hdispatch : y.dispatchMoves i j = [] := h (.dispatch i j)
  simp only [fetchMoves, dispatchMoves, hs, hstopping, List.map_eq_nil_iff] at hfetch hdispatch
  exact h.closed hs hn (fetch_ended_of_stopping hn hfetch)
    (dispatch_over_of_stopping hn hdispatch)

/-! ## When a scheduler runs -/

/-- The session of a start that is in force goes on. -/
theorem Heeds.live (hheeds : y.Heeds i signals) (hy : y.ReachableBy reticent)
    (hs : y.schedulers[i]? = some s) (hpanic : ∀ n ∈ s.sessions, n.dispatch ≠ .crashed)
    (hforce : y.InForce signals) :
    ∃ (j : SessionId) (n : Session), s.sessions[j]? = some n ∧ n.closed = false ∧
      n.dispatch.isOver = false := by
  obtain ⟨c, hlast, hlive⟩ := hforce
  obtain ⟨j, n, hn, hchild, hhit⟩ := hheeds.started c hlast
  obtain ⟨s', hs', hn⟩ := session?_eq_some_iff.1 hn
  obtain rfl := Option.some.inj (hs'.symm.trans hs)
  have hdone : y.contexts.isDone n.shutdown = false := by
    rw [hchild.isDone, hhit, hlive]
    rfl
  have hover : n.dispatch.isOver = false := by
    have hended := (hy.live hs hn hdone).dispatch
    have hcrashed := hpanic n (Array.mem_of_getElem? hn)
    cases hdispatch : n.dispatch with
    | ended => exact absurd hdispatch hended
    | crashed => exact absurd hdispatch hcrashed
    | _ => rfl
  refine ⟨j, n, hn, Bool.eq_false_iff.2 fun hclosed => ?_, hover⟩
  rw [((hy.proper hs hn).closed hclosed).2] at hover
  cases hover

/-- A settled scheduler that runs was started, and that start is in force. -/
theorem Heeds.inForce_of_settled (hheeds : y.Heeds i signals) (hy : y.ReachableBy reticent)
    (hs : y.schedulers[i]? = some s) (hsettled : y.Settled) (hrunning : s.running = true) :
    y.InForce signals := by
  obtain ⟨j, n, hn, -, hopen, -⟩ := (hy.governed hs).running hrunning
  have hlive : y.contexts.isDone n.shutdown = false := Bool.eq_false_iff.2 fun hdone => by
    rw [hsettled.closed_of_isDone hs hn hdone] at hopen
    cases hopen
  obtain ⟨c, hchild, hcause⟩ := hheeds.opened j n (session?_eq_some_iff.2 ⟨s, hs, hn⟩) hopen
  rw [hchild.isDone, Bool.or_eq_false_iff] at hlive
  obtain hhit | hlast := hcause
  · rw [hlive.1] at hhit
    cases hhit
  · exact ⟨c, hlast, hlive.2⟩

/-- Only an accepted start and the end of both loops change whether a scheduler runs. -/
theorem running_of_step (h : y.step? a = some z) (hs : y.schedulers[i]? = some s)
    (hs' : z.schedulers[i]? = some s') (hne : s'.running ≠ s.running) :
    (∃ c, a = .request (.startScheduler i c) ∧ s.running = false) ∨
      ∃ (j : SessionId) (n : Session) (choice : Nat), a = .move (.supervisor i j) choice ∧
        s.sessions[j]? = some n ∧ n.closed = false ∧ n.fetch = .ended ∧
        n.dispatch.isOver = true := by
  obtain ⟨s₁, hs₁, hchange⟩ := exists_change_of_step h hs
  obtain rfl := Option.some.inj (hs₁.symm.trans hs')
  cases hchange.control with
  | kept hsame => exact absurd hsame.running hne
  | start ha hidle => exact .inl ⟨_, ha, hidle⟩
  | stop => exact absurd rfl hne
  | close ha hclose =>
      obtain ⟨n, hn, hfetch, hover, hopen, -⟩ := Scheduler.close?_eq_some_iff.1 hclose
      exact .inr ⟨_, n, _, ha, hn, hopen, hfetch, hover⟩

/-- A start of a scheduler that runs changes nothing at all. -/
theorem eq_of_start_of_running {c : ContextId}
    (h : y.step? (.request (.startScheduler i c)) = some z) (hs : y.schedulers[i]? = some s)
    (hrunning : s.running = true) : z = y := by
  obtain ⟨-, rfl⟩ := step_request_iff.1 h
  simp only [carryOut, startScheduler, hs, hrunning, if_true]

end System

/-- One of the loops of a session has not ended. -/
def Session.HasLoop (n : Session) : Prop := n.fetch ≠ .ended ∨ n.dispatch.isOver = false

theorem Session.Proper.open_of_hasLoop {n : Session} (hn : n.Proper) (h : n.HasLoop) :
    n.closed = false := by
  refine Bool.eq_false_iff.2 fun hclosed => ?_
  obtain ⟨hfetch, hover⟩ := hn.closed hclosed
  obtain hlive | hlive := h
  · exact hlive hfetch
  · rw [hover] at hlive
    cases hlive

namespace System

/-- A scheduler whose loops do not panic runs while its last accepted start is in force, and does
not run in a settled system when it is not: whatever happens to plans, only an accepted start and,
after the start has ceased to be in force, the end of both loops make a difference. A start of a
scheduler that runs changes nothing, and at no time there are loops of two sessions. -/
theorem running_iff_inForce (origin : Int) (steps : List Step) {i : SchedulerId} {s : Scheduler}
    (hs : ((create origin).run reticent steps).schedulers[i]? = some s)
    (hpanic : ∀ n ∈ s.sessions, n.dispatch ≠ .crashed) :
    let y := (create origin).run reticent steps
    let signals := (create origin).observe reticent (seeSignal i) steps
    (y.InForce signals → s.running = true) ∧
      (y.Settled → (s.running = true ↔ y.InForce signals)) ∧
      (∀ a z s', y.step? a = some z → z.schedulers[i]? = some s' → s'.running ≠ s.running →
        (∃ c, a = .request (.startScheduler i c) ∧ s.running = false) ∨
          (∃ j choice, a = .move (.supervisor i j) choice) ∧ ¬ y.InForce signals) ∧
      (s.running = true → ∀ c z, y.step? (.request (.startScheduler i c)) = some z → z = y) ∧
      ∀ (j k : SessionId) (n m : Session), s.sessions[j]? = some n → s.sessions[k]? = some m →
        n.HasLoop → m.HasLoop → j = k := by
  intro y signals
  have hy : y.ReachableBy reticent := ReachableBy.run (.create origin) steps
  have hheeds : y.Heeds i signals := heeds_of_run origin steps i
  have hruns (hforce : y.InForce signals) : s.running = true := by
    obtain ⟨j, n, hn, hopen, -⟩ := hheeds.live hy hs hpanic hforce
    exact (hy.last hs hn hopen).1
  refine ⟨hruns, fun hsettled => ⟨hheeds.inForce_of_settled hy hs hsettled, hruns⟩, ?_,
    fun hrunning c z h => eq_of_start_of_running h hs hrunning, ?_⟩
  · intro a z s' h hs' hne
    obtain hstart | ⟨j, n, choice, ha, hn, hopen, -, hover⟩ := running_of_step h hs hs' hne
    · exact .inl hstart
    · refine .inr ⟨⟨j, choice, ha⟩, fun hforce => ?_⟩
      obtain ⟨l, m, hm, hopen', hlive⟩ := hheeds.live hy hs hpanic hforce
      -- Both sessions are open, so they are the same, whose dispatch loop cannot be over.
      obtain rfl : l = j := hy.open_unique hs hm hn hopen' hopen
      obtain rfl := Option.some.inj (hn.symm.trans hm)
      rw [hover] at hlive
      cases hlive
  · intro j k n m hn hm hloop hloop'
    exact hy.open_unique hs hn hm ((hy.proper hs hn).open_of_hasLoop hloop)
      ((hy.proper hs hm).open_of_hasLoop hloop')

/-- A plan whose task panics is carried out, after which the scheduler is started once more. -/
def panickedSteps : List Step :=
  [.request .newContext, .request (.newTask "a" [] fun _ => [.panic none]),
    .request (.newScheduler ⟨1, .localTime, {}⟩),
    .request (.addPlans 0 [⟨0, "a", ⟨0⟩, 0, none, 0, false, none⟩]),
    .request (.startScheduler 0 0), .move (.dispatch 0 0) 0, .move (.dispatch 0 0) 0,
    .move (.fetch 0 0) 0, .move (.fetch 0 0) 0, .move (.dispatch 0 0) 0, .move (.fetch 0 0) 0,
    .move (.worker 0 0 0) 0, .move (.run 0) 0, .move (.run 0) 0, .move (.run 0) 0,
    .move (.worker 0 0 0) 0, .move (.dispatch 0 0) 0, .request (.startScheduler 0 0)]

def panickedRun : System := (create 0).run reticent panickedSteps

theorem running_iff_inForce_panickedRun :
    panickedRun.Settled ∧ panickedRun.state 0 = .failed ∧
      ∃ s : Scheduler, panickedRun.schedulers[0]? = some s ∧
        (∀ n ∈ s.sessions, n.dispatch ≠ .crashed) ∧ s.running = true ∧
        panickedRun.InForce ((create 0).observe reticent (seeSignal 0) panickedSteps) := by
  have hreach : panickedRun.ReachableBy reticent := ReachableBy.run (.create 0) _
  have hall : (panickedRun.actors.all fun a => (panickedRun.moves a).isEmpty) = true := by
    decide +kernel
  have hsettled : panickedRun.Settled :=
    (settled_iff hreach.reachable).2 fun a ha => List.isEmpty_iff.1 (List.all_eq_true.1 hall a ha)
  have hrun : (panickedRun.schedulers[0]?.any fun s => s.running &&
      s.sessions.all fun n => decide (n.dispatch ≠ .crashed)) = true := by decide +kernel
  obtain ⟨s, hs, hrun⟩ := (Option.any_eq_true _ _).1 hrun
  obtain ⟨hrunning, hrun⟩ := Bool.and_eq_true_iff.1 hrun
  have hpanic : ∀ n ∈ s.sessions, n.dispatch ≠ .crashed := fun n hn =>
    of_decide_eq_true ((Array.all_eq_true'.1 hrun) n hn)
  have hiff := (running_iff_inForce 0 panickedSteps hs hpanic).2.1 hsettled
  exact ⟨hsettled, by decide +kernel, s, hs, hpanic, hrunning, hiff.1 hrunning⟩

end System

end Scheduling
