import Scheduling.Proofs.Running
/-!
# Waiting for the end of a session

The end of a session can be waited for once. The first call that stops the scheduler in the session
and wants to wait takes it over and returns when both loops have ended, not before. Every later one
finds nothing to wait for and returns at once.
-/

namespace Scheduling

namespace System

/-- Since the last accepted start no call that wants to wait has stopped the scheduler. -/
def Unclaimed (signals : List Signal) : Prop :=
  ∃ c, (signals.filter (· ≠ .stop false)).getLast? = some (.start c)

/-- Both loops of a session have ended. -/
def Finished (y : System) (i : SchedulerId) (j : SessionId) : Prop :=
  ∃ n : Session, y.session? i j = some n ∧ ¬ n.HasLoop

variable {allowed : System → Step → Bool} {y z : System} {a : Step} {i : SchedulerId}
  {j : SessionId} {k : CallId} {s s' : Scheduler} {n : Session} {signals : List Signal}

/-! ## Whose the end of a session is -/

theorem unclaimed_start (signals : List Signal) (c : ContextId) :
    Unclaimed (signals ++ [.start c]) :=
  ⟨c, by simp [List.filter_append]⟩

theorem not_unclaimed_stop (signals : List Signal) : ¬ Unclaimed (signals ++ [.stop true]) := by
  rintro ⟨c, hlast⟩
  simp [List.filter_append] at hlast

theorem unclaimed_append_stop_false {signals : List Signal} :
    Unclaimed (signals ++ [.stop false]) ↔ Unclaimed signals := by
  simp [Unclaimed, List.filter_append]

/-- The end of the last session can be waited for until a call takes it over. -/
structure Offers (y : System) (i : SchedulerId) (signals : List Signal) : Prop where
  unclaimed : Unclaimed signals → ∃ (s : Scheduler) (j : SessionId),
    y.schedulers[i]? = some s ∧ s.supervised = some j ∧ j + 1 = s.sessions.size
  claimed : ¬ Unclaimed signals → ∀ s, y.schedulers[i]? = some s → s.supervised = none

theorem offers_of_start {c : ContextId} (h : y.step? (.request (.startScheduler i c)) = some z)
    (hidle : y.isRunning i = false) : z.Offers i (signals ++ [.start c]) where
  unclaimed _ := by
    obtain ⟨s, hs, -, -, rfl⟩ := accepted_start h hidle
    exact ⟨_, s.sessions.size, getElem?_setScheduler hs _, rfl, (Array.size_push _).symm⟩
  claimed hclaimed := absurd (unclaimed_start signals c) hclaimed

theorem schedulers_requestStop_false (y : System) (i : SchedulerId) :
    (y.requestStop i false).2.schedulers = y.schedulers := by
  cases hs : y.schedulers[i]? with
  | none => simp [requestStop, hs]
  | some s => exact schedulers_requestStop false hs

theorem supervised_requestStop_true
    (hs' : (y.requestStop i true).2.schedulers[i]? = some s') : s'.supervised = none := by
  cases hs : y.schedulers[i]? with
  | none => simp [requestStop, hs] at hs'
  | some s =>
      rw [schedulers_requestStop true hs] at hs'
      have hlook := (getElem?_setScheduler hs { s with supervised := none }).symm.trans hs'
      obtain rfl := Option.some.inj hlook
      rfl

theorem Offers.stop {wait : Bool} (hoffers : y.Offers i signals) (h : y.step? a = some z)
    (hstop : y.stopOf? i a = some wait) : z.Offers i (signals ++ [.stop wait]) := by
  obtain ⟨awaited, u, k, call, hrequest, rfl⟩ := requestStop_of_stopOf? h hstop
  obtain rfl : (y.requestStop i wait).2 = u := congrArg Prod.snd hrequest
  cases wait with
  | true =>
      exact ⟨fun hunclaimed => absurd hunclaimed (not_unclaimed_stop signals),
        fun _ _ hs' => supervised_requestStop_true hs'⟩
  | false =>
      have hsame : ((y.requestStop i false).2.callAt k call).schedulers = y.schedulers :=
        schedulers_requestStop_false y i
      constructor
      · rw [unclaimed_append_stop_false, hsame]
        exact hoffers.unclaimed
      · rw [unclaimed_append_stop_false, hsame]
        exact hoffers.claimed

/-- A step that neither starts nor stops a scheduler leaves alone whose the end of its session
is. -/
theorem supervised_of_step (h : y.step? a = some z)
    (hnone : ∀ c, a = .request (.startScheduler i c) → y.isRunning i = true)
    (hstop : y.stopOf? i a = none) (hs : y.schedulers[i]? = some s)
    (hs' : z.schedulers[i]? = some s') :
    s'.supervised = s.supervised ∧ s'.sessions.size = s.sessions.size := by
  obtain ⟨s₁, hs₁, hchange⟩ := exists_change_of_step h hs
  obtain rfl := Option.some.inj (hs₁.symm.trans hs')
  cases hchange.control with
  | kept hsame => exact ⟨hsame.supervised, hchange.sessions_size_of_running hsame.running⟩
  | start ha hidle =>
      have hrunning := hnone _ ha
      rw [isRunning_eq hs, hidle] at hrunning
      cases hrunning
  | stop ha hcall => simp [ha, stopOf?, hcall] at hstop
  | close _ hclose =>
      obtain ⟨_, -, -, -, -, rfl⟩ := Scheduler.close?_eq_some_iff.1 hclose
      exact ⟨rfl, Array.size_modify⟩

theorem Offers.step (hoffers : y.Offers i signals) (h : y.step? a = some z)
    (hnone : ∀ c, a = .request (.startScheduler i c) → y.isRunning i = true)
    (hstop : y.stopOf? i a = none) : z.Offers i signals where
  unclaimed hunclaimed := by
    obtain ⟨s, j, hs, hsupervised, hlast⟩ := hoffers.unclaimed hunclaimed
    obtain ⟨s', hs', -⟩ := exists_change_of_step h hs
    obtain ⟨hsame, hsize⟩ := supervised_of_step h hnone hstop hs hs'
    exact ⟨s', j, hs', hsame.trans hsupervised, hlast.trans hsize.symm⟩
  claimed hclaimed s' hs' := by
    obtain ⟨s, hs, -⟩ | ⟨_, -, hb⟩ := change_of_step h hs'
    · obtain ⟨hsame, -⟩ := supervised_of_step h hnone hstop hs hs'
      exact hsame.trans (hoffers.claimed hclaimed s hs)
    · rw [eq_create_of_build hb]
      rfl

theorem offers_of_run (origin : Int) (steps : List Step) (i : SchedulerId) :
    ((create origin).run allowed steps).Offers i
      ((create origin).observe allowed (seeSignal i) steps) := by
  have hrun : ((create origin).run allowed steps).Offers i
      ([] ++ (create origin).observe allowed (seeSignal i) steps) := by
    refine observe_induction (P := fun y signals => y.Offers i signals)
      (fun y a z signals _ hz hy => ?_)
      ⟨fun ⟨_, hlast⟩ => by simp at hlast, fun _ s hs => by simp [create] at hs⟩ steps
    obtain ⟨c, rfl, hidle, hsee⟩ | ⟨wait, hstop, hsee⟩ | ⟨hnone, hstop, hsee⟩ :=
      seeSignal_cases i y a z
    · rw [hsee]
      exact offers_of_start hz hidle
    · rw [hsee]
      exact hy.stop hz hstop
    · rw [hsee, List.append_nil]
      exact hy.step hz hnone hstop
  exact hrun

/-! ## Calls that wait -/

/-- A call that wants to wait takes over the end of the session, if nobody has before. -/
theorem call_of_wait {choice : Nat} (h : y.step? (.move (.call k) choice) = some z)
    (hcall : y.calls[k]? = some (.stopScheduler i true)) (hs : y.schedulers[i]? = some s) :
    (∃ j, s.supervised = some j ∧ z.calls[k]? = some (.awaitSession i j)) ∨
      s.supervised = none ∧ ∃ millis value, z.calls[k]? = some (.ended millis value) := by
  obtain ⟨call, u, call', hcall', hmove, rfl⟩ := callMove_of_mem (List.mem_of_getElem? h)
  obtain rfl := Option.some.inj (hcall.symm.trans hcall')
  have hlook : (u.callAt k call').calls[k]? = some call' :=
    getElem?_callAt (hmove.calls ▸ hcall)
  have hawaited : (y.requestStop i true).1 = s.supervised := by
    simp only [requestStop, hs, if_true]
  cases hmove with
  | @awaitEnd _ j _ _ hrequest =>
      rw [hrequest] at hawaited
      exact .inl ⟨j, hawaited.symm, hlook⟩
  | stopScheduler hrequest =>
      rw [hrequest] at hawaited
      exact .inr ⟨hawaited.symm, _, _, hlook⟩

theorem finished_of_isClosed (hy : y.ReachableBy allowed)
    (hclosed : y.schedulers[i]?.any (·.isClosed j) = true) : y.Finished i j := by
  obtain ⟨s, hs, hclosed⟩ := (Option.any_eq_true _ _).1 hclosed
  obtain ⟨n, hn, hclosed⟩ := (Option.any_eq_true _ _).1 hclosed
  refine ⟨n, session?_eq_some_iff.2 ⟨s, hs, hn⟩, fun hloop => ?_⟩
  rw [(hy.proper hs hn).open_of_hasLoop hloop] at hclosed
  cases hclosed

/-- Loops that have ended do not begin again. -/
theorem Finished.step (h : y.Finished i j) (hz : y.step? a = some z) : z.Finished i j := by
  obtain ⟨n, hn, hover⟩ := h
  obtain ⟨s, hs, hn⟩ := session?_eq_some_iff.1 hn
  obtain ⟨s', n', hs', hn', -, hkept⟩ := change_of_session hz hs hn
  refine ⟨n', session?_eq_some_iff.2 ⟨s', hs', hn'⟩, ?_⟩
  obtain rfl | hchange := hkept
  · exact hover
  · simp only [Session.HasLoop, not_or, not_not, Bool.not_eq_false] at hover ⊢
    exact ⟨hchange.fetch_ended hover.1, by rw [hchange.dispatch_over hover.2, hover.2]⟩

/-- A call that waits for the end of a session goes on to do so, or returns as both loops have
ended. -/
theorem awaitSession_of_step (hy : y.ReachableBy allowed) (hz : y.step? a = some z)
    (hcall : y.calls[k]? = some (.awaitSession i j)) :
    z.calls[k]? = some (.awaitSession i j) ∨ y.Finished i j := by
  obtain hkept | ⟨u, call', hmove, -, -⟩ := call_of_step hz hcall
  · exact .inl hkept
  · cases hmove with
    | sessionEnded hclosed => exact .inr (finished_of_isClosed hy hclosed)

/-- Whatever is done, a call that waits for the end of a session has not returned before both of its
loops have ended. -/
theorem awaitSession_of_run (hy : y.ReachableBy allowed)
    (hcall : y.calls[k]? = some (.awaitSession i j)) (steps : List Step) :
    (y.run allowed steps).calls[k]? = some (.awaitSession i j) ∨
      (y.run allowed steps).Finished i j := by
  have hrun : (y.run allowed steps).ReachableBy allowed ∧
      ((y.run allowed steps).calls[k]? = some (.awaitSession i j) ∨
        (y.run allowed steps).Finished i j) := by
    refine run_induction (P := fun y => y.ReachableBy allowed ∧
      (y.calls[k]? = some (.awaitSession i j) ∨ y.Finished i j))
      (fun y a z ha hz ⟨hy, hwaits⟩ => ⟨.step hy ha hz, ?_⟩) ⟨hy, .inl hcall⟩ steps
    obtain hcall | hfinished := hwaits
    · exact (awaitSession_of_step hy hz hcall).imp_right fun hfinished => hfinished.step hz
    · exact .inr (hfinished.step hz)
  exact hrun.2

/-- A call that stops a scheduler in a session and wants to wait returns only when both loops have
ended, exactly if it is the first such call of the session, or they have ended already. -/
theorem waits_iff (origin : Int) (past : List Step) {choice : Nat}
    (hcall : ((create origin).run allowed past).calls[k]? = some (.stopScheduler i true))
    (hz : ((create origin).run allowed past).next? allowed (.move (.call k) choice) = some z)
    (hn : ((create origin).run allowed past).session? i j = some n) (hopen : n.closed = false) :
    (∀ steps millis value, (z.run allowed steps).calls[k]? = some (.ended millis value) →
        (z.run allowed steps).Finished i j) ↔
      Unclaimed ((create origin).observe allowed (seeSignal i) past) ∨ z.Finished i j := by
  obtain ⟨hallowed, hz⟩ := next?_eq_some_iff.1 hz
  have hy : ((create origin).run allowed past).ReachableBy allowed :=
    ReachableBy.run (.create origin) past
  have hoffers : ((create origin).run allowed past).Offers i
      ((create origin).observe allowed (seeSignal i) past) := offers_of_run origin past i
  obtain ⟨s, hs, hn'⟩ := session?_eq_some_iff.1 hn
  have hlast := (hy.last hs hn' hopen).2
  constructor
  · intro hwaits
    by_contra hnot
    obtain ⟨hclaimed, hlive⟩ := not_or.1 hnot
    obtain ⟨l, hl, -⟩ | ⟨-, millis, value, hended⟩ := call_of_wait hz hcall hs
    · rw [hoffers.claimed hclaimed s hs] at hl
      cases hl
    · exact hlive (hwaits [] millis value hended)
  · rintro (hunclaimed | hfinished) steps millis value hended
    · obtain ⟨s', l, hs', hl, hlast'⟩ := hoffers.unclaimed hunclaimed
      obtain rfl := Option.some.inj (hs.symm.trans hs')
      obtain rfl : l = j := Nat.succ.inj (hlast'.trans hlast.symm)
      obtain ⟨l', hl', hawaits⟩ | ⟨hnone, -⟩ := call_of_wait hz hcall hs
      · obtain rfl := Option.some.inj (hl.symm.trans hl')
        obtain hcall' | hfinished := awaitSession_of_run (.step hy hallowed hz) hawaits steps
        · rw [hended] at hcall'
          cases hcall'
        · exact hfinished
      · rw [hl] at hnone
        cases hnone
    · exact run_induction (P := fun y => y.Finished i j) (fun _ _ _ _ hz hy => hy.step hz)
        hfinished steps

/-- Two calls stop a scheduler and want to wait before its loops have noticed. -/
def overlappingStops : List Step :=
  [.request .newContext, .request (.newScheduler ⟨1, .localTime, {}⟩),
    .request (.startScheduler 0 0), .request (.call (.stopScheduler 0 true)),
    .request (.call (.stopScheduler 0 true)), .move (.call 0) 0, .move (.call 1) 0]

/-- The first of two overlapping calls waits, and the second has returned although neither loop has
ended. -/
theorem returns_early_overlappingStops :
    (after overlappingStops).calls[0]? = some (.awaitSession 0 0) ∧
      (∃ millis value, (after overlappingStops).calls[1]? = some (.ended millis value)) ∧
      ∃ n : Session, (after overlappingStops).session? 0 0 = some n ∧
        n.fetch = .popping .fresh ∧ n.dispatch = .opening :=
  ⟨rfl, ⟨0, .running true, rfl⟩, Scheduler.Session.create 1, rfl, rfl, rfl⟩

end System

end Scheduling
