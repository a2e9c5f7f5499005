import Scheduling.Proofs.Shutdown
/-!
# What a session leaves behind

When the fetch loop of a session ends it empties the queue, but a timer of the cron table may go off
after that, as long as the dispatch loop has not ended and cleared the table. So the queue is empty
when the session is over exactly if no timer went off in between; then no later session comes upon a
plan that was not added again.
-/

namespace Scheduling

/-- Whether a fetch loop has ended. -/
def FetchPoint.isOver : FetchPoint → Bool
  | .ended => true
  | _ => false

/-- Whether a step starts the scheduler `i`, adds plans to it or removes one. -/
def Step.touches (i : SchedulerId) : Step → Bool
  | .request (.startScheduler i' _) | .request (.addPlans i' _) => i' == i
  | .request (.removePlan i' _) => i' == i
  | _ => false

theorem Step.starts_of_touches {a : Step} {i : SchedulerId} (h : a.touches i = false) :
    a.starts i = false := by
  unfold Step.starts
  split
  · exact h
  · rfl

namespace Session.Change

variable {y z : System} {a : Step} {i : SchedulerId} {j : SessionId} {s : Scheduler}
  {n n' : Session} {v : Scheduler.Stores}

/-- A session whose fetch loop has ended leaves the queue alone. -/
theorem queue_of_ended (h : n.Change y z a i j s v n') (hended : n.fetch = .ended) :
    v.queue = s.queue := by
  cases h with
  | endFetch _ hlive => exact absurd hended hlive
  | wait hfetch | hold hfetch | send hfetch | giveUp hfetch =>
      rw [hended] at hfetch
      cases hfetch
  | _ => rfl

theorem stopped (h : n.Change y z a i j s v n') (hs : s.cron.Stopped) : v.cron.Stopped := by
  cases h with
  | stopAcquiring | stopReceiving => exact hs.clear_stop
  | _ => exact hs

/-- A dispatch loop that ends clears and stops the cron table. -/
theorem cron_of_ended (h : n.Change y z a i j s v n') (hended : n'.dispatch = .ended) :
    n.dispatch = .ended ∨ v.cron = s.cron.clear.stop := by
  cases h with
  | stopAcquiring | stopReceiving => exact .inr rfl
  | openSlots | crash | acquire | skip | enter => cases hended
  | _ => exact .inl hended

end Session.Change

namespace Scheduler

/-- The fetch loops of all sessions have ended. -/
def Drained (s : Scheduler) : Prop :=
  ∀ (j : SessionId) (n : Session), s.sessions[j]? = some n → n.fetch = .ended

/-- All plans that a session may come upon are of a kind. -/
structure Carries (kind : Plan → Prop) (s : Scheduler) : Prop where
  queue : ∀ (key : String) (p : Plan), s.queue.entries.get? key = some p → kind p
  cron : s.cron.Carries kind

variable {y z : System} {a : Step} {i : SchedulerId} {s s' : Scheduler}

theorem Change.sessions_size (h : s.Change y z a i s') (ha : a.starts i = false) :
    s'.sessions.size = s.sessions.size := by
  obtain hreg | ⟨-, hedit, -⟩ | ⟨hstart, -, -⟩ := h.outcome
  · rw [hreg.registers.sessions]
  · rw [hedit.sessions, Array.size_setIfInBounds]
  · simp [hstart, Step.starts] at ha

theorem Drained.change (hs : s.Drained) (h : s.Change y z a i s') (ha : a.starts i = false) :
    s'.Drained :=
  h.forall_sessions ha (fun _ _ _ _ hn => hn.fetch_ended) hs

theorem Registration.stopped (h : s.Registration y a i s') (hs : s.cron.Stopped) :
    s'.cron.Stopped :=
  h.cron_induction hs (fun _ schedule p _ ht => ht.add schedule p) (fun _ id ht => ht.remove id)
    fun _ _ _ _ _ hadvance => by
      rw [hs.advance_eq_none] at hadvance
      cases hadvance

/-- A cron table that stands still does so until the next start. -/
theorem Change.stopped (h : s.Change y z a i s') (hs : s.cron.Stopped)
    (ha : a.starts i = false) : s'.cron.Stopped := by
  obtain hreg | ⟨-, -, hn⟩ | ⟨hstart, -, -⟩ := h.outcome
  · exact hreg.stopped hs
  · exact hn.stopped hs
  · simp [hstart, Step.starts] at ha

/-- What is queued or scheduled was so before or is added in the step. -/
theorem Carries.change {kind : Plan → Prop} (hs : s.Carries kind) (h : s.Change y z a i s')
    (hadds : ∀ p, Adds a i p → kind p) : s'.Carries kind where
  queue := by
    refine h.queue_induction
      (P := fun q => ∀ (key : String) (p : Plan), q.entries.get? key = some p → kind p)
      hs.queue (fun q p hbrings hq k r hr => ?_) (fun q k hq k' r hr => ?_)
      fun q _ k r hr => by cases hr
    · replace hr : (q.entries.insert (key p) p).get? k = some r := hr
      rw [Registry.get?_insert] at hr
      split at hr
      · cases hr
        obtain hadd | ⟨timer, live, hlive, rfl⟩ := hbrings
        · exact hadds _ hadd
        · exact hs.cron.timers timer live hlive
      · exact hq k r hr
    · dsimp only at hr
      rw [Registry.get?_erase] at hr
      split at hr
      · cases hr
      · exact hq k' r hr
  cron := h.cron_induction hs.cron (fun _ schedule p hp ht => ht.add schedule (hadds p hp))
    (fun _ id ht => ht.remove id) (fun _ _ _ _ _ hadvance => hs.cron.advance hadvance)
    (fun _ ht => ht.start) fun _ ht => ht.clear_stop

end Scheduler

namespace System

variable {allowed : System → Step → Bool} {y z u : System} {a : Step} {i : SchedulerId}
  {j k : SessionId} {s s' : Scheduler} {n n' : Session} {p : Plan}

/-! ## Firings -/

/-- The plan that a timer of the scheduler `i` fires in a step. -/
def seeFiring (i : SchedulerId) (y : System) (a : Step) (_ : System) : List Plan :=
  match a with
  | .move (.planTimer i' timer) _ =>
    if i' = i then
      match y.schedulers[i]?.bind fun s => s.cron.advance y.clock timer with
      | some (some p, _) => [p]
      | _ => []
    else []
  | _ => []

/-- The plans that the timers of the scheduler `i` fire in a run. -/
def firings (allowed : System → Step → Bool) (i : SchedulerId) (y : System)
    (steps : List Step) : List Plan :=
  y.observe allowed (seeFiring i) steps

theorem seeFiring_eq_nil (h : ∀ timer choice, a ≠ .move (.planTimer i timer) choice) :
    seeFiring i y a z = [] := by
  unfold seeFiring
  split
  · rename_i timer choice
    split
    · rename_i hi
      subst hi
      exact absurd rfl (h timer choice)
    · rfl
  · rfl

theorem advanceTimer_of_step {timer : Cron.TimerId} {choice : Nat}
    (h : y.step? (.move (.planTimer i timer) choice) = some z)
    (hs : y.schedulers[i]? = some s) (hs' : z.schedulers[i]? = some s') :
    s.advanceTimer y.clock timer = some s' := by
  have hmem : z ∈ y.planTimerMoves i timer := List.mem_of_getElem? h
  obtain ⟨s₀, s₁, hs₀, hadvance, rfl⟩ := of_mem_planTimerMoves hmem
  obtain rfl := Option.some.inj (hs₀.symm.trans hs)
  obtain rfl := Option.some.inj ((getElem?_setScheduler hs s₁).symm.trans hs')
  exact hadvance

/-- When all fetch loops have ended only a timer that fires changes the queue, unless plans are
added or removed. -/
theorem queue_of_step (h : y.step? a = some z) (hs : y.schedulers[i]? = some s)
    (hdrained : s.Drained) (ha : a.touches i = false) (hs' : z.schedulers[i]? = some s')
    (hchange : s.Change y z a i s') :
    s'.queue = (seeFiring i y a z).foldl (fun q p => q.push [p]) s.queue := by
  by_cases htimer : ∃ timer choice, a = .move (.planTimer i timer) choice
  · obtain ⟨timer, choice, rfl⟩ := htimer
    have hadvance := advanceTimer_of_step h hs hs'
    obtain ⟨fired, cron, hfired, rfl⟩ := Scheduler.advanceTimer_cases hadvance
    cases fired <;> simp [seeFiring, hs, hfired]
  · have hnone : seeFiring i y a z = [] :=
      seeFiring_eq_nil fun timer choice ha => htimer ⟨timer, choice, ha⟩
    rw [hnone]
    obtain hreg | ⟨-, hedit, hn⟩ | ⟨hstart, -, -⟩ := hchange.outcome
    · cases hreg with
      | idle | unsupervise => rfl
      | add hadd => simp [hadd, Step.touches] at ha
      | remove hremove => simp [hremove, Step.touches] at ha
      | @timer id choice _ hmove => exact absurd ⟨id, choice, hmove⟩ htimer
    · exact hn.queue_of_ended (hdrained _ _ hedit.before)
    · simp [hstart, Step.touches] at ha

/-- Whether a step neither starts the scheduler `i` nor adds plans to it or removes one. -/
def untouched (i : SchedulerId) (_ : System) (a : Step) : Bool := !a.touches i

theorem touches_of_untouched (h : untouched i y a = true) : a.touches i = false := by
  simpa [untouched] using h

/-- The queue that the fetch loops have left fills with what the timers fire, and nothing else. -/
theorem queue_of_run (hs : y.schedulers[i]? = some s) (hdrained : s.Drained)
    (steps : List Step) :
    ∃ s' : Scheduler, (y.run (untouched i) steps).schedulers[i]? = some s' ∧
      s'.sessions.size = s.sessions.size ∧
      s'.queue = (y.firings (untouched i) i steps).foldl (fun q p => q.push [p]) s.queue := by
  induction steps generalizing y s with
  | nil => exact ⟨s, hs, rfl, rfl⟩
  | cons a steps ih =>
      unfold firings at ih ⊢
      cases hnext : y.next? (untouched i) a with
      | none =>
          rw [run_cons_of_none hnext, observe_cons_of_none hnext]
          exact ih hs hdrained
      | some z =>
          obtain ⟨hallowed, hz⟩ := next?_eq_some_iff.1 hnext
          have ha := touches_of_untouched hallowed
          have hstarts := Step.starts_of_touches ha
          obtain ⟨s', hs', hchange⟩ := exists_change_of_step hz hs
          rw [run_cons_of_some hnext, observe_cons_of_some hnext, List.foldl_append,
            ← queue_of_step hz hs hdrained ha hs' hchange, ← hchange.sessions_size hstarts]
          exact ih hs' (hdrained.change hchange hstarts)

/-- As long as the cron table stands still nothing fires. -/
theorem firings_eq_nil (hs : y.schedulers[i]? = some s) (hstopped : s.cron.Stopped)
    (steps : List Step) : y.firings (untouched i) i steps = [] := by
  apply observe_eq_nil (P := fun y => ∃ s, y.schedulers[i]? = some s ∧ s.cron.Stopped)
  · intro y a z ha hz hy
    obtain ⟨s, hs, hstopped⟩ := hy
    obtain ⟨s', hs', hchange⟩ := exists_change_of_step hz hs
    have hstarts := Step.starts_of_touches (touches_of_untouched ha)
    refine ⟨⟨s', hs', hchange.stopped hstopped hstarts⟩, ?_⟩
    by_cases htimer : ∃ timer choice, a = .move (.planTimer i timer) choice
    · obtain ⟨timer, choice, rfl⟩ := htimer
      obtain ⟨_, _, hfired, -⟩ := Scheduler.advanceTimer_cases (advanceTimer_of_step hz hs hs')
      rw [hstopped.advance_eq_none] at hfired
      cases hfired
    · exact seeFiring_eq_nil fun timer choice ha => htimer ⟨timer, choice, ha⟩
  · exact ⟨s, hs, hstopped⟩

/-- Once the dispatch loop of the last session has ended the cron table stands still. -/
theorem ReachableBy.stopped (h : y.ReachableBy allowed) (hs : y.schedulers[i]? = some s)
    (hn : s.sessions[j]? = some n) (hlast : j + 1 = s.sessions.size)
    (hended : n.dispatch = .ended) : s.cron.Stopped := by
  induction h generalizing s n with
  | create origin => simp [System.create] at hs
  | step h _ hz ih =>
      obtain ⟨s₀, hs₀, hchange⟩ | ⟨_, -, hb⟩ := change_of_step hz hs
      · obtain hreg | @⟨k, m, m', -, hedit, hm⟩ | ⟨-, -, rfl⟩ := hchange.outcome
        · rw [hreg.registers.sessions] at hn hlast
          exact hreg.stopped (ih hs₀ hn hlast hended)
        · rw [hedit.sessions, Array.size_setIfInBounds] at hlast
          have hcron : s.stores.cron = s.cron := rfl
          obtain ⟨rfl, rfl⟩ | ⟨-, hkept⟩ := hedit.session hn
          · obtain hbefore | hclear := hm.cron_of_ended hended
            · exact hm.stopped (ih hs₀ hedit.before hlast hbefore)
            · rw [← hcron, hclear]
              exact (h.linked hs₀).idle_clear_stop.toStopped
          · exact hm.stopped (ih hs₀ hkept hlast hended)
        · simp only [Scheduler.start, Array.size_push] at hlast
          simp only [Scheduler.start, Array.getElem?_push] at hn
          rw [if_pos (Nat.succ.inj hlast)] at hn
          cases hn
          cases hended
      · rw [sessions_of_build hb] at hn
        simp at hn

/-! ## Later sessions -/

/-- What a session pops in a run was queued or scheduled before, or is added in the run. -/
theorem carries_of_mem_pops {kind : Plan → Prop} {steps : List Step}
    (hs : y.schedulers[i]? = some s) (hcarries : s.Carries kind)
    (hadds : ∀ a ∈ steps, ∀ p, Scheduler.Adds a i p → kind p) {x : System × Plan}
    (hx : x ∈ y.pops allowed i j steps) : kind x.2 := by
  obtain ⟨past, rest, a, z, rfl, hnext, hsee⟩ := exists_of_mem_observe hx
  obtain ⟨-, t, t', ht, -, htake⟩ := take_of_mem_seePop (next?_eq_some_iff.1 hnext).2 hsee
  have hrun : ∃ s, (y.run allowed past).schedulers[i]? = some s ∧ s.Carries kind := by
    apply run_induction_mem (P := fun y => ∃ s, y.schedulers[i]? = some s ∧ s.Carries kind)
    · intro y b z hb _ hz hy
      obtain ⟨s, hs, hcarries⟩ := hy
      obtain ⟨s', hs', hchange⟩ := exists_change_of_step hz hs
      exact ⟨s', hs', hcarries.change hchange (hadds b (List.mem_append_left _ hb))⟩
    · exact ⟨s, hs, hcarries⟩
  obtain ⟨t₀, ht₀, hcarries₀⟩ := hrun
  obtain rfl := Option.some.inj (ht.symm.trans ht₀)
  obtain ⟨key, hkey⟩ := Registry.mem_values_iff.1 (Queue.mem_of_takeFirst htake).1
  exact hcarries₀.queue key x.2 hkey

/-- When a scheduler is not running, with an empty queue and an empty cron table, every plan that
any of its sessions receives after that is added after that. -/
theorem added_of_mem_receptions (hy : y.ReachableBy allowed) (hs : y.schedulers[i]? = some s)
    (hrunning : s.running = false) (hpending : s.pending = 0)
    (hentries : s.cron.entries = Registry.empty) {later : List Step}
    (hp : p ∈ y.receptions allowed i k later) :
    ∃ plans : List Plan, Step.request (.addPlans i plans) ∈ later ∧ p ∈ plans := by
  have hcarries : s.Carries fun p =>
      ∃ plans : List Plan, Step.request (.addPlans i plans) ∈ later ∧ p ∈ plans := by
    refine ⟨fun key p hqueued => ?_, Cron.Table.carries_of_empty hentries
      ((hy.linked hs).timers_of_entries hentries)⟩
    have hempty : s.queue.entries = Registry.empty := Registry.size_eq_zero_iff.1 hpending
    rw [hempty] at hqueued
    cases hqueued
  have hdue : y.due i k = [] := by
    cases hn : y.session? i k with
    | none => simp [due, hn]
    | some n =>
        obtain ⟨s₀, hs₀, hget⟩ := session?_eq_some_iff.1 hn
        obtain rfl := Option.some.inj (hs.symm.trans hs₀)
        have hclosed : n.closed = true := by
          cases hclosed : n.closed with
          | true => rfl
          | false =>
              have hrun := (hy.last hs hget hclosed).1
              rw [hrunning] at hrun
              cases hrun
        have hover := ((hy.proper hs hget).closed hclosed).2
        simp [due, hn, Session.due, hover]
  have horder := receptions_prefix allowed i k y later
  rw [hdue, List.nil_append] at horder
  obtain ⟨x, hx, rfl⟩ := List.mem_map.1 (horder.subset (List.mem_append_left _ hp))
  refine carries_of_mem_pops hs hcarries (fun a ha q hadd => ?_) hx
  obtain ⟨plans, rfl, hq⟩ := hadd
  exact ⟨plans, ha, hq⟩

/-! ## The end of the fetch loop -/

theorem ReachableBy.open_of_fetch (hy : y.ReachableBy allowed) (hs : y.schedulers[i]? = some s)
    (hn : s.sessions[j]? = some n) (hlive : n.fetch ≠ .ended) : n.closed = false := by
  cases hclosed : n.closed with
  | false => rfl
  | true => exact absurd ((hy.proper hs hn).closed hclosed).1 hlive

/-- When the fetch loop of a session ends no other is left, and the queue is empty. -/
theorem drained_of_end (hy : y.ReachableBy allowed) (hs : y.schedulers[i]? = some s)
    (hlive : n.fetch ≠ .ended) (hedit : s.Edits s' j n n')
    (h : n.Change y z a i j s s'.stores n') (hended : n'.fetch = .ended) :
    s'.Drained ∧ s'.pending = 0 := by
  have hopen := hy.open_of_fetch hs hedit.before hlive
  have hdrained : s'.Drained :=
    hy.forall_sessions hs hedit hopen (fun m hm hclosed => (hm.closed hclosed).1) hended
  refine ⟨hdrained, ?_⟩
  have hqueue : s'.stores.queue = s'.queue := rfl
  rw [Scheduler.pending, ← hqueue]
  generalize s'.stores = v at h
  cases h with
  | endFetch | giveUp => rfl
  | wait | hold | send | sendHeld | resume => cases hended
  | @put p => cases hp : p.exclusive <;> simp [Scheduler.afterSending, hp] at hended
  | _ => exact absurd hended hlive

/-- After the fetch loop of a session has ended, and as long as nobody adds or removes plans or
starts the scheduler again, its queue is empty exactly if no timer went off since, and none goes off
once the dispatch loop has ended. When the scheduler is not running any more and nothing is queued
or scheduled, every plan that a later session receives is added later. -/
theorem pending_eq_zero_iff (hy : y.Reachable) (hn : y.session? i j = some n)
    (hlive : n.fetch ≠ .ended) (hu : y.step? a = some u) (hn' : u.session? i j = some n')
    (hended : n'.fetch = .ended) (steps : List Step) :
    ∃ s : Scheduler, (u.run (untouched i) steps).schedulers[i]? = some s ∧
      (s.pending = 0 ↔ u.firings (untouched i) i steps = []) ∧
      (∀ m : Session, s.sessions[j]? = some m → m.dispatch = .ended →
        ∀ later, (u.run (untouched i) steps).firings (untouched i) i later = []) ∧
      (s.running = false → s.pending = 0 → s.cron.entries = Registry.empty →
        ∀ (k : SessionId) (later : List Step) (p : Plan),
          p ∈ (u.run (untouched i) steps).receptions (fun _ _ => true) i k later →
            ∃ plans : List Plan, Step.request (.addPlans i plans) ∈ later ∧ p ∈ plans) := by
  have hne : n' ≠ n := by
    rintro rfl
    exact hlive hended
  obtain ⟨s, s', hs, hs', -, hedit, hmove⟩ := edits_of_session hu hn hn' hne
  obtain ⟨hdrained, hempty⟩ := drained_of_end hy hs hlive hedit hmove hended
  obtain ⟨t, ht, hsize, hqueue⟩ := queue_of_run hs' hdrained steps
  have hz : (u.run (untouched i) steps).Reachable :=
    Reachable.run_any (.step hy rfl hu) (untouched i) steps
  refine ⟨t, ht, ?_, ?_, ?_⟩
  · rw [Scheduler.pending, hqueue, Queue.size_foldl_push_eq_zero_iff]
    exact and_iff_right hempty
  · intro m hm hdispatch later
    have hlast : j + 1 = t.sessions.size := by
      rw [hsize, hedit.sessions, Array.size_setIfInBounds]
      exact (hy.last hs hedit.before (hy.open_of_fetch hs hedit.before hlive)).2
    exact firings_eq_nil ht (hz.stopped ht hm hlast hdispatch) later
  · intro hrunning hpending hentries k later p hp
    exact added_of_mem_receptions hz ht hrunning hpending hentries hp

/-- A plan is scheduled and due when the scheduler is told to stop. -/
def dueRun : System :=
  after
    [.request .newContext, .request (.newTask "a" [] fun _ => []),
      .request (.newScheduler ⟨1, .localTime, {}⟩),
      .request (.addPlans 0 [⟨0, "a", ⟨0⟩, 0, some "* * * * * *", 0, false, none⟩]),
      .request (.startScheduler 0 0), .move (.dispatch 0 0) 0, .move (.planTimer 0 0) 0,
      .pass 1000, .request (.call (.stopScheduler 0 true)), .move (.call 0) 0]

/-- The dispatch loop ends before the fetch loop. -/
def orderlyRun : System := dueRun.run (fun _ _ => true) [.move (.dispatch 0 0) 0]

/-- Then the timer does not go off any more, and nothing is left behind. -/
theorem pending_eq_zero_orderlyRun :
    ∃ (u : System) (s : Scheduler), orderlyRun.step? (.move (.fetch 0 0) 0) = some u ∧
      (u.run (untouched 0) [.move (.planTimer 0 0) 0,
        .move (.supervisor 0 0) 0]).schedulers[0]? = some s ∧
      s.running = false ∧ s.pending = 0 := by
  have hreach : orderlyRun.Reachable := (reachable_after _).run _
  have hbefore : (orderlyRun.session? 0 0).any (fun n => !n.fetch.isOver) = true := by
    decide +kernel
  have hafter : ((orderlyRun.step? (.move (.fetch 0 0) 0)).any fun u =>
      (u.session? 0 0).any (fun n => n.fetch.isOver && n.dispatch == .ended) &&
        (u.run (untouched 0) [.move (.planTimer 0 0) 0,
          .move (.supervisor 0 0) 0]).schedulers[0]?.any (!·.running)) = true := by
    decide +kernel
  obtain ⟨n, hn, hpopping⟩ := (Option.any_eq_true _ _).1 hbefore
  obtain ⟨u, hu, hafter⟩ := (Option.any_eq_true _ _).1 hafter
  obtain ⟨hends, hrun⟩ := Bool.and_eq_true_iff.1 hafter
  obtain ⟨n', hn', hends⟩ := (Option.any_eq_true _ _).1 hends
  obtain ⟨hfetch, hdispatch⟩ := Bool.and_eq_true_iff.1 hends
  obtain ⟨s, hs, hrunning⟩ := (Option.any_eq_true _ _).1 hrun
  have hlive : n.fetch ≠ .ended := by
    intro hended
    rw [hended] at hpopping
    cases hpopping
  have hended : n'.fetch = .ended := by
    cases hpoint : n'.fetch with
    | ended => rfl
    | _ =>
        rw [hpoint] at hfetch
        cases hfetch
  have hresult := pending_eq_zero_iff hreach hn hlive hu hn' hended
  obtain ⟨s₀, hs₀, -, hquiet, -⟩ := hresult []
  obtain ⟨s₁, hs₁, hget⟩ := session?_eq_some_iff.1 hn'
  obtain rfl := Option.some.inj (hs₁.symm.trans hs₀)
  obtain ⟨t, ht, hiff, -⟩ := hresult [.move (.planTimer 0 0) 0, .move (.supervisor 0 0) 0]
  obtain rfl := Option.some.inj (hs.symm.trans ht)
  exact ⟨u, s, hu, hs, by simpa using hrunning,
    hiff.2 (hquiet n' hget (beq_iff_eq.1 hdispatch) _)⟩

/-- The timer goes off after the fetch loop has ended and before the dispatch loop has. -/
def lateRun : System :=
  dueRun.run (fun _ _ => true)
    [.move (.fetch 0 0) 0, .move (.planTimer 0 0) 0, .move (.dispatch 0 0) 0,
      .move (.supervisor 0 0) 0]

/-- After the dispatch loop has panicked, the timer goes off when the session is over. -/
def oversizedLateRun : System :=
  oversizedStop.run (fun _ _ => true) [.pass 1000, .move (.planTimer 0 0) 0]

/-- What starts the scheduler again, without adding anything, and lets it receive a plan. -/
def restartSteps : List Step :=
  [.request (.startScheduler 0 0), .move (.dispatch 0 1) 0, .move (.dispatch 0 1) 0,
    .move (.fetch 0 1) 0, .move (.fetch 0 1) 0, .move (.dispatch 0 1) 0]

/-- In both runs the scheduler is not running any more and a plan is queued; in the first one the
next session receives it. -/
theorem pending_lateRun :
    (∃ s : Scheduler, lateRun.schedulers[0]? = some s ∧ s.running = false ∧ s.pending = 1) ∧
      (lateRun.receptions (fun _ _ => true) 0 1 restartSteps).map Plan.key = ["a"] ∧
      ∃ s : Scheduler, oversizedLateRun.schedulers[0]? = some s ∧ s.running = false ∧
        s.pending = 1 := by
  have hpending {z : System}
      (h : (z.schedulers[0]?.any fun s => !s.running && s.pending == 1) = true) :
      ∃ s : Scheduler, z.schedulers[0]? = some s ∧ s.running = false ∧ s.pending = 1 := by
    obtain ⟨s, hs, hrun⟩ := (Option.any_eq_true _ _).1 h
    exact ⟨s, hs, by simpa using hrun⟩
  have hlate : (lateRun.schedulers[0]?.any fun s => !s.running && s.pending == 1) = true := by
    decide +kernel
  have hreceived : (lateRun.receptions (fun _ _ => true) 0 1 restartSteps).map Plan.key =
      ["a"] := by decide +kernel
  have hoversized : (oversizedLateRun.schedulers[0]?.any fun s =>
      !s.running && s.pending == 1) = true := by decide +kernel
  exact ⟨hpending hlate, hreceived, hpending hoversized⟩

end System

end Scheduling
