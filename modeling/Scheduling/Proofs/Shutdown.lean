import Scheduling.Proofs.DispatchSequence
import Scheduling.Proofs.Halts
import Scheduling.Proofs.Permits
/-!
# The end of the dispatch loop

When the dispatch loop of a session ends it clears and stops the cron table and cancels all that is
executing, from wherever it stands. Nothing of this is undone before the next start, whatever the
fetch loop, the workers and the cancelled plans do in the meantime. A dispatch loop that panics when
it makes its permits clears nothing.
-/

namespace Scheduling

/-- Whether a step starts the scheduler `i`. -/
def Step.starts (i : SchedulerId) : Step → Bool
  | .request (.startScheduler i' _) => i' == i
  | _ => false

/-- Whether a step adds plans to the scheduler `i`. -/
def Step.adds (i : SchedulerId) : Step → Bool
  | .request (.addPlans i' _) => i' == i
  | _ => false

/-- A session whose dispatch loop is over leaves the cron table alone and admits nothing. -/
theorem Session.Change.of_over {y z : System} {a : Step} {i : SchedulerId} {j : SessionId}
    {s : Scheduler} {n n' : Session} {v : Scheduler.Stores} (h : n.Change y z a i j s v n')
    (hover : n.dispatch.isOver = true) :
    v.cron = s.cron ∧ v.cronIds = s.cronIds ∧
      ∀ key x, v.executing.get? key = some x → s.executing.get? key = some x := by
  cases h with
  | stopAcquiring hdispatch | stopReceiving hdispatch | enter hdispatch =>
      rw [hdispatch] at hover
      cases hover
  | endWorker =>
      refine ⟨rfl, rfl, fun key x hx => ?_⟩
      rw [Registry.get?_erase] at hx
      split at hx
      · cases hx
      · exact hx
  | _ => exact ⟨rfl, rfl, fun _ _ => id⟩

/-- A dispatch loop that ends unschedules all plans and cancels what is executing. -/
theorem Session.Change.of_end {y z : System} {a : Step} {i : SchedulerId} {j : SessionId}
    {s : Scheduler} {n n' : Session} {v : Scheduler.Stores} (h : n.Change y z a i j s v n')
    (hlive : n.dispatch ≠ .ended) (hended : n'.dispatch = .ended) :
    v = s.stores.withoutScheduled ∧ n'.workers = n.workers ∧
      ∃ s₁, z = s.executing.values.foldl System.cancelExecution (y.setScheduler i s₁) := by
  cases h with
  | stopAcquiring _ _ hz | stopReceiving _ _ hz => exact ⟨rfl, rfl, _, hz⟩
  | openSlots | crash | acquire | skip | enter => cases hended
  | _ => exact absurd hended hlive

namespace Scheduler

/-- The dispatch loops of all sessions are over. -/
def Over (s : Scheduler) : Prop :=
  ∀ (j : SessionId) (n : Session), s.sessions[j]? = some n → n.dispatch.isOver = true

variable {y z : System} {a : Step} {i : SchedulerId} {s s' : Scheduler}

/-- What holds of all sessions, and goes on to hold in their moves, holds until the next start. -/
theorem Change.forall_sessions {P : Session → Prop} (h : s.Change y z a i s')
    (ha : a.starts i = false)
    (hP : ∀ (j : SessionId) (n n' : Session) (v : Stores), n.Change y z a i j s v n' → P n → P n')
    (hs : ∀ (j : SessionId) (n : Session), s.sessions[j]? = some n → P n) :
    ∀ (j : SessionId) (n : Session), s'.sessions[j]? = some n → P n := by
  intro j n' hn'
  obtain hreg | @⟨k, n, m, -, hedit, hn⟩ | ⟨hstart, -, -⟩ := h.outcome
  · rw [hreg.registers.sessions] at hn'
    exact hs j n' hn'
  · obtain ⟨rfl, rfl⟩ | ⟨-, hkept⟩ := hedit.session hn'
    · exact hP _ _ _ _ hn (hs _ _ hedit.before)
    · exact hs j n' hkept
  · simp [hstart, Step.starts] at ha

theorem Over.change (hs : s.Over) (h : s.Change y z a i s') (ha : a.starts i = false) :
    s'.Over :=
  h.forall_sessions ha (fun _ _ _ _ hn hover => by rw [hn.dispatch_over hover, hover]) hs

/-- A step in which a session does not stay as it is changes no other session. -/
theorem Change.edits_of_ne {j : SessionId} {n n' : Session} (h : s.Change y z a i s')
    (hn : s.sessions[j]? = some n) (hn' : s'.sessions[j]? = some n') (hne : n' ≠ n) :
    s.SameSettings s' ∧ s.Edits s' j n n' ∧ n.Change y z a i j s s'.stores n' := by
  have hmoved (hkept : s.sessions[j]? = some n') : False :=
    hne (Option.some.inj (hkept.symm.trans hn))
  obtain hreg | @⟨k, m, m', hset, hedit, hm⟩ | ⟨-, -, rfl⟩ := h.outcome
  · rw [hreg.registers.sessions] at hn'
    exact (hmoved hn').elim
  · obtain ⟨rfl, rfl⟩ | ⟨-, hkept⟩ := hedit.session hn'
    · obtain rfl := Option.some.inj (hn.symm.trans hedit.before)
      exact ⟨hset, hedit, hm⟩
    · exact (hmoved hkept).elim
  · obtain ⟨hlt, -⟩ := Array.getElem?_eq_some_iff.1 hn
    simp only [Scheduler.start, Array.getElem?_push, Nat.ne_of_lt hlt, if_false] at hn'
    exact (hmoved hn').elim

end Scheduler

namespace System

variable {allowed : System → Step → Bool} {y z u : System} {a : Step} {i : SchedulerId}
  {j : SessionId} {s s' : Scheduler} {n n' : Session}

/-- A step in which a session does not stay as it is, seen from its scheduler. -/
theorem edits_of_session (h : y.step? a = some z) (hn : y.session? i j = some n)
    (hn' : z.session? i j = some n') (hne : n' ≠ n) :
    ∃ s s' : Scheduler, y.schedulers[i]? = some s ∧ z.schedulers[i]? = some s' ∧
      s.SameSettings s' ∧ s.Edits s' j n n' ∧ n.Change y z a i j s s'.stores n' := by
  obtain ⟨s, hs, hget⟩ := session?_eq_some_iff.1 hn
  obtain ⟨s', hs', hchange⟩ := exists_change_of_step h hs
  obtain ⟨s₁, hs₁, hget'⟩ := session?_eq_some_iff.1 hn'
  obtain rfl := Option.some.inj (hs'.symm.trans hs₁)
  obtain ⟨hset, hedit, hmove⟩ := hchange.edits_of_ne hget hget' hne
  exact ⟨s, s', hs, hs', hset, hedit, hmove⟩

/-! ## What is left of a session -/

/-- Nothing is scheduled and no timer is live, and all plans that are executing were told to
stop. -/
structure Cleared (y : System) (s : Scheduler) : Prop where
  cron : s.cron.Idle
  cronIds : s.cronIds = Registry.empty
  executing : ∀ key x, s.executing.get? key = some x → y.Cancelled x

/-- The dispatch loop clears all when it ends, unless its permits could not be made. -/
theorem cleared_of_end (hy : y.ReachableBy discreet) (hs : y.schedulers[i]? = some s)
    (hlive : n.dispatch.isOver = false) (h : n.Change y z a i j s s'.stores n')
    (hover : n'.dispatch.isOver = true) (hmax : s.maxConcurrency ≤ Scheduler.permitLimit) :
    z.Cleared s' := by
  have hlive' : n.dispatch ≠ .ended := fun hended => by
    rw [hended] at hlive
    cases hlive
  have hended : n'.dispatch = .ended := by
    generalize s'.stores = v at h
    cases h with
    | stopAcquiring | stopReceiving => rfl
    | crash _ hlarge => exact absurd hmax (Nat.not_le_of_lt hlarge)
    | openSlots | acquire | skip | enter => cases hover
    | _ =>
        rw [hlive] at hover
        cases hover
  obtain ⟨hstores, -, s₁, hz⟩ := h.of_end hlive' hended
  have hcron : s'.cron = s.cron.clear.stop := congrArg Scheduler.Stores.cron hstores
  have hexecuting : s'.executing = s.executing := congrArg Scheduler.Stores.executing hstores
  refine ⟨?_, congrArg Scheduler.Stores.cronIds hstores, fun key x hx => ?_⟩
  · rw [hcron]
    exact (hy.linked hs).idle_clear_stop
  · rw [hexecuting] at hx
    have hhosts (v : Execution) (hv : v ∈ s.executing.values) : (y.setScheduler i s₁).Hosts v := by
      obtain ⟨k, hk⟩ := Registry.mem_values_iff.1 hv
      have hproceeds : y.Proceeds none (y.setScheduler i s₁) := proceeds_setScheduler y i s₁
      exact (hy.hosts hs hk).proceeds hproceeds
    rw [hz]
    exact cancelled_foldl_cancelExecution hhosts (.inl (Registry.mem_values_iff.2 ⟨key, hx⟩))

/-- While a session is not closed all others are. -/
theorem ReachableBy.closed_of_ne {k : SessionId} {m : Session} (hy : y.ReachableBy allowed)
    (hs : y.schedulers[i]? = some s) (hn : s.sessions[j]? = some n) (hopen : n.closed = false)
    (hm : s.sessions[k]? = some m) (hne : k ≠ j) : m.closed = true := by
  cases hclosed : m.closed with
  | true => rfl
  | false => exact absurd (hy.open_unique hs hm hn hclosed hopen) hne

/-- When a session that is not closed changes, what holds of the closed ones and of that one holds
of all sessions. -/
theorem ReachableBy.forall_sessions {P : Session → Prop} (hy : y.ReachableBy allowed)
    (hs : y.schedulers[i]? = some s) (hedit : s.Edits s' j n n') (hopen : n.closed = false)
    (hclosed : ∀ m : Session, m.Proper → m.closed = true → P m) (hn' : P n') :
    ∀ (k : SessionId) (m : Session), s'.sessions[k]? = some m → P m := by
  intro k m hm
  obtain ⟨rfl, rfl⟩ | ⟨hne, hkept⟩ := hedit.session hm
  · exact hn'
  · exact hclosed m (hy.proper hs hkept) (hy.closed_of_ne hs hedit.before hopen hkept hne)

/-- No other dispatch loop is left when that of a session ends. -/
theorem over_of_end (hy : y.ReachableBy allowed) (hs : y.schedulers[i]? = some s)
    (hlive : n.dispatch.isOver = false) (hedit : s.Edits s' j n n')
    (hover : n'.dispatch.isOver = true) : s'.Over := by
  have hopen : n.closed = false := by
    cases hclosed : n.closed with
    | false => rfl
    | true =>
        have hended := ((hy.proper hs hedit.before).closed hclosed).2
        rw [hlive] at hended
        cases hended
  exact hy.forall_sessions hs hedit hopen (fun m hm hclosed => (hm.closed hclosed).2) hover

/-- Whether a step leaves the scheduler `i` to itself: it neither starts it nor adds plans to it,
and uses no executor of an executing plan. -/
def undisturbed (i : SchedulerId) (y : System) (a : Step) : Bool :=
  y.discreet a && !a.starts i && !a.adds i

/-- What the end of the dispatch loop has cleared stays so. -/
theorem Cleared.change (hc : y.Cleared s) (hy : y.ReachableBy discreet)
    (hs : y.schedulers[i]? = some s) (hover : s.Over) (h : y.step? a = some z)
    (hchange : s.Change y z a i s') (ha : y.undisturbed i a = true) : z.Cleared s' := by
  simp only [undisturbed, Bool.and_eq_true, Bool.not_eq_true'] at ha
  obtain ⟨⟨hdiscreet, hstarts⟩, hadds⟩ := ha
  have hcancelled (key : String) (x : Execution) (hx : s.executing.get? key = some x) :
      z.Cancelled x :=
    (hc.executing key x hx).step (hy.reserves hs hx) h (borrows_ne_of_discreet hdiscreet hs hx)
  obtain hreg | ⟨-, hedit, hn⟩ | ⟨hstart, -, -⟩ := hchange.outcome
  · cases hreg with
    | idle | unsupervise => exact ⟨hc.cron, hc.cronIds, hcancelled⟩
    | add hadd => simp [hadd, Step.adds] at hadds
    | @remove p =>
        have hsame : s.unschedule p.key = s := by
          unfold Scheduler.unschedule
          rw [hc.cronIds]
          rfl
        rw [hsame]
        exact ⟨hc.cron, hc.cronIds, hcancelled⟩
    | timer _ hadvance =>
        obtain ⟨_, _, hfired, -⟩ := Scheduler.advanceTimer_cases hadvance
        rw [hc.cron.advance_eq_none] at hfired
        cases hfired
  · obtain ⟨hsame, hcronIds, hexecuting⟩ := hn.of_over (hover _ _ hedit.before)
    have hcron : s'.cron = s.cron := hsame
    exact ⟨hcron ▸ hc.cron, hcronIds.trans hc.cronIds,
      fun key x hx => hcancelled key x (hexecuting key x hx)⟩
  · simp [hstart, Step.starts] at hstarts

/-! ## Permits that cannot be made -/

/-- A scheduler that asks for more permits than can be made never stops its cron table. -/
theorem ReachableBy.running_of_oversized (h : y.ReachableBy allowed)
    (hs : y.schedulers[i]? = some s) (hmax : Scheduler.permitLimit < s.maxConcurrency)
    (hn : s.sessions[j]? = some n) : s.cron.running = true := by
  induction h generalizing s j n with
  | create origin => simp [System.create] at hs
  | step h _ hz ih =>
      obtain ⟨s₀, hs₀, hchange⟩ | ⟨_, -, hb⟩ := change_of_step hz hs
      · obtain hreg | @⟨_, m, m', hset, hedit, hm⟩ | ⟨-, -, rfl⟩ := hchange.outcome
        · have hkeep := hreg.registers
          rw [hkeep.sessions] at hn
          rw [hkeep.maxConcurrency] at hmax
          exact hreg.cron_induction (P := fun t => t.running = true) (ih hs₀ hmax hn)
            (fun t schedule p _ ht => (t.running_add schedule p).trans ht)
            (fun t id ht => (t.running_remove id).trans ht)
            fun _ _ _ _ _ hadvance =>
              (Cron.Table.running_advance hadvance).trans (ih hs₀ hmax hn)
        · rw [hset.maxConcurrency] at hmax
          have hrunning := ih hs₀ hmax hedit.before
          have hsmall (hopening : m.dispatch ≠ .opening) (hcrashed : m.dispatch ≠ .crashed) :
              False :=
            Nat.not_le_of_lt hmax ((h.accounts hs₀ hedit.before).opened hopening hcrashed).1
          have hcron : s.stores.cron = s.cron := rfl
          rw [← hcron]
          generalize s.stores = v at hm
          cases hm with
          | stopAcquiring hdispatch | stopReceiving hdispatch =>
              exact (hsmall (by simp [hdispatch]) (by simp [hdispatch])).elim
          | _ => exact hrunning
        · exact Cron.Table.running_start _
      · rw [sessions_of_build hb] at hn
        simp at hn

/-! ## Runs -/

/-- Without a start no session receives anything once the dispatch loops of all of them are over. -/
theorem receptions_eq_nil_of_over (hs : y.schedulers[i]? = some s) (hover : s.Over)
    (j : SessionId) (steps : List Step) :
    y.receptions (fun _ a => !a.starts i) i j steps = [] := by
  apply observe_eq_nil (P := fun y => ∃ s, y.schedulers[i]? = some s ∧ s.Over)
  · intro y a z ha hz hy
    obtain ⟨s, hs, hover⟩ := hy
    obtain ⟨s', hs', hchange⟩ := exists_change_of_step hz hs
    have hover' := hover.change hchange (by simpa using ha)
    refine ⟨⟨s', hs', hover'⟩, ?_⟩
    unfold seeReception
    split
    · rename_i n n' _ hn'
      obtain ⟨s₁, hs₁, hget⟩ := session?_eq_some_iff.1 hn'
      obtain rfl := Option.some.inj (hs'.symm.trans hs₁)
      simp [Session.received, DispatchPoint.receives_of_isOver (hover' j n' hget)]
    · rfl
  · exact ⟨s, hs, hover⟩

/-- What holds when the dispatch loops are over goes on to hold in a run that leaves the scheduler
to itself. -/
theorem cleared_of_run (hy : y.ReachableBy discreet) (hs : y.schedulers[i]? = some s)
    (hn : s.sessions[j]? = some n) (hover : s.Over)
    (hcleared : s.maxConcurrency ≤ Scheduler.permitLimit → y.Cleared s) (steps : List Step) :
    (y.run (undisturbed i) steps).ReachableBy discreet ∧
      ∃ (s : Scheduler) (n : Session), (y.run (undisturbed i) steps).schedulers[i]? = some s ∧
        s.sessions[j]? = some n ∧ s.Over ∧
        (s.maxConcurrency ≤ Scheduler.permitLimit → (y.run (undisturbed i) steps).Cleared s) := by
  apply run_induction (P := fun y => y.ReachableBy discreet ∧ ∃ (s : Scheduler) (n : Session),
    y.schedulers[i]? = some s ∧ s.sessions[j]? = some n ∧ s.Over ∧
      (s.maxConcurrency ≤ Scheduler.permitLimit → y.Cleared s))
  · intro y a z ha hz hP
    obtain ⟨hy, s, n, hs, hn, hover, hcleared⟩ := hP
    have ha' := ha
    simp only [undisturbed, Bool.and_eq_true, Bool.not_eq_true'] at ha'
    obtain ⟨⟨hdiscreet, hstarts⟩, -⟩ := ha'
    obtain ⟨s', n', hs', hn', hset, -⟩ := change_of_session hz hs hn
    obtain ⟨s₁, hs₁, hchange⟩ := exists_change_of_step hz hs
    obtain rfl := Option.some.inj (hs'.symm.trans hs₁)
    refine ⟨hy.step hdiscreet hz, s', n', hs', hn', hover.change hchange hstarts, fun hmax => ?_⟩
    rw [hset.maxConcurrency] at hmax
    exact (hcleared hmax).change hy hs hover hz hchange ha
  · exact ⟨hy, s, n, hs, hn, hover, hcleared⟩

/-- Wherever a session stands when its dispatch loop ends, and whatever its fetch loop and its
workers do after that: before the next start and before plans are added again, nothing is scheduled,
no timer is live and all plans that are executing were told to stop, exactly if the permits could be
made; and no session admits anything before the next start. -/
theorem cleared_iff (hy : y.ReachableBy discreet) (hn : y.session? i j = some n)
    (hlive : n.dispatch.isOver = false) (ha : y.discreet a = true) (hu : y.step? a = some u)
    (hn' : u.session? i j = some n') (hover : n'.dispatch.isOver = true) (steps : List Step) :
    ∃ s : Scheduler, (u.run (undisturbed i) steps).schedulers[i]? = some s ∧
      ((u.run (undisturbed i) steps).Cleared s ↔ s.maxConcurrency ≤ Scheduler.permitLimit) ∧
      ∀ (k : SessionId) (later : List Step),
        (u.run (undisturbed i) steps).receptions (fun _ a => !a.starts i) i k later = [] := by
  have hne : n' ≠ n := by
    rintro rfl
    rw [hlive] at hover
    cases hover
  obtain ⟨s, s', hs, hs', hset, hedit, hmove⟩ := edits_of_session hu hn hn' hne
  have hcleared (hmax : s'.maxConcurrency ≤ Scheduler.permitLimit) : u.Cleared s' := by
    rw [hset.maxConcurrency] at hmax
    exact cleared_of_end hy hs hlive hmove hover hmax
  have hover' : s'.Over := over_of_end hy hs hlive hedit hover
  obtain ⟨hz, t, m, ht, hm, htover, htcleared⟩ :=
    cleared_of_run (hy.step ha hu) hs' hedit.after hover' hcleared steps
  refine ⟨t, ht, ⟨fun hclear => ?_, htcleared⟩, fun k later =>
    receptions_eq_nil_of_over ht htover k later⟩
  refine Nat.le_of_not_lt fun hmax => ?_
  have hrunning := hz.running_of_oversized ht hmax hm
  rw [hclear.cron.running] at hrunning
  cases hrunning

/-- One plan has begun, one was admitted and has not begun, and one is scheduled when the scheduler
is told to stop. -/
def abandonedRun : System :=
  (create 0).run discreet
    [.request .newContext, .request (.newTask "a" [] fun _ => [.rawSleep ⟨5000000000⟩]),
      .request (.newTask "b" [] fun _ => []), .request (.newTask "c" [] fun _ => []),
      .request (.newScheduler ⟨2, .localTime, {}⟩),
      .request (.addPlans 0
        [⟨0, "a", ⟨0⟩, 0, none, 0, false, none⟩, ⟨1, "b", ⟨0⟩, 0, none, 0, false, none⟩,
          ⟨2, "c", ⟨0⟩, 0, some "* * * * * *", 0, false, none⟩]),
      .request (.startScheduler 0 0), .move (.dispatch 0 0) 0, .move (.dispatch 0 0) 0,
      .move (.fetch 0 0) 0, .move (.fetch 0 0) 0, .move (.dispatch 0 0) 0,
      .move (.fetch 0 0) 0, .move (.fetch 0 0) 0, .move (.worker 0 0 0) 0, .move (.run 0) 0,
      .move (.dispatch 0 0) 0, .move (.dispatch 0 0) 0,
      .request (.call (.stopScheduler 0 true)), .move (.call 0) 0]

/-- The worker that has not begun finds its context done, the fetch loop ends, and the session is
closed. -/
def leavingSteps : List Step :=
  [.move (.worker 0 0 1) 0, .move (.fetch 0 0) 0, .move (.supervisor 0 0) 0]

/-- The plan that sleeps on was told to stop, and the scheduled one is forgotten. -/
theorem cleared_abandonedRun :
    ∃ (u : System) (s : Scheduler), abandonedRun.step? (.move (.dispatch 0 0) 0) = some u ∧
      (u.run (undisturbed 0) leavingSteps).schedulers[0]? = some s ∧ s.running = false ∧
      s.executing.keys = ["a"] ∧ (u.run (undisturbed 0) leavingSteps).Cleared s := by
  have hy : abandonedRun.ReachableBy discreet := (ReachableBy.create 0).run _
  have hbefore : (abandonedRun.session? 0 0).any (fun n => !n.dispatch.isOver) = true := by
    decide +kernel
  have hafter : ((abandonedRun.step? (.move (.dispatch 0 0) 0)).any fun u =>
      (u.session? 0 0).any (·.dispatch.isOver) &&
        (u.run (undisturbed 0) leavingSteps).schedulers[0]?.any fun s =>
          !s.running && s.executing.keys == ["a"] &&
            decide (s.maxConcurrency ≤ Scheduler.permitLimit)) = true := by decide +kernel
  obtain ⟨n, hn, hlive⟩ := (Option.any_eq_true _ _).1 hbefore
  obtain ⟨u, hu, hafter⟩ := (Option.any_eq_true _ _).1 hafter
  obtain ⟨hended, hrun⟩ := Bool.and_eq_true_iff.1 hafter
  obtain ⟨n', hn', hover⟩ := (Option.any_eq_true _ _).1 hended
  obtain ⟨s, hs, hrun⟩ := (Option.any_eq_true _ _).1 hrun
  simp only [Bool.and_eq_true, Bool.not_eq_true', beq_iff_eq, decide_eq_true_eq] at hrun
  obtain ⟨⟨hrunning, hkeys⟩, hmax⟩ := hrun
  obtain ⟨t, ht, hcleared, -⟩ := cleared_iff hy hn (by simpa using hlive) (by decide +kernel) hu
    hn' hover leavingSteps
  obtain rfl := Option.some.inj (hs.symm.trans ht)
  exact ⟨u, s, hu, hs, hrunning, hkeys, hcleared.2 hmax⟩

/-- A scheduler with more permits than can be made is started and stopped. -/
def oversizedStop : System :=
  (create 0).run discreet
    [.request .newContext, .request (.newTask "a" [] fun _ => []),
      .request (.newScheduler ⟨1 <<< 61, .localTime, {}⟩),
      .request (.addPlans 0 [⟨0, "a", ⟨0⟩, 0, some "* * * * * *", 0, false, none⟩]),
      .request (.startScheduler 0 0), .move (.planTimer 0 0) 0, .move (.dispatch 0 0) 0,
      .request (.call (.stopScheduler 0 true)), .move (.call 0) 0, .move (.fetch 0 0) 0,
      .move (.supervisor 0 0) 0, .move (.call 0) 0]

/-- Its loops are over, but its cron table goes on with the entry and its timer. -/
theorem not_cleared_oversizedStop :
    ∃ (s : Scheduler) (n : Session), oversizedStop.schedulers[0]? = some s ∧
      s.sessions[0]? = some n ∧ n.fetch = .ended ∧ n.dispatch.isOver = true ∧
      s.running = false ∧ s.scheduled = 1 ∧ s.cron.size = 1 ∧ s.cron.timers.size = 1 ∧
      s.cron.running = true ∧ ¬ oversizedStop.Cleared s := by
  have hrun : (oversizedStop.schedulers[0]?.any fun s =>
      !s.running && s.scheduled == 1 && s.cron.size == 1 && s.cron.timers.size == 1 &&
        s.cron.running && s.sessions[0]?.any (·.closed)) = true := by decide +kernel
  obtain ⟨s, hs, hrun⟩ := (Option.any_eq_true _ _).1 hrun
  simp only [Bool.and_eq_true, Bool.not_eq_true', beq_iff_eq] at hrun
  obtain ⟨⟨⟨⟨⟨hrunning, hscheduled⟩, hsize⟩, htimers⟩, hcron⟩, hclosed⟩ := hrun
  obtain ⟨n, hn, hclosed⟩ := (Option.any_eq_true _ _).1 hclosed
  have hy : oversizedStop.ReachableBy discreet := (ReachableBy.create 0).run _
  obtain ⟨hfetch, hover⟩ := (hy.proper hs hn).closed hclosed
  refine ⟨s, n, hs, hn, hfetch, hover, hrunning, hscheduled, hsize, htimers, hcron, ?_⟩
  intro hclear
  rw [hclear.cron.running] at hcron
  cases hcron

end System

end Scheduling
