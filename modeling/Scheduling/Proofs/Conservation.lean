import Scheduling.Proofs.Lifecycle
import Scheduling.Proofs.Permits
/-!
# Conservation of permits and of the count in flight

While a session has no reason to stop and no worker has panicked, each plan in flight is being
sent, in the channel or running, and each permit is free, held by the dispatch loop or held by a
worker. The one exception is a number of permits that cannot be made: then the dispatch loop is gone
after its first move, and with it the permits and the plan in the channel.
-/

namespace Scheduling

namespace Session

/-- The permits that nobody holds; until the dispatch loop makes them these are all. -/
def freePermits (n : Session) (max : Nat) : Nat :=
  if n.dispatch = .opening then max else n.permits

/-- Everything that was handed out is accounted for. -/
structure Conserves (max : Nat) (n : Session) : Prop where
  inFlight : n.inFlight = n.sending.length + n.slot.toList.length + n.workers.length
  permits : n.freePermits max + n.heldPermits + n.workers.length = max

/-- The count in flight is not zero wherever one plan less is counted: when a plan that was being
sent is given up, when one from the channel is skipped and when a worker ends. -/
structure CountsSafely (n : Session) : Prop where
  sending : ∀ p, n.fetch = .sending p → 0 < n.inFlight
  receiving : ∀ p, n.slot = some p → 0 < n.inFlight
  working : ∀ w ∈ n.workers, 0 < n.inFlight

theorem length_load (n : Session) :
    n.load.length = n.sending.length + n.slot.toList.length + n.workers.length := by
  simp [load, Nat.add_assoc]

theorem countsSafely_of_length_le {n : Session} (hle : n.load.length ≤ n.inFlight) :
    n.CountsSafely := by
  rw [length_load] at hle
  refine ⟨fun p hp => ?_, fun p hp => ?_, fun w hw => ?_⟩
  · simp only [Session.sending, hp, List.length_singleton] at hle
    omega
  · simp only [hp, Option.toList, List.length_singleton] at hle
    omega
  · have hpos := List.length_pos_of_mem hw
    omega

/-- Where no plan is lost, the count in flight goes on being the size of the load. -/
theorem Tally.inFlight_eq {cause : Prop} {n n' : Session} (h : n.Tally cause n')
    (hcause : ¬ cause) (heq : n.inFlight = n.load.length) : n'.inFlight = n'.load.length := by
  cases h with
  | same hload hcount => rw [hcount, heq, hload.length_eq]
  | up hload hcount => rw [hcount, heq, hload.length_eq, List.length_cons]
  | down hload hcount => rw [hcount, heq, hload.length_eq, List.length_cons, Nat.add_sub_cancel]
  | lost hlost => exact absurd hlost hcause

end Session

namespace System

variable {y : System} {i : SchedulerId} {j : SessionId} {s : Scheduler} {n : Session}

/-- As long as neither a worker nor the dispatch loop panics and nothing has to stop, the count in
flight is the size of the load. -/
theorem ReachableBy.inFlight_eq (h : y.ReachableBy fun y a => !y.crashesWorker i j a)
    (hs : y.schedulers[i]? = some s) (hn : s.sessions[j]? = some n)
    (hlive : y.contexts.isDone n.shutdown = false) (hdispatch : n.dispatch ≠ .crashed) :
    n.inFlight = n.load.length := by
  induction h generalizing s n with
  | create origin => simp [System.create] at hs
  | @step y z a h ha hz ih =>
      obtain ⟨s₀, n₀, hs₀, hn₀, -, x, hchange⟩ | rfl := session_of_step hz hs hn
      · rw [hchange.shutdown] at hlive
        have hlive₀ := isDone_eq_false_of_step hz hlive
        have heq := ih hs₀ hn₀ hlive₀ fun hcrashed =>
          hdispatch ((hchange.dispatch_over (by rw [hcrashed]; rfl)).trans hcrashed)
        refine (hchange.tally (h.numbered.nodup hs₀ hn₀)).inFlight_eq ?_ heq
        rintro (hdone | hcrashed | hpanic)
        · rw [hlive₀] at hdone
          cases hdone
        · exact hdispatch hcrashed
        · rw [hpanic] at ha
          cases ha
      · rfl

/-- In a session that has no reason to stop and whose workers do not panic, the plans in flight and
the permits are conserved unless the dispatch loop has tried to make more permits than can be made;
and no session ever counts below zero. -/
theorem conserves_iff (h : y.ReachableBy fun y a => !y.crashesWorker i j a)
    (hs : y.schedulers[i]? = some s) (hn : s.sessions[j]? = some n)
    (hlive : y.contexts.isDone n.shutdown = false) :
    (n.Conserves s.maxConcurrency ↔
        n.dispatch = .opening ∨ s.maxConcurrency ≤ Scheduler.permitLimit) ∧
      n.CountsSafely := by
  have haccounts := h.accounts hs hn
  refine ⟨⟨fun hconserves => ?_, fun hmax => ?_⟩, ?_⟩
  · by_cases hopening : n.dispatch = .opening
    · exact .inl hopening
    · refine .inr (haccounts.opened hopening fun hcrashed => ?_).1
      obtain ⟨hlimit, hpermits, hworkers⟩ := haccounts.crashed hcrashed
      have hsum := hconserves.permits
      simp only [Session.freePermits, Session.heldPermits, hcrashed, hpermits, hworkers] at hsum
      simp at hsum
      omega
  · have hdispatch : n.dispatch ≠ .crashed := by
      intro hcrashed
      obtain hopening | hmax := hmax
      · rw [hcrashed] at hopening
        cases hopening
      · exact Nat.not_le_of_lt (haccounts.crashed hcrashed).1 hmax
    refine ⟨n.length_load ▸ h.inFlight_eq hs hn hlive hdispatch, ?_⟩
    by_cases hopening : n.dispatch = .opening
    · obtain ⟨-, hworkers⟩ := haccounts.opening hopening
      simp [Session.freePermits, Session.heldPermits, hopening, hworkers]
    · have hsum := (haccounts.opened hopening hdispatch).2
      simpa only [Session.freePermits, if_neg hopening] using hsum
  · exact Session.countsSafely_of_length_le (h.load_length_le hs hn)

/-- With one permit a plan runs, one is in the channel and one is being sent. -/
def crowdedRun : System :=
  (create 0).run (fun y a => !y.crashesWorker 0 0 a)
    [.request .newContext, .request (.newTask "a" [] fun _ => [.awaitDone]),
      .request (.newTask "b" [] fun _ => []), .request (.newTask "c" [] fun _ => []),
      .request (.newScheduler ⟨1, .localTime, {}⟩),
      .request (.addPlans 0
        [⟨0, "a", ⟨0⟩, 0, none, 0, false, none⟩, ⟨1, "b", ⟨0⟩, 0, none, 0, false, none⟩,
          ⟨2, "c", ⟨0⟩, 0, none, 0, false, none⟩]),
      .request (.startScheduler 0 0), .move (.dispatch 0 0) 0, .move (.dispatch 0 0) 0,
      .move (.fetch 0 0) 0, .move (.fetch 0 0) 0, .move (.dispatch 0 0) 0,
      .move (.fetch 0 0) 0, .move (.fetch 0 0) 0, .move (.fetch 0 0) 0,
      .move (.worker 0 0 0) 0]

theorem conserves_crowdedRun :
    ∃ (s : Scheduler) (n : Session), crowdedRun.schedulers[0]? = some s ∧
      s.sessions[0]? = some n ∧ crowdedRun.contexts.isDone n.shutdown = false ∧
      n.inFlight = 3 ∧ n.permits = 0 ∧ n.Conserves s.maxConcurrency ∧ n.CountsSafely := by
  have hreach : crowdedRun.ReachableBy fun y a => !y.crashesWorker 0 0 a :=
    (ReachableBy.create 0).run _
  have hrun : (crowdedRun.schedulers[0]?.any fun s => decide (s.maxConcurrency = 1) &&
      s.sessions[0]?.any fun n => !crowdedRun.contexts.isDone n.shutdown && n.inFlight == 3 &&
        n.permits == 0) = true := by decide +kernel
  obtain ⟨s, hs, hrun⟩ := (Option.any_eq_true _ _).1 hrun
  obtain ⟨hmax, hrun⟩ := Bool.and_eq_true_iff.1 hrun
  obtain ⟨n, hn, hrun⟩ := (Option.any_eq_true _ _).1 hrun
  simp only [Bool.and_eq_true, Bool.not_eq_true', beq_iff_eq] at hrun
  obtain ⟨⟨hlive, hcount⟩, hpermits⟩ := hrun
  have hlimit : s.maxConcurrency ≤ Scheduler.permitLimit := by
    rw [of_decide_eq_true hmax]
    decide
  obtain ⟨hconserves, hsafe⟩ := conserves_iff hreach hs hn hlive
  exact ⟨s, n, hs, hn, hlive, hcount, hpermits, hconserves.2 (.inr hlimit), hsafe⟩

/-- An exclusive plan is in the channel when the dispatch loop tries to make too many permits. -/
def oversizedRun : System :=
  (create 0).run (fun y a => !y.crashesWorker 0 0 a)
    [.request .newContext, .request (.newTask "x" [] fun _ => []),
      .request (.newScheduler ⟨1 <<< 61, .localTime, {}⟩),
      .request (.addPlans 0 [⟨0, "x", ⟨0⟩, 0, none, 0, true, none⟩]),
      .request (.startScheduler 0 0), .move (.fetch 0 0) 0, .move (.fetch 0 0) 0,
      .move (.fetch 0 0) 0, .move (.dispatch 0 0) 0]

/-- A plan stays counted that is nowhere any more, and there are no permits. -/
theorem not_conserves_oversizedRun :
    ∃ (s : Scheduler) (n : Session), oversizedRun.schedulers[0]? = some s ∧
      s.sessions[0]? = some n ∧ oversizedRun.contexts.isDone n.shutdown = false ∧
      n.inFlight = 1 ∧ n.load = [] ∧ n.permits = 0 ∧ ¬ n.Conserves s.maxConcurrency := by
  have hrun : (oversizedRun.schedulers[0]?.any fun s => s.sessions[0]?.any fun n =>
      !oversizedRun.contexts.isDone n.shutdown && n.inFlight == 1 && n.load.isEmpty &&
        n.permits == 0) = true := by decide +kernel
  obtain ⟨s, hs, hrun⟩ := (Option.any_eq_true _ _).1 hrun
  obtain ⟨n, hn, hrun⟩ := (Option.any_eq_true _ _).1 hrun
  simp only [Bool.and_eq_true, Bool.not_eq_true', beq_iff_eq, List.isEmpty_iff] at hrun
  obtain ⟨⟨⟨hlive, hcount⟩, hload⟩, hpermits⟩ := hrun
  refine ⟨s, n, hs, hn, hlive, hcount, hload, hpermits, fun hconserves => ?_⟩
  have hzero := hconserves.inFlight
  rw [← n.length_load, hcount, hload] at hzero
  cases hzero

end System

end Scheduling
