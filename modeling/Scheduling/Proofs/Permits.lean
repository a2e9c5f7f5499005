import Scheduling.Proofs.Load
/-!
# Permits

A session makes its permits once. From then on each is free, held by the dispatch loop or held by a
worker, whatever happens to the session and its workers; so no session ever has more workers than
permits.
-/

namespace Scheduling

namespace Session

/-- The permits that the dispatch loop holds: one while it waits for a plan. -/
def heldPermits (n : Session) : Nat := if n.dispatch = .receiving then 1 else 0

/-- The permits of a session with room for `max` plans are accounted for. -/
structure Accounts (max : Nat) (n : Session) : Prop where
  opening : n.dispatch = .opening → n.permits = 0 ∧ n.workers = []
  crashed : n.dispatch = .crashed →
    Scheduler.permitLimit < max ∧ n.permits = 0 ∧ n.workers = []
  opened : n.dispatch ≠ .opening → n.dispatch ≠ .crashed →
    max ≤ Scheduler.permitLimit ∧ n.permits + n.heldPermits + n.workers.length = max

namespace Accounts

variable {max : Nat} {n n' : Session}

theorem workers_length_le (h : n.Accounts max) : n.workers.length ≤ max := by
  by_cases hopening : n.dispatch = .opening
  · simp [(h.opening hopening).2]
  · by_cases hcrashed : n.dispatch = .crashed
    · simp [(h.crashed hcrashed).2.2]
    · have hsum := (h.opened hopening hcrashed).2
      omega

/-- While there is a worker, the permits have been made. -/
theorem opened_of_mem {w : Worker} (h : n.Accounts max) (hw : w ∈ n.workers) :
    max ≤ Scheduler.permitLimit ∧ n.permits + n.heldPermits + n.workers.length = max := by
  refine h.opened (fun hopening => ?_) fun hcrashed => ?_
  · rw [(h.opening hopening).2] at hw
    cases hw
  · rw [(h.crashed hcrashed).2.2] at hw
    cases hw

/-- A loop that goes from one point to another after the permits were made keeps account of them. -/
theorem of_opened (hopening : n.dispatch ≠ .opening) (hcrashed : n.dispatch ≠ .crashed)
    (hmax : max ≤ Scheduler.permitLimit)
    (hsum : n.permits + n.heldPermits + n.workers.length = max) : n.Accounts max :=
  ⟨fun h => absurd h hopening, fun h => absurd h hcrashed, fun _ _ => ⟨hmax, hsum⟩⟩

/-- The permit of a worker that leaves is free again. -/
theorem of_leave {w : Worker} {inFlight : Nat} (h : n.Accounts max) (hnodup : n.executors.Nodup)
    (hw : w ∈ n.workers) :
    Accounts max
      { n with
        workers := n.workers.filter (·.executor ≠ w.executor)
        permits := n.permits + 1
        inFlight := inFlight } := by
  obtain ⟨hmax, hsum⟩ := h.opened_of_mem hw
  have hlength := (Worker.perm_cons_filter hw hnodup).length_eq
  rw [List.length_cons] at hlength
  refine ⟨fun hopening => ?_, fun hcrashed => ?_, fun _ _ => ⟨hmax, ?_⟩⟩
  · rw [(h.opening hopening).2] at hw
    cases hw
  · rw [(h.crashed hcrashed).2.2] at hw
    cases hw
  · have hheld : ({ n with
        workers := n.workers.filter (·.executor ≠ w.executor)
        permits := n.permits + 1
        inFlight := inFlight } : Session).heldPermits = n.heldPermits := rfl
    rw [hheld]
    dsimp only
    omega

theorem change {y z : System} {a : Step} {i : SchedulerId} {j : SessionId} {s : Scheduler}
    {x : Scheduler.Stores} (h : n.Accounts s.maxConcurrency)
    (hnodup : n.executors.Nodup) (hchange : n.Change y z a i j s x n') :
    n'.Accounts s.maxConcurrency := by
  have hopened {point : DispatchPoint} (hpoint : n.dispatch = point)
      (hopening : point ≠ .opening) (hcrashed : point ≠ .crashed) :=
    h.opened (hpoint ▸ hopening) (hpoint ▸ hcrashed)
  cases hchange with
  | openSlots hdispatch hmax =>
      obtain ⟨-, hworkers⟩ := h.opening hdispatch
      exact .of_opened (by simp) (by simp) hmax (by simp [heldPermits, hworkers])
  | crash hdispatch hmax =>
      exact ⟨nofun, fun _ => ⟨hmax, h.opening hdispatch⟩,
        fun _ hcrashed => absurd rfl hcrashed⟩
  | acquire hdispatch hpos =>
      obtain ⟨hmax, hsum⟩ := hopened hdispatch (by simp) (by simp)
      simp only [heldPermits, hdispatch] at hsum
      refine .of_opened (by simp) (by simp) hmax ?_
      simp [heldPermits] at hsum ⊢
      omega
  | stopAcquiring hdispatch =>
      obtain ⟨hmax, hsum⟩ := hopened hdispatch (by simp) (by simp)
      refine .of_opened (by simp) (by simp) hmax ?_
      simpa [heldPermits, hdispatch] using hsum
  | stopReceiving hdispatch =>
      obtain ⟨hmax, hsum⟩ := hopened hdispatch (by simp) (by simp)
      refine .of_opened (by simp) (by simp) hmax ?_
      simpa [heldPermits, hdispatch] using hsum
  | skip hdispatch =>
      obtain ⟨hmax, hsum⟩ := hopened hdispatch (by simp) (by simp)
      refine .of_opened (by simp) (by simp) hmax ?_
      simpa [heldPermits, hdispatch] using hsum
  | enter hdispatch =>
      obtain ⟨hmax, hsum⟩ := hopened hdispatch (by simp) (by simp)
      refine .of_opened (by simp) (by simp) hmax ?_
      simp [heldPermits, hdispatch] at hsum ⊢
      omega
  | work hw =>
      obtain ⟨hmax, hsum⟩ := h.opened_of_mem hw
      refine ⟨fun hopening => ?_, fun hcrashed => ?_, fun _ _ => ⟨hmax, ?_⟩⟩
      · rw [(h.opening hopening).2] at hw
        cases hw
      · rw [(h.crashed hcrashed).2.2] at hw
        cases hw
      · simpa [heldPermits] using hsum
  | endWorker hw => exact h.of_leave hnodup hw
  | crashWorker hw => exact h.of_leave hnodup hw
  | _ => exact ⟨h.opening, h.crashed, h.opened⟩

end Accounts

theorem accounts_create (max : Nat) (c : ContextId) :
    (Scheduler.Session.create c).Accounts max :=
  ⟨fun _ => ⟨rfl, rfl⟩, nofun, fun h => absurd rfl h⟩

end Session

theorem System.ReachableBy.accounts {allowed : System → Step → Bool} {y : System}
    {i : SchedulerId} {j : SessionId} {s : Scheduler} {n : Session} (h : y.ReachableBy allowed)
    (hs : y.schedulers[i]? = some s) (hn : s.sessions[j]? = some n) :
    n.Accounts s.maxConcurrency := by
  induction h generalizing s n with
  | create origin => simp [System.create] at hs
  | step h _ hz ih =>
      obtain ⟨s₀, n₀, hs₀, hn₀, hset, x, hchange⟩ | rfl := System.session_of_step hz hs hn
      · rw [hset.maxConcurrency]
        exact (ih hs₀ hn₀).change (h.numbered.nodup hs₀ hn₀) hchange
      · exact Session.accounts_create _ _

end Scheduling
