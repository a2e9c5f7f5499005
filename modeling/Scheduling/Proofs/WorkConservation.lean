import Scheduling.Proofs.Permits
import Scheduling.Proofs.Settling
/-!
# Work conservation

When nobody can move and a plan is queued or in the channel of a session that was not asked to stop,
there is a reason for it to wait: all permits are taken by unfinished plans, or an exclusive plan is
held back or has not ended, with something in flight.
-/

namespace Scheduling

/-- The fetch loop stands at a barrier: it holds an exclusive plan back, or waits until the one it
sent has ended. -/
def FetchPoint.AtBarrier : FetchPoint → Prop
  | holding p => p.exclusive = true
  | draining => True
  | _ => False

namespace System

variable {y : System} {i : SchedulerId} {j : SessionId} {s : Scheduler} {n : Session}

theorem Settled.fetchRests (h : y.Settled) (hs : y.schedulers[i]? = some s)
    (hn : s.sessions[j]? = some n) : s.FetchRests n := by
  have hmoves : y.fetchMoves i j = [] := h (.fetch i j)
  simp only [fetchMoves, hs, List.map_eq_nil_iff] at hmoves
  exact Scheduler.fetchRests_of_eq_nil hn hmoves

theorem Settled.dispatchRests (h : y.Settled) (hs : y.schedulers[i]? = some s)
    (hn : s.sessions[j]? = some n) : Scheduler.DispatchRests n := by
  have hmoves : y.dispatchMoves i j = [] := h (.dispatch i j)
  simp only [dispatchMoves, hs, List.map_eq_nil_iff] at hmoves
  exact Scheduler.dispatchRests_of_eq_nil hn hmoves

/-- A session whose loops are both over is closed before the system settles. -/
theorem Settled.closed (h : y.Settled) (hs : y.schedulers[i]? = some s)
    (hn : s.sessions[j]? = some n) (hfetch : n.fetch = .ended)
    (hover : n.dispatch.isOver = true) : n.closed = true := by
  cases hopen : n.closed with
  | true => rfl
  | false =>
      have hmoves : y.closeMoves i j = [] := h (.supervisor i j)
      have hclose := Scheduler.close?_eq_some_iff.2 ⟨n, hn, hfetch, hover, hopen, rfl⟩
      simp [closeMoves, hs, hclose] at hmoves

/-- A fetch loop that rests stands at a barrier with something in flight, has a plan to send and no
room for it, or finds nothing queued. -/
theorem fetch_of_settled (hy : y.Reachable) (h : y.Settled) (hs : y.schedulers[i]? = some s)
    (hn : s.sessions[j]? = some n) (hopen : n.closed = false)
    (hlive : y.contexts.isDone n.shutdown = false) :
    n.fetch.AtBarrier ∧ n.inFlight ≠ 0 ∨ n.dispatch.isOver = false ∧ n.slot ≠ none ∨
      n.fetch ≠ .ended ∧ s.pending = 0 := by
  cases h.fetchRests hs hn with
  | waiting hfetch =>
      have hempty := (hy.waiting hs hn hfetch).2 rfl
      refine .inr (.inr ⟨by simp [hfetch], ?_⟩)
      rw [Scheduler.pending, Queue.size, Registry.eq_empty_iff.2 hempty]
      rfl
  | holding hfetch hcount =>
      refine .inl ⟨?_, hcount⟩
      rw [hfetch]
      exact (hy.proper hs hn).holding _ hfetch
  | sending _ hover hslot => exact .inr (.inl ⟨hover, hslot⟩)
  | draining hfetch hcount =>
      refine .inl ⟨?_, hcount⟩
      rw [hfetch]
      trivial
  | ended hfetch =>
      have hcrashed := (hy.live hs hn hlive).fetch hfetch
      have hclosed := h.closed hs hn hfetch (by rw [hcrashed]; rfl)
      rw [hopen] at hclosed
      cases hclosed

/-- No plan waits beside a free permit: in a settled system, as long as a session was not asked to
stop and a plan is queued or in its channel, either as many plans are unfinished as may be, or the
fetch loop is at a barrier for an exclusive plan while something is in flight. -/
theorem work_conserved (hy : y.Reachable) (h : y.Settled) (hs : y.schedulers[i]? = some s)
    (hn : s.sessions[j]? = some n) (hopen : n.closed = false)
    (hlive : y.contexts.isDone n.shutdown = false) (hwaiting : s.pending ≠ 0 ∨ n.slot ≠ none) :
    n.workers.length = s.maxConcurrency ∨ n.fetch.AtBarrier ∧ n.inFlight ≠ 0 := by
  have hfetch := fetch_of_settled hy h hs hn hopen hlive
  cases h.dispatchRests hs hn with
  | acquiring hdispatch hpermits =>
      have hsum := ((hy.accounts hs hn).opened (by simp [hdispatch]) (by simp [hdispatch])).2
      simp only [Session.heldPermits, hdispatch, hpermits] at hsum
      refine .inl ?_
      simpa using hsum
  | receiving _ hslot =>
      obtain hbarrier | ⟨-, hfull⟩ | ⟨-, hempty⟩ := hfetch
      · exact .inr hbarrier
      · exact absurd hslot hfull
      · exact absurd hwaiting (by simp [hslot, hempty])
  | finished hover =>
      have hslot := (hy.proper hs hn).slot hover
      obtain hbarrier | ⟨-, hfull⟩ | ⟨-, hempty⟩ := hfetch
      · exact .inr hbarrier
      · exact absurd hslot hfull
      · exact absurd hwaiting (by simp [hslot, hempty])

/-- With one permit a plan runs, one is in the channel, one is being sent and one is queued. -/
def busyRun : System :=
  after
    [.request .newContext, .request (.newTask "a" [] fun _ => [.awaitDone]),
      .request (.newTask "b" [] fun _ => []), .request (.newTask "c" [] fun _ => []),
      .request (.newTask "d" [] fun _ => []), .request (.newScheduler ⟨1, .localTime, {}⟩),
      .request (.addPlans 0
        [⟨0, "a", ⟨0⟩, 0, none, 0, false, none⟩, ⟨1, "b", ⟨0⟩, 0, none, 0, false, none⟩,
          ⟨2, "c", ⟨0⟩, 0, none, 0, false, none⟩, ⟨3, "d", ⟨0⟩, 0, none, 0, false, none⟩]),
      .request (.startScheduler 0 0), .move (.dispatch 0 0) 0, .move (.dispatch 0 0) 0,
      .move (.fetch 0 0) 0, .move (.fetch 0 0) 0, .move (.dispatch 0 0) 0,
      .move (.fetch 0 0) 0, .move (.fetch 0 0) 0, .move (.fetch 0 0) 0,
      .move (.worker 0 0 0) 0, .move (.run 0) 0, .move (.run 0) 0]

theorem work_conserved_busyRun :
    busyRun.Settled ∧ ∃ (s : Scheduler) (n : Session), busyRun.schedulers[0]? = some s ∧
      s.sessions[0]? = some n ∧ n.closed = false ∧
      busyRun.contexts.isDone n.shutdown = false ∧ s.pending ≠ 0 ∧
      (n.workers.length = s.maxConcurrency ∨ n.fetch.AtBarrier ∧ n.inFlight ≠ 0) := by
  have hreach : busyRun.Reachable := reachable_after _
  have hall : (busyRun.actors.all fun a => (busyRun.moves a).isEmpty) = true := by
    decide +kernel
  have hsettled : busyRun.Settled :=
    (settled_iff hreach).2 fun a ha => List.isEmpty_iff.1 (List.all_eq_true.1 hall a ha)
  have hrun : (busyRun.schedulers[0]?.any fun s => s.pending == 1 && s.sessions[0]?.any fun n =>
      !n.closed && !busyRun.contexts.isDone n.shutdown) = true := by decide +kernel
  obtain ⟨s, hs, hrun⟩ := (Option.any_eq_true _ _).1 hrun
  obtain ⟨hpending, hrun⟩ := Bool.and_eq_true_iff.1 hrun
  obtain ⟨n, hn, hrun⟩ := (Option.any_eq_true _ _).1 hrun
  simp only [Bool.and_eq_true, Bool.not_eq_true', beq_iff_eq] at hrun hpending
  obtain ⟨hopen, hlive⟩ := hrun
  have hwaiting : s.pending ≠ 0 := by omega
  exact ⟨hsettled, s, n, hs, hn, hopen, hlive, hwaiting,
    work_conserved hreach hsettled hs hn hopen hlive (.inl hwaiting)⟩

end System

end Scheduling
