import Scheduling.Proofs.Load
/-!
# Exclusive plans run alone

The fetch loop sends an exclusive plan only when nothing is in flight, and takes the next plan only
when that one has ended. So at any time either no plan of the load is exclusive, or there is at
most one plan in it.
-/

namespace Scheduling

/-- Whether the fetch loop may send one more plan: it takes the next one or holds one back. -/
def FetchPoint.isOpen : FetchPoint → Bool
  | popping _ | holding _ => true
  | _ => false

namespace Session

/-- No plan of the load is exclusive. -/
def Shared (n : Session) : Prop := ∀ p ∈ n.load, p.exclusive = false

/-- An exclusive plan shares the load with no other, and while one more plan may be sent there is
none. -/
structure Unmixed (n : Session) : Prop where
  alone : n.Shared ∨ n.load.length ≤ 1
  shared : n.fetch.isOpen = true → n.Shared

theorem shared_of_load_eq_nil {n : Session} (h : n.load = []) : n.Shared := by
  intro p hp
  simp [h] at hp

theorem load_eq_nil_of_inFlight_eq_zero {n : Session} (hle : n.load.length ≤ n.inFlight)
    (h0 : n.inFlight = 0) : n.load = [] :=
  List.eq_nil_of_length_eq_zero (by omega)

theorem mem_load_of_sending {n : Session} {p : Plan} (h : n.fetch = .sending p) : p ∈ n.load := by
  simp [load, sending, h]

theorem mem_load_of_mem_workers {n : Session} {w : Worker} (h : w ∈ n.workers) :
    w.plan ∈ n.load :=
  List.mem_append_right _ (List.mem_map_of_mem h)

namespace Unmixed

variable {n n' : Session}

/-- A smaller load is unmixed if the fetch loop is open only where it was. -/
theorem of_fewer (h : n.Unmixed)
    (hfewer : (∀ p ∈ n'.load, p ∈ n.load) ∧ n'.load.length ≤ n.load.length)
    (hopen : n'.fetch.isOpen = true → n.fetch.isOpen = true) : n'.Unmixed where
  alone := by
    obtain hshared | hlength := h.alone
    · exact .inl fun p hp => hshared p (hfewer.1 p hp)
    · exact .inr (Nat.le_trans hfewer.2 hlength)
  shared hn' p hp := h.shared (hopen hn') p (hfewer.1 p hp)

/-- If the plan that is being sent is not exclusive, no plan of the load is. -/
theorem shared_of_sending {p : Plan} (h : n.Unmixed) (hfetch : n.fetch = .sending p)
    (hp : p.exclusive = false) : n.Shared := by
  obtain hshared | hlength := h.alone
  · exact hshared
  · intro q hq
    obtain ⟨r, hload⟩ := List.length_eq_one_iff.1
      (Nat.le_antisymm hlength (List.length_pos_of_mem hq))
    have hmem := mem_load_of_sending hfetch
    rw [hload, List.mem_singleton] at hmem hq
    rw [hq, ← hmem, hp]

theorem change {y z : System} {a : Step} {i : SchedulerId} {j : SessionId} {s : Scheduler}
    {x : Scheduler.Stores} (h : n.Unmixed) (hnodup : n.executors.Nodup)
    (hle : n.load.length ≤ n.inFlight) (hchange : n.Change y z a i j s x n') : n'.Unmixed := by
  have htally := hchange.tally hnodup
  cases hchange with
  | @send _ p _ hfetch _ hp =>
      have hload : ({ n with fetch := .sending p, inFlight := n.inFlight + 1 } : Session).load =
          p :: n.load := by simp [load, sending, hfetch]
      have hshared := h.shared (by simp [FetchPoint.isOpen, hfetch])
      refine ⟨.inl fun q hq => ?_, fun hopen => by cases hopen⟩
      rw [hload] at hq
      obtain rfl | hq := List.mem_cons.1 hq
      · exact hp
      · exact hshared q hq
  | @sendHeld p hfetch h0 =>
      have hnil := load_eq_nil_of_inFlight_eq_zero hle h0
      have hload : ({ n with fetch := .sending p, inFlight := n.inFlight + 1 } : Session).load =
          p :: n.load := by simp [load, sending, hfetch]
      refine ⟨.inr ?_, fun hopen => by cases hopen⟩
      simp [hload, hnil]
  | @put p hfetch _ _ =>
      have hfewer := htally.fewer (Nat.le_refl _)
      cases hp : p.exclusive with
      | true =>
          refine ⟨(h.of_fewer hfewer fun hopen => ?_).alone, fun hopen => ?_⟩ <;>
            simp [Scheduler.afterSending, hp, FetchPoint.isOpen] at hopen
      | false =>
          have hshared := h.shared_of_sending hfetch hp
          exact ⟨.inl fun q hq => hshared q (hfewer.1 q hq), fun _ q hq =>
            hshared q (hfewer.1 q hq)⟩
  | resume hfetch h0 =>
      have hnil := load_eq_nil_of_inFlight_eq_zero hle h0
      have hfewer := htally.fewer (Nat.le_refl _)
      have hshared := shared_of_load_eq_nil hnil
      exact ⟨.inl fun q hq => hshared q (hfewer.1 q hq), fun _ q hq =>
        hshared q (hfewer.1 q hq)⟩
  | wait hfetch | hold hfetch =>
      exact h.of_fewer (htally.fewer (Nat.le_refl _)) fun _ => by simp [FetchPoint.isOpen, hfetch]
  | endFetch => exact h.of_fewer (htally.fewer (Nat.le_refl _)) fun hopen => by cases hopen
  | giveUp => exact h.of_fewer (htally.fewer (Nat.sub_le _ _)) fun hopen => by cases hopen
  | skip | endWorker => exact h.of_fewer (htally.fewer (Nat.sub_le _ _)) id
  | _ => exact h.of_fewer (htally.fewer (Nat.le_refl _)) id

end Unmixed

theorem unmixed_create (c : ContextId) : (Scheduler.Session.create c).Unmixed :=
  ⟨.inr (Nat.zero_le 1), fun _ => shared_of_load_eq_nil rfl⟩

end Session

namespace System

theorem Reachable.unmixed {y : System} {i : SchedulerId} {j : SessionId} {s : Scheduler}
    {n : Session} (h : y.Reachable) (hs : y.schedulers[i]? = some s)
    (hn : s.sessions[j]? = some n) : n.Unmixed := by
  induction h generalizing s n with
  | create origin => simp [create] at hs
  | step h _ hz ih =>
      obtain ⟨s₀, n₀, hs₀, hn₀, -, x, hchange⟩ | rfl := session_of_step hz hs hn
      · exact (ih hs₀ hn₀).change (h.numbered.nodup hs₀ hn₀) (h.load_length_le hs₀ hn₀) hchange
      · exact Session.unmixed_create _

/-- Until the worker of an exclusive plan has ended, retries included, its session has no other
worker and nothing in its channel. -/
theorem exclusive_worker_alone {y : System} {i : SchedulerId} {j : SessionId} {s : Scheduler}
    {n : Session} {w : Worker} (h : y.Reachable) (hs : y.schedulers[i]? = some s)
    (hn : s.sessions[j]? = some n) (hw : w ∈ n.workers) (hx : w.plan.exclusive = true) :
    n.workers = [w] ∧ n.slot = none := by
  have hmem := Session.mem_load_of_mem_workers hw
  obtain hshared | hlength := (h.unmixed hs hn).alone
  · rw [hshared _ hmem] at hx
    cases hx
  · have hpos := List.length_pos_of_mem hw
    have hsum : n.load.length = n.sending.length + n.slot.toList.length + n.workers.length := by
      simp [Session.load, Nat.add_assoc]
    obtain ⟨v, hv⟩ := List.length_eq_one_iff.1 (show n.workers.length = 1 by omega)
    have hslot : n.slot.toList = [] := List.eq_nil_of_length_eq_zero (by omega)
    rw [hv, List.mem_singleton] at hw
    exact ⟨by rw [hv, hw], by simpa using hslot⟩

/-- An exclusive plan runs while another one is queued and two could run. -/
def exclusiveRun : System :=
  after
    [.request .newContext, .request (.newTask "a" [] fun _ => [.awaitDone]),
      .request (.newTask "b" [] fun _ => []), .request (.newScheduler ⟨2, .localTime, {}⟩),
      .request (.addPlans 0
        [⟨0, "a", ⟨0⟩, 0, none, 0, true, none⟩, ⟨1, "b", ⟨0⟩, 0, none, 0, false, none⟩]),
      .request (.startScheduler 0 0), .move (.fetch 0 0) 0, .move (.fetch 0 0) 0,
      .move (.fetch 0 0) 0, .move (.dispatch 0 0) 0, .move (.dispatch 0 0) 0,
      .move (.dispatch 0 0) 0, .move (.worker 0 0 0) 0, .move (.dispatch 0 0) 0]

theorem exclusive_worker_alone_exclusiveRun :
    ∃ (s : Scheduler) (n : Session) (w : Worker), exclusiveRun.schedulers[0]? = some s ∧
      s.sessions[0]? = some n ∧ w ∈ n.workers ∧ w.plan.exclusive = true ∧ s.pending = 1 ∧
      n.workers = [w] ∧ n.slot = none := by
  have hrun : (exclusiveRun.schedulers[0]?.any fun s =>
      s.pending == 1 && s.sessions[0]?.any fun n => n.workers.any fun w => w.plan.exclusive) =
      true := by decide +kernel
  obtain ⟨s, hs, hrun⟩ := (Option.any_eq_true _ _).1 hrun
  obtain ⟨hpending, hrun⟩ := Bool.and_eq_true_iff.1 hrun
  obtain ⟨n, hn, hrun⟩ := (Option.any_eq_true _ _).1 hrun
  obtain ⟨w, hw, hx⟩ := List.any_eq_true.1 hrun
  exact ⟨s, n, w, hs, hn, hw, hx, beq_iff_eq.1 hpending,
    exclusive_worker_alone (reachable_after _) hs hn hw hx⟩

end System

end Scheduling
