import Scheduling.Proofs.Queues
import Scheduling.Proofs.Work
/-!
# Moves of the loops

What the loops of a session may do, one constructor for each kind of move, and what is known of a
loop that cannot move at all.
-/

namespace Scheduling.Scheduler

variable {s s' : Scheduler} {j : SessionId} {n : Session} {stopping : Bool}
  {order : Plan → Plan → Ordering}

/-! ## The fetch loop -/

/-- A move of the fetch loop of the session `j`, which is `n`. -/
inductive FetchMove (s : Scheduler) (j : SessionId) (n : Session) (stopping : Bool)
    (order : Plan → Plan → Ordering) : Scheduler → Prop
  /-- It ends, as it is asked to or because a pop has failed. -/
  | stop (hfetch : ∀ p, n.fetch ≠ .sending p) (hended : n.fetch ≠ .ended)
      (h : stopping = true ∨ s.queue.blocking = false) :
      FetchMove s j n stopping order (s.endFetch j)
  | wait {point : PopPoint} (hfetch : n.fetch = .popping point)
      (htake : s.queue.takeFirst order = none) :
      FetchMove s j n stopping order (s.fetchAt j (.popping (.waiting s.queue.wakeups)))
  | take {point : PopPoint} {p : Plan} {queue : Queue Plan} (hfetch : n.fetch = .popping point)
      (htake : s.queue.takeFirst order = some (p, queue)) :
      FetchMove s j n stopping order ({ s with queue := queue }.fetched j p)
  | sendHeld {p : Plan} (hfetch : n.fetch = .holding p) (h0 : n.inFlight = 0) :
      FetchMove s j n stopping order ((s.countUp j).fetchAt j (.sending p))
  /-- It ends with a plan that was not sent. -/
  | giveUp {p : Plan} (hfetch : n.fetch = .sending p)
      (h : stopping = true ∨ n.dispatch.isOver = true) :
      FetchMove s j n stopping order ((s.countDown j).endFetch j)
  | put {p : Plan} (hfetch : n.fetch = .sending p) (hslot : n.slot = none)
      (hover : n.dispatch.isOver = false) :
      FetchMove s j n stopping order
        ((s.modifySession j fun n => { n with slot := some p }).fetchAt j (afterSending p))
  | resume (hfetch : n.fetch = .draining) (h0 : n.inFlight = 0) :
      FetchMove s j n stopping order (s.fetchAt j (.popping .fresh))

theorem fetchMove_of_mem (h : s' ∈ s.fetchMoves j stopping order) :
    ∃ n : Session, s.sessions[j]? = some n ∧ s.FetchMove j n stopping order s' := by
  unfold fetchMoves at h
  split at h
  · simp at h
  · rename_i n hn
    refine ⟨n, hn, ?_⟩
    split at h
    · rename_i point hfetch
      rcases List.mem_append.1 h with h | h
      · obtain ⟨hstop, rfl⟩ := of_mem_guarded h
        exact .stop (by simp [hfetch]) (by simp [hfetch]) (.inl hstop)
      · cases hpop : s.queue.pop order point with
        | none => simp [hpop] at h
        | some made =>
            obtain ⟨result, queue⟩ := made
            rw [hpop] at h
            cases Queue.popMove_of_pop hpop with
            | takes htake =>
                obtain rfl := List.mem_singleton.1 h
                exact .take hfetch htake
            | waits htake =>
                obtain rfl := List.mem_singleton.1 h
                exact .wait hfetch htake
            | fails htake hblocking =>
                obtain rfl := List.mem_singleton.1 h
                exact .stop (by simp [hfetch]) (by simp [hfetch]) (.inr hblocking)
    · rename_i p hfetch
      rcases List.mem_append.1 h with h | h
      · obtain ⟨hstop, rfl⟩ := of_mem_guarded h
        exact .stop (by simp [hfetch]) (by simp [hfetch]) (.inl hstop)
      · obtain ⟨h0, rfl⟩ := of_mem_guarded h
        exact .sendHeld hfetch h0
    · rename_i p hfetch
      rcases List.mem_append.1 h with h | h
      · obtain ⟨hstop, rfl⟩ := of_mem_guarded h
        exact .giveUp hfetch (.inl hstop)
      · split at h
        · rename_i hover
          obtain rfl := List.mem_singleton.1 h
          exact .giveUp hfetch (.inr hover)
        · rename_i hover
          obtain ⟨hslot, rfl⟩ := of_mem_guarded h
          exact .put hfetch (by simpa using hslot) (by simpa using hover)
    · rename_i hfetch
      rcases List.mem_append.1 h with h | h
      · obtain ⟨hstop, rfl⟩ := of_mem_guarded h
        exact .stop (by simp [hfetch]) (by simp [hfetch]) (.inl hstop)
      · obtain ⟨h0, rfl⟩ := of_mem_guarded h
        exact .resume hfetch h0
    · simp at h

/-- Where a fetch loop stands that cannot move: its queue has not changed since it found nothing,
what it waits for has not happened, or it has ended. -/
inductive FetchRests (s : Scheduler) (n : Session) : Prop
  | waiting (hfetch : n.fetch = .popping (.waiting s.queue.wakeups))
  | holding {p : Plan} (hfetch : n.fetch = .holding p) (h : n.inFlight ≠ 0)
  | sending {p : Plan} (hfetch : n.fetch = .sending p) (hover : n.dispatch.isOver = false)
      (hslot : n.slot ≠ none)
  | draining (hfetch : n.fetch = .draining) (h : n.inFlight ≠ 0)
  | ended (hfetch : n.fetch = .ended)

theorem fetchRests_of_eq_nil (hn : s.sessions[j]? = some n)
    (h : s.fetchMoves j stopping order = []) : s.FetchRests n := by
  unfold fetchMoves at h
  rw [hn] at h
  dsimp only at h
  split at h
  · rename_i point hfetch
    obtain ⟨-, h⟩ := List.append_eq_nil_iff.1 h
    cases hpop : s.queue.pop order point with
    | none => exact .waiting (Queue.eq_waiting_of_pop_eq_none hpop ▸ hfetch)
    | some made =>
        obtain ⟨result, queue⟩ := made
        rw [hpop] at h
        cases Queue.popMove_of_pop hpop with
        | takes => cases h
        | waits => cases h
        | fails => cases h
  · rename_i p hfetch
    obtain ⟨-, h⟩ := List.append_eq_nil_iff.1 h
    exact .holding hfetch (by simpa using h)
  · rename_i p hfetch
    obtain ⟨-, h⟩ := List.append_eq_nil_iff.1 h
    split at h
    · cases h
    · rename_i hover
      exact .sending hfetch (by simpa using hover) (by simpa using h)
  · rename_i hfetch
    obtain ⟨-, h⟩ := List.append_eq_nil_iff.1 h
    exact .draining hfetch (by simpa using h)
  · rename_i hfetch
    exact .ended hfetch

/-! ## The dispatch loop -/

/-- A move of the dispatch loop of the session `j`, which is `n`, with what it asks for. -/
inductive DispatchMove (s : Scheduler) (j : SessionId) (n : Session) (stopping : Bool) :
    Scheduler → DispatchEffect → Prop
  | openSlots (hdispatch : n.dispatch = .opening) (hmax : s.maxConcurrency ≤ permitLimit) :
      DispatchMove s j n stopping
        ((s.modifySession j fun n => { n with permits := s.maxConcurrency }).dispatchAt j
          .acquiring) .none
  | crash (hdispatch : n.dispatch = .opening) (hmax : permitLimit < s.maxConcurrency) :
      DispatchMove s j n stopping
        ((s.modifySession j fun n => { n with slot := none }).dispatchAt j .crashed) .none
  | acquire (hdispatch : n.dispatch = .acquiring) (hpos : 0 < n.permits) :
      DispatchMove s j n stopping
        ((s.modifySession j fun n => { n with permits := n.permits - 1 }).dispatchAt j
          .receiving) .none
  | stopAcquiring (hdispatch : n.dispatch = .acquiring) (h : stopping = true) :
      DispatchMove s j n stopping (s.endDispatch j) .cancelAll
  | stopReceiving (hdispatch : n.dispatch = .receiving)
      (h : stopping = true ∨ n.slot = none ∧ n.fetch = .ended) :
      DispatchMove s j n stopping ((s.release j).endDispatch j) .cancelAll
  | receive {p : Plan} (hdispatch : n.dispatch = .receiving) (hslot : n.slot = some p) :
      DispatchMove s j n stopping
        ((s.modifySession j fun n => { n with slot := none }).dispatchAt j .acquiring)
        (.accept p)

theorem dispatchMove_of_mem {effect : DispatchEffect}
    (h : (s', effect) ∈ s.dispatchMoves j stopping) :
    ∃ n : Session, s.sessions[j]? = some n ∧ s.DispatchMove j n stopping s' effect := by
  unfold dispatchMoves at h
  split at h
  · simp at h
  · rename_i n hn
    refine ⟨n, hn, ?_⟩
    split at h
    · rename_i hopening
      split at h
      · rename_i hmax
        cases List.mem_singleton.1 h
        exact .openSlots hopening hmax
      · rename_i hmax
        cases List.mem_singleton.1 h
        exact .crash hopening (by omega)
    · rename_i hacquiring
      rcases List.mem_append.1 h with h | h
      · obtain ⟨hstop, h⟩ := of_mem_guarded h
        cases h
        exact .stopAcquiring hacquiring hstop
      · obtain ⟨hpos, h⟩ := of_mem_guarded h
        cases h
        exact .acquire hacquiring hpos
    · rename_i hreceiving
      rcases List.mem_append.1 h with h | h
      · obtain ⟨hstop, h⟩ := of_mem_guarded h
        cases h
        exact .stopReceiving hreceiving (.inl hstop)
      · split at h
        · rename_i hslot
          cases List.mem_singleton.1 h
          exact .receive hreceiving hslot
        · rename_i hslot hfetch
          cases List.mem_singleton.1 h
          exact .stopReceiving hreceiving (.inr ⟨hslot, hfetch⟩)
        · simp at h
    · simp at h
    · simp at h

/-- Where a dispatch loop stands that cannot move: there is no permit or no plan for it, or it is
over. -/
inductive DispatchRests (n : Session) : Prop
  | acquiring (hdispatch : n.dispatch = .acquiring) (h : n.permits = 0)
  | receiving (hdispatch : n.dispatch = .receiving) (hslot : n.slot = none)
      (hfetch : n.fetch ≠ .ended)
  | finished (hover : n.dispatch.isOver = true)

theorem dispatchRests_of_eq_nil (hn : s.sessions[j]? = some n)
    (h : s.dispatchMoves j stopping = []) : DispatchRests n := by
  unfold dispatchMoves at h
  rw [hn] at h
  dsimp only at h
  split at h
  · split at h <;> cases h
  · rename_i hacquiring
    obtain ⟨-, h⟩ := List.append_eq_nil_iff.1 h
    exact .acquiring hacquiring (by simpa using h)
  · rename_i hreceiving
    obtain ⟨-, h⟩ := List.append_eq_nil_iff.1 h
    split at h
    · cases h
    · cases h
    · rename_i hslot hfetch
      exact .receiving hreceiving hslot hfetch
  · rename_i hended
    exact .finished (by rw [hended]; rfl)
  · rename_i hcrashed
    exact .finished (by rw [hcrashed]; rfl)

/-! ## The end of a session -/

theorem close?_eq_some_iff :
    s.close? j = some s' ↔ ∃ n : Session, s.sessions[j]? = some n ∧ n.fetch = .ended ∧
      n.dispatch.isOver = true ∧ n.closed = false ∧
      { s with shutdown := none, running := false }.modifySession j
        (fun n => { n with closed := true }) = s' := by
  unfold close?
  cases s.sessions[j]? with
  | none => simp
  | some n =>
      cases hfetch : n.fetch with
      | ended => simp [hfetch, and_assoc]
      | _ => simp [hfetch]

end Scheduling.Scheduler
