import Scheduling.Proofs.Lifecycle
/-!
# Settled systems

A system is settled when nobody can move. As only the actors that a system lists may be able to
move, it is enough to look at those, so whether a system is settled can be computed.
-/

namespace Scheduling.System

theorem mem_flatten_mapIdx {α β : Type} {xs : Array α} {f : Nat → α → List β} {k : Nat} {x : α}
    {b : β} (hx : xs[k]? = some x) (hb : b ∈ f k x) : b ∈ (xs.toList.mapIdx f).flatten := by
  obtain ⟨hlt, rfl⟩ := Array.getElem?_eq_some_iff.1 hx
  exact List.mem_flatten.2 ⟨_, List.mem_mapIdx.2 ⟨k, hlt, rfl⟩, hb⟩

variable {y : System} {i : SchedulerId} {j : SessionId} {s : Scheduler} {n : Session} {a : Actor}

theorem mem_actors_of_mem_schedulerActors (hs : y.schedulers[i]? = some s)
    (ha : a ∈ schedulerActors i s) : a ∈ y.actors :=
  List.mem_append_right _ (mem_flatten_mapIdx hs ha)

theorem mem_actors_of_mem_sessionActors (hs : y.schedulers[i]? = some s)
    (hn : s.sessions[j]? = some n) (ha : a ∈ sessionActors i j n) : a ∈ y.actors :=
  mem_actors_of_mem_schedulerActors hs (List.mem_append_right _ (mem_flatten_mapIdx hn ha))

theorem mem_sessionActors_of_open (hopen : n.closed = false)
    (ha : a ∈ [.fetch i j, .dispatch i j, .supervisor i j]) : a ∈ sessionActors i j n := by
  unfold sessionActors
  rw [if_neg (by simp [hopen])]
  exact List.mem_append_left _ ha

/-- The loops of a closed session do not move. -/
theorem open_of_fetchMoves (hy : y.Reachable) (h : y.fetchMoves i j ≠ []) :
    ∃ (s : Scheduler) (n : Session), y.schedulers[i]? = some s ∧ s.sessions[j]? = some n ∧
      n.closed = false := by
  obtain ⟨z, hz⟩ := List.exists_mem_of_ne_nil _ h
  obtain ⟨s, s', hs, hs', -⟩ := of_mem_fetchMoves hz
  obtain ⟨n, hn, hmove⟩ := Scheduler.fetchMove_of_mem hs'
  refine ⟨s, n, hs, hn, Bool.eq_false_iff.2 fun hclosed => ?_⟩
  have hended := ((hy.proper hs hn).closed hclosed).1
  cases hmove with
  | stop _ hlive => exact hlive hended
  | wait hfetch | take hfetch | sendHeld hfetch | giveUp hfetch | put hfetch | resume hfetch =>
      rw [hended] at hfetch
      cases hfetch

theorem open_of_dispatchMoves (hy : y.Reachable) (h : y.dispatchMoves i j ≠ []) :
    ∃ (s : Scheduler) (n : Session), y.schedulers[i]? = some s ∧ s.sessions[j]? = some n ∧
      n.closed = false := by
  obtain ⟨z, hz⟩ := List.exists_mem_of_ne_nil _ h
  obtain ⟨s, hs, hmove⟩ := of_mem_dispatchMoves hz
  obtain ⟨⟨s', effect⟩, hs'⟩ : ∃ move, move ∈ s.dispatchMoves j (y.stopping s j) := by
    cases hmove with
    | move h | skip h | enter h | cancelAll h => exact ⟨_, h⟩
  obtain ⟨n, hn, hmove⟩ := Scheduler.dispatchMove_of_mem hs'
  refine ⟨s, n, hs, hn, Bool.eq_false_iff.2 fun hclosed => ?_⟩
  have hover := ((hy.proper hs hn).closed hclosed).2
  cases hmove with
  | openSlots hdispatch | crash hdispatch | acquire hdispatch | stopAcquiring hdispatch
  | stopReceiving hdispatch | receive hdispatch =>
      rw [hdispatch] at hover
      cases hover

theorem open_of_closeMoves (h : y.closeMoves i j ≠ []) :
    ∃ (s : Scheduler) (n : Session), y.schedulers[i]? = some s ∧ s.sessions[j]? = some n ∧
      n.closed = false := by
  obtain ⟨z, hz⟩ := List.exists_mem_of_ne_nil _ h
  obtain ⟨s, s', hs, hclose, -⟩ := of_mem_closeMoves hz
  obtain ⟨n, hn, -, -, hopen, -⟩ := Scheduler.close?_eq_some_iff.1 hclose
  exact ⟨s, n, hs, hn, hopen⟩

/-- Only the actors that are listed can move. -/
theorem mem_actors_of_moves (hy : y.Reachable) (h : y.moves a ≠ []) : a ∈ y.actors := by
  obtain ⟨z, hz⟩ := List.exists_mem_of_ne_nil _ h
  cases a with
  | deadline c =>
      obtain ⟨hdue, -⟩ := of_mem_guarded hz
      obtain ⟨hmem, -⟩ := Bool.and_eq_true_iff.1 hdue
      simp only [actors, List.mem_append, List.mem_map]
      exact .inl (.inl (.inl (.inl ⟨c, by simpa using hmem, rfl⟩)))
  | run r =>
      have hrun : y.runs.contains r = true := by
        simp only [moves, runMoves] at hz
        split at hz
        · cases hz
        · rename_i run hrun
          simp [Registry.contains, hrun]
      simp only [actors, List.mem_append, List.mem_map]
      exact .inl (.inl (.inl (.inr ⟨r, Registry.contains_iff_mem_keys.1 hrun, rfl⟩)))
  | call k =>
      obtain ⟨call, _, _, hcall, -⟩ := callMove_of_mem hz
      obtain ⟨hlt, -⟩ := Array.getElem?_eq_some_iff.1 hcall
      simp only [actors, List.mem_append, List.mem_map]
      exact .inl (.inl (.inr ⟨k, List.mem_range.2 hlt, rfl⟩))
  | tableTimer i timer =>
      simp only [moves, tableTimerMoves] at hz
      split at hz
      · cases hz
      · rename_i hadvance
        obtain ⟨t, ht, hadvance⟩ := Option.bind_eq_some_iff.1 hadvance
        have htimer := Cron.Table.contains_of_advance hadvance
        refine List.mem_append_left _ (List.mem_append_right _ (mem_flatten_mapIdx ht ?_))
        exact List.mem_map_of_mem (Registry.contains_iff_mem_keys.1 htimer)
  | planTimer i timer =>
      obtain ⟨s, s', hs, hadvance, -⟩ := of_mem_planTimerMoves hz
      obtain ⟨_, _, hcron, -⟩ := Scheduler.advanceTimer_cases hadvance
      have htimer := Cron.Table.contains_of_advance hcron
      refine mem_actors_of_mem_schedulerActors hs (List.mem_append_left _ ?_)
      exact List.mem_map_of_mem (Registry.contains_iff_mem_keys.1 htimer)
  | fetch i j =>
      obtain ⟨s, n, hs, hn, hopen⟩ := open_of_fetchMoves hy h
      exact mem_actors_of_mem_sessionActors hs hn (mem_sessionActors_of_open hopen (by simp))
  | dispatch i j =>
      obtain ⟨s, n, hs, hn, hopen⟩ := open_of_dispatchMoves hy h
      exact mem_actors_of_mem_sessionActors hs hn (mem_sessionActors_of_open hopen (by simp))
  | supervisor i j =>
      obtain ⟨s, n, hs, hn, hopen⟩ := open_of_closeMoves h
      exact mem_actors_of_mem_sessionActors hs hn (mem_sessionActors_of_open hopen (by simp))
  | worker i j e =>
      obtain ⟨choice, hchoice⟩ := List.mem_iff_getElem?.1 hz
      obtain ⟨s, w, _, _, hs, hworker, -, -⟩ := workerMove_of_getElem? hchoice
      obtain rfl := Scheduler.executor_of_worker? hworker
      obtain ⟨n, hn, hw⟩ := Scheduler.mem_of_worker? hworker
      refine mem_actors_of_mem_sessionActors hs hn (List.mem_append_right _ ?_)
      exact List.mem_map_of_mem hw

/-- A system is settled when none of the actors that it lists can move. -/
theorem settled_iff (hy : y.Reachable) : y.Settled ↔ ∀ a ∈ y.actors, y.moves a = [] := by
  refine ⟨fun h a _ => h a, fun h a => ?_⟩
  by_cases hmoves : y.moves a = []
  · exact hmoves
  · exact h a (mem_actors_of_moves hy hmoves)

end Scheduling.System
