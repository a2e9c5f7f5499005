import Scheduling.Proofs.Workers
/-!
# The load of a session

The plans that the fetch loop has handed over and that have not ended: one may be on its way into
the channel, one in it, the others run in workers. Each change of a session either keeps the count
of plans in flight in step with them, or loses a plan without counting it down.
-/

namespace Scheduling

namespace Session

/-- The plan that the fetch loop is sending. -/
def sending (n : Session) : List Plan :=
  match n.fetch with
  | .sending p => [p]
  | _ => []

/-- The plans that are being sent, in the channel or running. -/
def load (n : Session) : List Plan :=
  n.sending ++ n.slot.toList ++ n.workers.map (·.plan)

/-- How the count of plans in flight follows the load; `cause` is why a plan may be lost. -/
inductive Tally (cause : Prop) (n n' : Session) : Prop
  | same (hload : n'.load.Perm n.load) (hcount : n'.inFlight = n.inFlight)
  | up {p : Plan} (hload : n'.load.Perm (p :: n.load)) (hcount : n'.inFlight = n.inFlight + 1)
  | down {p : Plan} (hload : n.load.Perm (p :: n'.load)) (hcount : n'.inFlight = n.inFlight - 1)
  | lost (hcause : cause) (hload : n'.load.Sublist n.load) (hcount : n'.inFlight = n.inFlight)

/-- A plan may be lost when the session has to stop, when its permits cannot be made, and when a
worker panics. -/
def Loses (y : System) (a : Step) (i : SchedulerId) (j : SessionId) (n n' : Session) : Prop :=
  y.contexts.isDone n.shutdown = true ∨ n'.dispatch = .crashed ∨ y.crashesWorker i j a = true

end Session

/-- A worker that leaves takes its plan, and no other, with it. -/
theorem Worker.perm_cons_filter {workers : List Worker} {w : Worker} (hw : w ∈ workers)
    (hnodup : (workers.map (·.executor)).Nodup) :
    workers.Perm (w :: workers.filter (·.executor ≠ w.executor)) := by
  induction workers with
  | nil => simp at hw
  | cons v workers ih =>
      obtain ⟨hv, hnodup⟩ := List.nodup_cons.1 hnodup
      have hne {u : Worker} (hu : u ∈ workers) : u.executor ≠ v.executor := fun heq =>
        hv (List.mem_map.2 ⟨u, hu, heq⟩)
      obtain rfl | hw := List.mem_cons.1 hw
      · have hall : workers.filter (·.executor ≠ w.executor) = workers :=
          List.filter_eq_self.2 fun u hu => decide_eq_true (hne hu)
        rw [List.filter_cons_of_neg (by simp), hall]
      · rw [List.filter_cons_of_pos (by simpa using (hne hw).symm)]
        exact ((ih hw hnodup).cons v).trans (.swap w v _)

theorem Session.Change.tally {y z : System} {a : Step} {i : SchedulerId} {j : SessionId}
    {s : Scheduler} {n n' : Session} {x : Scheduler.Stores}
    (hnodup : n.executors.Nodup) (h : n.Change y z a i j s x n') :
    n.Tally (n.Loses y a i j n') n' := by
  cases h with
  | @send _ p _ hfetch | @sendHeld p hfetch =>
      refine .up (p := p) (.of_eq ?_) rfl
      simp [Session.load, Session.sending, hfetch]
  | @giveUp p hfetch =>
      refine .down (p := p) (.of_eq ?_) rfl
      simp [Session.load, Session.sending, hfetch]
  | @put p hfetch hslot =>
      refine .same (.of_eq ?_) rfl
      cases hp : p.exclusive <;>
        simp [Session.load, Session.sending, Scheduler.afterSending, hfetch, hslot, hp]
  | crash =>
      refine .lost (.inr (.inl rfl)) ?_ rfl
      exact ((List.Sublist.refl _).append (List.nil_sublist _)).append (.refl _)
  | stopAcquiring _ hstop =>
      refine .lost (.inl hstop) ?_ rfl
      exact ((List.Sublist.refl _).append (List.nil_sublist _)).append (.refl _)
  | stopReceiving _ hstop =>
      obtain hstop | ⟨hslot, -⟩ := hstop
      · refine .lost (.inl hstop) ?_ rfl
        exact ((List.Sublist.refl _).append (List.nil_sublist _)).append (.refl _)
      · refine .same (.of_eq ?_) rfl
        simp only [Session.load, Session.sending, hslot]
  | @skip p _ _ hslot =>
      refine .down (p := p) ?_ rfl
      simp only [Session.load, Session.sending, hslot, Option.toList, List.append_assoc,
        List.nil_append, List.singleton_append]
      exact List.perm_middle
  | @enter p _ _ hslot =>
      refine .same ?_ rfl
      simp only [Session.load, Session.sending, hslot, Option.toList, List.append_assoc,
        List.nil_append, List.singleton_append, List.map_append, List.map_cons, List.map_nil]
      exact (List.perm_append_singleton p _).append_left _
  | @work w point =>
      refine .same (.of_eq ?_) rfl
      simp only [Session.load, Session.sending]
      rw [Worker.map_at (·.plan) fun _ _ => rfl]
  | @endWorker w _ hw =>
      have hplans := (Worker.perm_cons_filter hw hnodup).map (·.plan)
      exact .down (p := w.plan) ((hplans.append_left _).trans List.perm_middle) rfl
  | crashWorker hw hcrash =>
      refine .lost (.inr (.inr hcrash)) ?_ rfl
      exact (List.Sublist.refl _).append (List.filter_sublist.map _)
  | endFetch hfetch =>
      refine .same (.of_eq ?_) rfl
      cases hpoint : n.fetch with
      | sending p => exact absurd hpoint (hfetch p)
      | _ => simp [Session.load, Session.sending, hpoint]
  | wait hfetch | hold hfetch | resume hfetch =>
      refine .same (.of_eq ?_) rfl
      simp [Session.load, Session.sending, hfetch]
  | _ => exact .same (.refl _) rfl

namespace Session.Tally

variable {cause : Prop} {n n' : Session}

/-- Unless one more plan is counted, the load is part of what it was. -/
theorem fewer (h : n.Tally cause n') (hcount : n'.inFlight ≤ n.inFlight) :
    (∀ p ∈ n'.load, p ∈ n.load) ∧ n'.load.length ≤ n.load.length := by
  cases h with
  | same hload => exact ⟨fun _ hp => hload.subset hp, Nat.le_of_eq hload.length_eq⟩
  | up _ hup => omega
  | down hload =>
      refine ⟨fun _ hp => hload.symm.subset (List.mem_cons_of_mem _ hp), ?_⟩
      rw [hload.length_eq]
      exact Nat.le_succ _
  | lost _ hload => exact ⟨fun _ hp => hload.subset hp, hload.length_le⟩

theorem length_le (h : n.Tally cause n') (hle : n.load.length ≤ n.inFlight) :
    n'.load.length ≤ n'.inFlight := by
  cases h with
  | same hload hcount =>
      have hlength := hload.length_eq
      omega
  | up hload hcount =>
      have hlength := hload.length_eq
      simp only [List.length_cons] at hlength
      omega
  | down hload hcount =>
      have hlength := hload.length_eq
      simp only [List.length_cons] at hlength
      omega
  | lost _ hload hcount =>
      have hlength := hload.length_le
      omega

end Session.Tally

/-- Each plan of the load is counted as in flight. -/
theorem System.ReachableBy.load_length_le {allowed : System → Step → Bool} {y : System}
    {i : SchedulerId} {j : SessionId} {s : Scheduler} {n : Session} (h : y.ReachableBy allowed)
    (hs : y.schedulers[i]? = some s) (hn : s.sessions[j]? = some n) :
    n.load.length ≤ n.inFlight := by
  induction h generalizing s n with
  | create origin => simp [System.create] at hs
  | step h _ hz ih =>
      obtain ⟨s₀, n₀, hs₀, hn₀, -, x, hchange⟩ | rfl := System.session_of_step hz hs hn
      · exact (hchange.tally (h.numbered.nodup hs₀ hn₀)).length_le (ih hs₀ hn₀)
      · exact Nat.le_refl 0

end Scheduling
