import Scheduling.Proofs.Permits
/-!
# How many plans execute at once

The keys of the executing plans belong to all sessions of a scheduler, the permits to one. So the
workers of each session number at most the permits, but the keys number as many as the workers of
all sessions together, with those that workers left behind by a panic.
-/

namespace Scheduling

/-- The keys of the plans that the workers of a session run. -/
def Session.keys (n : Session) : List String := n.workers.map Worker.key

/-- The executing keys follow those of the workers: a worker that panics leaves its key behind. -/
theorem Session.Change.keys {y z : System} {a : Step} {i : SchedulerId} {j : SessionId}
    {s : Scheduler} {n n' : Session} {x : Scheduler.Stores}
    (hnodup : n.executors.Nodup) (h : n.Change y z a i j s x n') :
    (x.executing = s.executing ∧ n'.keys.Sublist n.keys ∧
        (n'.keys = n.keys ∨ y.crashesWorker i j a = true)) ∨
      (∃ (key : String) (e : Execution), x.executing = s.executing.insert key e ∧
        s.executing.contains key = false ∧ n'.keys = n.keys ++ [key]) ∨
      ∃ key : String, x.executing = s.executing.erase key ∧ n.keys.Perm (key :: n'.keys) := by
  cases h with
  | @enter p _ _ _ hx =>
      exact .inr (.inl ⟨p.key, _, rfl, hx, by simp [Session.keys, Worker.key]⟩)
  | @endWorker w _ hw =>
      have hperm := Worker.perm_cons_filter hw hnodup
      exact .inr (.inr ⟨w.key, rfl, hperm.map Worker.key⟩)
  | crashWorker _ hcrash =>
      exact .inl ⟨rfl, List.filter_sublist.map Worker.key, .inr hcrash⟩
  | @work w point =>
      have hkeys := Worker.map_at Worker.key (fun _ _ => rfl) n.workers w.executor point
      refine .inl ⟨rfl, ?_, .inl hkeys⟩
      unfold Session.keys
      rewrite [hkeys]
      exact .refl _
  | _ => exact .inl ⟨rfl, .refl _, .inl rfl⟩

namespace Scheduler

/-- The keys of the plans that the workers of all sessions run, the oldest session first. -/
def workerKeys (s : Scheduler) : List String := s.sessions.toList.flatMap Session.keys

/-- The executing keys that belong to no worker. -/
def orphans (s : Scheduler) : List String :=
  s.executing.keys.filter fun key => !s.workerKeys.contains key

/-- Every worker is executing under a key of its own. -/
structure Lists (s : Scheduler) : Prop where
  nodup : s.workerKeys.Nodup
  mem : ∀ key ∈ s.workerKeys, s.executing.contains key = true

/-- The executing keys are those of the workers and those that belong to none. -/
theorem Lists.size_eq {s : Scheduler} (h : s.Lists) :
    s.executing.size = s.workerKeys.length + s.orphans.length := by
  have hperm : (s.executing.keys.filter fun key => s.workerKeys.contains key).Perm
      s.workerKeys := by
    refine (List.perm_ext_iff_of_nodup (s.executing.nodup_keys.sublist List.filter_sublist)
      h.nodup).2 fun key => ?_
    rw [List.mem_filter, List.contains_iff_mem]
    exact ⟨fun hkey => hkey.2, fun hkey =>
      ⟨Registry.contains_iff_mem_keys.1 (h.mem key hkey), hkey⟩⟩
  have hsplit := (List.filter_append_perm (fun key => s.workerKeys.contains key)
    s.executing.keys).length_eq
  rw [List.length_append, hperm.length_eq] at hsplit
  have hsize : s.executing.size = s.executing.keys.length := by
    simp [Registry.size, Registry.keys]
  rw [hsize, ← hsplit]
  rfl

/-- What is listed of a session that changes stands beside what is listed of all others. -/
theorem Edits.flatMap_perm {α : Type} {s s' : Scheduler} {j : SessionId} {n n' : Session}
    (h : s.Edits s' j n n') (f : Session → List α) :
    ∃ rest : List α, (s.sessions.toList.flatMap f).Perm (f n ++ rest) ∧
      (s'.sessions.toList.flatMap f).Perm (f n' ++ rest) := by
  obtain ⟨hlt, hget⟩ := Array.getElem?_eq_some_iff.1 h.before
  have hlt' : j < s.sessions.toList.length := hlt
  have hperm (m : Session) : ((s.sessions.toList.set j m).flatMap f).Perm
      (f m ++ ((s.sessions.toList.take j).flatMap f ++
        (s.sessions.toList.drop (j + 1)).flatMap f)) := by
    rw [List.set_eq_take_append_cons_drop, if_pos hlt', List.flatMap_append, List.flatMap_cons]
    exact List.perm_append_comm_assoc _ _ _
  have hself : s.sessions.toList.set j n = s.sessions.toList := by
    rw [← hget]
    exact List.set_getElem_self hlt'
  have hbefore := hperm n
  rw [hself] at hbefore
  have hafter : s'.sessions.toList.flatMap f = (s.sessions.toList.set j n').flatMap f := by
    rw [h.sessions, Array.toList_setIfInBounds]
  exact ⟨_, hbefore, hafter ▸ hperm n'⟩

section Step

variable {y z : System} {a : Step} {i : SchedulerId} {j : SessionId} {s s' : Scheduler}
  {n n' : Session}

theorem Lists.edit (h : s.Lists) (hnodup : n.executors.Nodup) (hedit : s.Edits s' j n n')
    (hchange : n.Change y z a i j s s'.stores n') : s'.Lists := by
  obtain ⟨rest, hbefore, hafter⟩ := hedit.flatMap_perm Session.keys
  have hall : (n.keys ++ rest).Nodup := hbefore.nodup_iff.1 h.nodup
  have hmem {key : String} (hkey : key ∈ n.keys ++ rest) : s.executing.contains key = true :=
    h.mem key (hbefore.symm.subset hkey)
  have hcases := hchange.keys hnodup
  rw [stores_executing] at hcases
  obtain ⟨hsame, hsub, -⟩ | ⟨key, e, hinsert, hfresh, hkeys⟩ | ⟨key, herase, hkeys⟩ := hcases
  · have hsub' : (n'.keys ++ rest).Sublist (n.keys ++ rest) := hsub.append (.refl rest)
    refine ⟨hafter.nodup_iff.2 (hsub'.nodup hall), fun key hkey => ?_⟩
    rw [hsame]
    exact hmem (hsub'.subset (hafter.subset hkey))
  · have hperm : s'.workerKeys.Perm (key :: (n.keys ++ rest)) := by
      refine hafter.trans ?_
      rw [hkeys, List.append_assoc]
      exact List.perm_middle
    have hnew : key ∉ n.keys ++ rest := fun hkey => by
      rw [hmem hkey] at hfresh
      cases hfresh
    refine ⟨hperm.nodup_iff.2 (List.nodup_cons.2 ⟨hnew, hall⟩), fun k hk => ?_⟩
    rw [hinsert, Registry.contains_insert, Bool.or_eq_true, decide_eq_true_eq]
    exact (List.mem_cons.1 (hperm.subset hk)).imp_right hmem
  · have hperm : (n.keys ++ rest).Perm (key :: (n'.keys ++ rest)) := hkeys.append_right rest
    obtain ⟨hgone, hrest⟩ := List.nodup_cons.1 (hperm.nodup_iff.1 hall)
    refine ⟨hafter.nodup_iff.2 hrest, fun k hk => ?_⟩
    have hk' := hafter.subset hk
    have hne : k ≠ key := fun heq => hgone (heq ▸ hk')
    rw [herase, Registry.contains_erase, Bool.and_eq_true, decide_eq_true_eq]
    exact ⟨hne, hmem (hperm.symm.subset (List.mem_cons_of_mem _ hk'))⟩

/-- Without a panic each executing key goes on belonging to a worker. -/
theorem Edits.owned (hown : ∀ key, s.executing.contains key = true → key ∈ s.workerKeys)
    (hnodup : n.executors.Nodup) (hedit : s.Edits s' j n n')
    (hchange : n.Change y z a i j s s'.stores n') (hpanic : y.crashesWorker i j a = false)
    {key : String} (hkey : s'.executing.contains key = true) : key ∈ s'.workerKeys := by
  obtain ⟨rest, hbefore, hafter⟩ := hedit.flatMap_perm Session.keys
  have hmem {k : String} (hk : s.executing.contains k = true) : k ∈ n.keys ++ rest :=
    hbefore.subset (hown k hk)
  refine hafter.symm.subset ?_
  have hcases := hchange.keys hnodup
  rw [stores_executing] at hcases
  obtain ⟨hsame, -, hkeys | hcrash⟩ | ⟨k, e, hinsert, -, hkeys⟩ | ⟨k, herase, hkeys⟩ := hcases
  · rw [hkeys]
    exact hmem (hsame ▸ hkey)
  · rw [hpanic] at hcrash
    cases hcrash
  · rw [hinsert, Registry.contains_insert, Bool.or_eq_true, decide_eq_true_eq] at hkey
    rw [hkeys, List.append_assoc]
    refine List.perm_middle.symm.subset (List.mem_cons.2 ?_)
    exact hkey.imp_right hmem
  · rw [herase, Registry.contains_erase, Bool.and_eq_true, decide_eq_true_eq] at hkey
    have hperm : (n.keys ++ rest).Perm (k :: (n'.keys ++ rest)) := hkeys.append_right rest
    exact (List.mem_cons.1 (hperm.subset (hmem hkey.2))).resolve_left hkey.1

theorem Lists.of_eq (h : s.Lists) (hexecuting : s'.executing = s.executing)
    (hkeys : s'.workerKeys = s.workerKeys) : s'.Lists := by
  refine ⟨hkeys ▸ h.nodup, fun key hkey => ?_⟩
  rw [hexecuting]
  exact h.mem key (hkeys ▸ hkey)

end Step

theorem workerKeys_of_sessions_eq {s s' : Scheduler} (h : s'.sessions = s.sessions) :
    s'.workerKeys = s.workerKeys := by
  rw [workerKeys, h, workerKeys]

/-- A new session has no workers yet. -/
theorem workerKeys_of_sessions_eq_push {s s' : Scheduler} {c : ContextId}
    (h : s'.sessions = s.sessions.push (Session.create c)) : s'.workerKeys = s.workerKeys := by
  have hnil : (Session.create c).keys = [] := rfl
  simp [workerKeys, h, hnil]

/-- The executing keys that the permits of the latest session do not count: those of workers that
earlier sessions left behind, and those that no worker has any more. -/
def leftovers (s : Scheduler) : List String :=
  s.sessions.toList.dropLast.flatMap Session.keys ++ s.orphans

/-- How many more workers the latest session has room for. -/
def room (s : Scheduler) : Nat :=
  s.maxConcurrency - (s.sessions.toList.getLast?.map fun n => n.workers.length).getD 0

theorem length_workerKeys (s : Scheduler) :
    s.workerKeys.length = (s.sessions.toList.dropLast.flatMap Session.keys).length +
      (s.sessions.toList.getLast?.map fun n => n.workers.length).getD 0 := by
  unfold workerKeys
  cases hlast : s.sessions.toList.getLast? with
  | none => simp [List.getLast?_eq_none_iff.1 hlast]
  | some n =>
      obtain ⟨front, hfront⟩ := List.getLast?_eq_some_iff.1 hlast
      simp [hfront, Session.keys]

end Scheduler

namespace System

variable {y : System} {i : SchedulerId} {s : Scheduler}

theorem executing_of_build {b : Blueprint} (h : b.build = .ok s) :
    s.executing = Registry.empty := by
  rw [eq_create_of_build h]
  rfl

theorem ReachableBy.lists {allowed : System → Step → Bool} (h : y.ReachableBy allowed)
    (hs : y.schedulers[i]? = some s) : s.Lists := by
  induction h generalizing s with
  | create origin => simp [System.create] at hs
  | step h _ hz ih =>
      obtain ⟨s₀, hs₀, hchange⟩ | ⟨b, -, hb⟩ := change_of_step hz hs
      · obtain hreg | ⟨-, hedit, hn⟩ | ⟨-, -, rfl⟩ := hchange.outcome
        · exact (ih hs₀).of_eq hreg.registers.executing
            (Scheduler.workerKeys_of_sessions_eq hreg.registers.sessions)
        · exact (ih hs₀).edit (h.numbered.nodup hs₀ hedit.before) hedit hn
        · exact (ih hs₀).of_eq rfl (Scheduler.workerKeys_of_sessions_eq_push rfl)
      · have hnil : s.workerKeys = [] := by simp [Scheduler.workerKeys, sessions_of_build hb]
        exact ⟨by simp [hnil], by simp [hnil]⟩

/-- As long as no worker of a scheduler panics, each executing key belongs to a worker. -/
theorem ReachableBy.orphans_eq_nil {allowed : System → Step → Bool} (h : y.ReachableBy allowed)
    (hallowed : ∀ (y : System) (a : Step), allowed y a = true →
      ∀ j, y.crashesWorker i j a = false)
    (hs : y.schedulers[i]? = some s) : s.orphans = [] := by
  have hown : ∀ key, s.executing.contains key = true → key ∈ s.workerKeys := by
    induction h generalizing s with
    | create origin => simp [System.create] at hs
    | step h ha hz ih =>
        obtain ⟨s₀, hs₀, hchange⟩ | ⟨b, -, hb⟩ := change_of_step hz hs
        · obtain hreg | ⟨-, hedit, hn⟩ | ⟨-, -, rfl⟩ := hchange.outcome
          · have hkeep := hreg.registers
            rw [hkeep.executing, Scheduler.workerKeys_of_sessions_eq hkeep.sessions]
            exact ih hs₀
          · exact fun key => hedit.owned (ih hs₀) (h.numbered.nodup hs₀ hedit.before) hn
              (hallowed _ _ ha _)
          · rw [Scheduler.workerKeys_of_sessions_eq_push rfl]
            exact ih hs₀
        · rw [executing_of_build hb]
          intro key hkey
          simp [Registry.contains] at hkey
  refine List.filter_eq_nil_iff.2 fun key hkey => ?_
  have hmem := hown key (Registry.contains_iff_mem_keys.2 hkey)
  simpa using hmem

/-- No session has more workers than permits; but the bound holds of all executing plans of a
scheduler exactly as long as the latest session has room for what it does not count. -/
theorem executing_le_iff (h : y.Reachable) (hs : y.schedulers[i]? = some s) :
    (∀ (j : SessionId) (n : Session), s.sessions[j]? = some n →
        n.workers.length ≤ s.maxConcurrency) ∧
      (s.executing.size ≤ s.maxConcurrency ↔ s.leftovers.length ≤ s.room) := by
  have hbound (j : SessionId) (n : Session) (hn : s.sessions[j]? = some n) :
      n.workers.length ≤ s.maxConcurrency := (h.accounts hs hn).workers_length_le
  refine ⟨hbound, ?_⟩
  have hsize := (h.lists hs).size_eq
  rw [s.length_workerKeys] at hsize
  have hlast : (s.sessions.toList.getLast?.map fun n => n.workers.length).getD 0 ≤
      s.maxConcurrency := by
    cases hlast : s.sessions.toList.getLast? with
    | none => exact Nat.zero_le _
    | some n =>
        obtain ⟨j, hj, hn⟩ := List.mem_iff_getElem.1 (List.mem_of_getLast? hlast)
        exact hbound j n (Array.getElem?_eq_some_iff.2 ⟨hj, hn⟩)
  simp only [Scheduler.leftovers, Scheduler.room, List.length_append]
  omega

/-- A session stops while a body of it sleeps on, and the next session admits another plan. -/
def overlappingRun (maxConcurrency : Nat) : System :=
  after
    [.request .newContext, .request (.newTask "a" [] fun _ => [.rawSleep (Duration.ofSeconds 10)]),
      .request (.newTask "b" [] fun _ => [.rawSleep (Duration.ofSeconds 10)]),
      .request (.newScheduler ⟨maxConcurrency, .localTime, {}⟩),
      .request (.addPlans 0 [⟨0, "a", ⟨0⟩, 0, none, 0, false, none⟩]),
      .request (.startScheduler 0 0), .move (.fetch 0 0) 0, .move (.fetch 0 0) 0,
      .move (.dispatch 0 0) 0, .move (.dispatch 0 0) 0, .move (.dispatch 0 0) 0,
      .move (.worker 0 0 0) 0, .move (.run 0) 0, .move (.run 0) 0,
      .request (.call (.stopScheduler 0 true)), .move (.call 0) 0, .move (.fetch 0 0) 0,
      .move (.dispatch 0 0) 0, .move (.supervisor 0 0) 0,
      .request (.addPlans 0 [⟨1, "b", ⟨0⟩, 0, none, 0, false, none⟩]),
      .request (.startScheduler 0 0), .move (.fetch 0 1) 0, .move (.fetch 0 1) 0,
      .move (.dispatch 0 1) 0, .move (.dispatch 0 1) 0, .move (.dispatch 0 1) 0]

/-- With room for two plans the bound holds although one of them is left over. -/
theorem executing_le_overlappingRun :
    ∃ s : Scheduler, (overlappingRun 2).schedulers[0]? = some s ∧ s.leftovers.length = 1 ∧
      s.executing.size ≤ s.maxConcurrency := by
  have hrun : ((overlappingRun 2).schedulers[0]?.any fun s =>
      s.leftovers.length == 1 && s.room == 1) = true := by decide +kernel
  obtain ⟨s, hs, hrun⟩ := (Option.any_eq_true _ _).1 hrun
  simp only [Bool.and_eq_true, beq_iff_eq] at hrun
  obtain ⟨hleft, hroom⟩ := hrun
  have hle : s.leftovers.length ≤ s.room := by omega
  exact ⟨s, hs, hleft, (executing_le_iff (reachable_after _) hs).2.2 hle⟩

/-- With room for one plan two of them execute. -/
theorem executing_exceeds_overlappingRun :
    (overlappingRun 1).Reachable ∧ ∃ s : Scheduler, (overlappingRun 1).schedulers[0]? = some s ∧
      s.maxConcurrency = 1 ∧ s.executing.keys = ["a", "b"] := by
  have hrun : ((overlappingRun 1).schedulers[0]?.any fun s =>
      s.maxConcurrency == 1 && decide (s.executing.keys = ["a", "b"])) = true := by
    decide +kernel
  obtain ⟨s, hs, hrun⟩ := (Option.any_eq_true _ _).1 hrun
  simp only [Bool.and_eq_true, beq_iff_eq, decide_eq_true_eq] at hrun
  exact ⟨reachable_after _, s, hs, hrun.1, hrun.2⟩

end System

end Scheduling
