import Scheduling.Proofs.Workers
/-!
# What a worker's executor is

An admitted plan gets an executor of its own, made from its task and its policies or the default
ones. Until the worker makes its first move nobody but a cancellation touches that executor.
-/

namespace Scheduling

/-- The executor that is made for a plan, where `defaults` are the policies for plans that bring
none. -/
def Plan.executor (p : Plan) (defaults : ExecutorOptions) : Executor :=
  Executor.create p.task (p.options.getD defaults)

/-- A worker was there before and has not gone back to its beginning, or was admitted just now. -/
theorem Session.Change.worker {y z : System} {a : Step} {i : SchedulerId} {j : SessionId}
    {s : Scheduler} {n n' : Session} {x : Scheduler.Stores} {w' : Worker}
    (h : n.Change y z a i j s x n') (hw' : w' ∈ n'.workers) :
    (∃ w ∈ n.workers, w.plan = w'.plan ∧ w.executor = w'.executor ∧ w.context = w'.context ∧
        (w'.point = .entered → w.point = .entered)) ∨
      w'.executor = y.executors.size ∧ w'.context = y.contexts.nodes.size ∧
        z.executors = y.executors.push (w'.plan.executor s.defaults) := by
  cases h with
  | enter _ _ _ _ _ hz =>
      obtain hw' | hw' := List.mem_append.1 hw'
      · exact .inl ⟨w', hw', rfl, rfl, rfl, id⟩
      · obtain rfl := List.mem_singleton.1 hw'
        exact .inr ⟨rfl, rfl, hz⟩
  | work _ hpoint =>
      obtain ⟨w, hw, rfl⟩ := List.mem_map.1 hw'
      refine .inl ⟨w, hw, ?_⟩
      split
      · exact ⟨rfl, rfl, rfl, fun hentered => absurd hentered hpoint⟩
      · exact ⟨rfl, rfl, rfl, id⟩
  | endWorker | crashWorker => exact .inl ⟨w', (List.mem_filter.1 hw').1, rfl, rfl, rfl, id⟩
  | _ => exact .inl ⟨w', hw', rfl, rfl, rfl, id⟩

namespace System

variable {y z : System} {a : Step} {i : SchedulerId} {j : SessionId} {e : ExecutorId}
  {s s' : Scheduler} {n n' : Session} {w : Worker}

/-- After a move of its start call a worker does not stand at the beginning. -/
theorem begun_of_workerMoves {choice : Nat} (h : (y.workerMoves i j e)[choice]? = some z)
    (hs' : z.schedulers[i]? = some s') (hn' : s'.sessions[j]? = some n') (hw : w ∈ n'.workers)
    (he : w.executor = e) : w.point ≠ .entered := by
  obtain ⟨s, v, u, status, hs, hworker, hmade, hmove⟩ := workerMove_of_getElem? h
  obtain rfl := Scheduler.executor_of_worker? hworker
  obtain ⟨n, hn, -⟩ := Scheduler.mem_of_worker? hworker
  have hu : u.schedulers = y.schedulers :=
    (works_of_mem_executionMoves (List.mem_of_getElem? hmade)).schedulers
  have hset : ∀ s₁ : Scheduler, (u.setScheduler i s₁).schedulers[i]? = some s₁ :=
    getElem?_setScheduler (hu ▸ hs)
  -- A worker that has left is not found any more.
  have hleft {m : Session} {s₁ : Scheduler} (hedit : s.Edits s₁ j n m)
      (hm : m.workers = n.workers.filter (·.executor ≠ v.executor))
      (hs₁ : some s₁ = some s') : False := by
    cases hs₁
    obtain ⟨-, rfl⟩ | ⟨hne, -⟩ := hedit.session hn'
    · rw [hm] at hw
      simpa [he] using (List.mem_filter.1 hw).2
    · exact hne rfl
  cases hmove with
  | @goOn point hbegun =>
      have hs₁ := (hset _).symm.trans hs'
      cases hs₁
      have hedit : s.Edits (s.workerAt j v.executor point) j n _ := .once hn rfl
      obtain ⟨-, rfl⟩ | ⟨hne, -⟩ := hedit.session hn'
      · obtain ⟨w₀, -, rfl⟩ := List.mem_map.1 hw
        split
        · exact hbegun
        · rename_i hother
          rw [if_neg hother] at he
          exact absurd he hother
      · exact absurd rfl hne
  | returns => exact absurd ((hset _).symm.trans hs') fun hs₁ => hleft (.endWorker hn) rfl hs₁
  | panics => exact absurd ((hset _).symm.trans hs') fun hs₁ => hleft (.twice hn rfl) rfl hs₁

/-- A worker whose executor works in a step has begun after it. -/
theorem begun_of_working (hy : y.Numbered) (h : y.step? a = some z)
    (hworking : y.working a = some w.executor) (hemploys : y.Employs i j w.executor)
    (hs' : z.schedulers[i]? = some s') (hn' : s'.sessions[j]? = some n') (hw : w ∈ n'.workers) :
    w.point ≠ .entered := by
  cases a with
  | pass millis => cases hworking
  | request r =>
      obtain ⟨haccepts, -⟩ := step_request_iff.1 h
      exact absurd hemploys ((lends_iff.1 (lends_of_accepts haccepts hworking)).2 i j)
  | move actor choice =>
      cases actor with
      | call k =>
          simp only [working] at hworking
          split at hworking
          · rename_i e c point hk
            obtain rfl := Option.some.inj hworking
            exact absurd hemploys (hy.apart ⟨k, c, point, hk⟩)
          · cases hworking
      | worker i' j' e =>
          obtain rfl := Option.some.inj hworking
          obtain ⟨s₀, v, _, _, hs₀, hworker, -, -⟩ := workerMove_of_getElem? h
          obtain ⟨n₀, hn₀, hv⟩ := Scheduler.mem_of_worker? hworker
          have hemploys' : y.Employs i' j' w.executor :=
            Scheduler.executor_of_worker? hworker ▸ employs_of_mem hs₀ hn₀ hv
          obtain ⟨rfl, rfl⟩ := hy.unique hemploys hemploys'
          exact begun_of_workerMoves h hs' hn' hw rfl
      | _ => cases hworking

/-- The executor of a worker is the one that was made for its plan; until the first move nothing
but its halt flags has changed. -/
theorem ReachableBy.executor {allowed : System → Step → Bool} (h : y.ReachableBy allowed)
    (hs : y.schedulers[i]? = some s) (hn : s.sessions[j]? = some n) (hw : w ∈ n.workers) :
    ∃ x : Executor, y.executors[w.executor]? = some x ∧
      (w.plan.executor s.defaults).Follows (w.point ≠ .entered) x := by
  induction h generalizing s n w with
  | create origin => simp [System.create] at hs
  | step h _ hz ih =>
      obtain ⟨s₀, n₀, hs₀, hn₀, hset, _, hchange⟩ | rfl := session_of_step hz hs hn
      · rw [hset.defaults]
        obtain ⟨w₀, hw₀, hplan, hexecutor, -, hentered⟩ | ⟨hexecutor, -, hnew⟩ :=
            hchange.worker hw
        · obtain ⟨x, hx, hfollows⟩ := ih hs₀ hn₀ hw₀
          rw [hexecutor] at hx
          obtain ⟨x', hx', hfollows'⟩ := (proceeds_of_step hz).executors _ x hx
          have hemploys : Employs _ i j w.executor := hexecutor ▸ employs_of_mem hs₀ hn₀ hw₀
          rw [hplan] at hfollows
          refine ⟨x', hx', (hfollows.mono fun h₀ hw' => h₀ (hentered hw')).trans
            (hfollows'.mono fun hworking => ?_)⟩
          exact begun_of_working h.numbered hz hworking hemploys hs hn hw
        · exact ⟨_, by rw [hnew, hexecutor, Array.getElem?_push_size], .refl _⟩
      · simp [Scheduler.Session.create] at hw

end System

end Scheduling
