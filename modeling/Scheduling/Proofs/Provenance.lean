import Scheduling.Proofs.KeyExclusion
import Scheduling.Proofs.Leftovers
/-!
# Where workers and their plans come from

A worker is made by the admission of a plan, which was added or is a copy of one that was. So a
worker that is found after a step was there before, has just made a move, or was just admitted; and
what holds of every plan that is added holds of every plan in a queue, in a cron table, on its way
or with a worker.
-/

namespace Scheduling

namespace Session

/-- The plans of a session: one may be in the channel and one in the hand of the fetch loop, and
each worker has one. -/
def plans (n : Session) : List Plan :=
  n.slot.toList ++ n.fetch.inHand ++ n.workers.map Worker.plan

theorem mem_plans {n : Session} {p : Plan} :
    p ∈ n.plans ↔ n.slot = some p ∨ p ∈ n.fetch.inHand ∨ ∃ w ∈ n.workers, w.plan = p := by
  simp [plans]

namespace Change

variable {y z : System} {a : Step} {i : SchedulerId} {j : SessionId} {s : Scheduler}
  {n n' : Session} {x : Scheduler.Stores}

/-- A plan of a session was there before, or was just popped from the queue. -/
theorem mem_plans {p : Plan} (h : n.Change y z a i j s x n') (hp : p ∈ n'.plans) :
    p ∈ n.plans ∨ ∃ queue, s.queue.takeFirst y.planOrder = some (p, queue) := by
  rw [Session.mem_plans] at hp ⊢
  cases h with
  | hold hfetch htake | send hfetch htake =>
      obtain hp | hp | hp := hp
      · exact .inl (.inl hp)
      · obtain rfl := List.mem_singleton.1 hp
        exact .inr ⟨_, htake⟩
      · exact .inl (.inr (.inr hp))
  | endFetch | giveUp | wait | resume =>
      obtain hp | hp | hp := hp
      · exact .inl (.inl hp)
      · cases hp
      · exact .inl (.inr (.inr hp))
  | sendHeld hfetch => exact .inl (by rwa [hfetch])
  | put hfetch =>
      obtain hp | hp | hp := hp
      · exact .inl (.inr (.inl (by simp [hfetch, FetchPoint.inHand, Option.some.inj hp])))
      · unfold Scheduler.afterSending at hp
        split at hp <;> cases hp
      · exact .inl (.inr (.inr hp))
  | crash | stopAcquiring | stopReceiving | skip =>
      exact .inl (.inr (hp.resolve_left fun hslot => by cases hslot))
  | enter _ hslot =>
      obtain hp | hp | ⟨w, hw, rfl⟩ := hp
      · cases hp
      · exact .inl (.inr (.inl hp))
      · obtain hw | hw := List.mem_append.1 hw
        · exact .inl (.inr (.inr ⟨w, hw, rfl⟩))
        · obtain rfl := List.mem_singleton.1 hw
          exact .inl (.inl hslot)
  | work =>
      obtain hp | hp | ⟨w, hw, hplan⟩ := hp
      · exact .inl (.inl hp)
      · exact .inl (.inr (.inl hp))
      · obtain ⟨v, hv, rfl⟩ := List.mem_map.1 hw
        refine .inl (.inr (.inr ⟨v, hv, ?_⟩))
        split at hplan <;> exact hplan
  | endWorker | crashWorker =>
      obtain hp | hp | ⟨w, hw, hplan⟩ := hp
      · exact .inl (.inl hp)
      · exact .inl (.inr (.inl hp))
      · exact .inl (.inr (.inr ⟨w, (List.mem_filter.1 hw).1, hplan⟩))
  | _ => exact .inl hp

/-- A worker was there before, has just made a move, or was just admitted. -/
theorem worker_cases {w' : Worker} (h : n.Change y z a i j s x n') (hnodup : n.executors.Nodup)
    (hw' : w' ∈ n'.workers) :
    w' ∈ n.workers ∨
      (∃ w ∈ n.workers, y.Advances a z i j w (.at w'.point) ∧
        w' = { w with point := w'.point }) ∨
      w'.point = .entered ∧ w'.executor = y.executors.size := by
  cases h with
  | enter =>
      obtain hw' | hw' := List.mem_append.1 hw'
      · exact .inl hw'
      · obtain rfl := List.mem_singleton.1 hw'
        exact .inr (.inr ⟨rfl, rfl⟩)
  | @work w point hw _ ha =>
      obtain ⟨v, hv, rfl⟩ := List.mem_map.1 hw'
      split
      · rename_i hsame
        obtain rfl := List.inj_on_of_nodup_map hnodup hv hw hsame
        exact .inr (.inl ⟨v, hv, ha, rfl⟩)
      · exact .inl hv
  | endWorker | crashWorker => exact .inl (List.mem_filter.1 hw').1
  | _ => exact .inl hw'

/-- A worker is still there, or has just made a move. -/
theorem worker_kept {w : Worker} (h : n.Change y z a i j s x n') (hnodup : n.executors.Nodup)
    (hw : w ∈ n.workers) :
    w ∈ n'.workers ∨ (∃ point, y.Advances a z i j w (.at point) ∧
        { w with point := point } ∈ n'.workers) ∨
      ∃ result, y.Advances a z i j w (.ended result) := by
  have hother {v : Worker} (hv : v ∈ n.workers) (hne : w ≠ v) : w.executor ≠ v.executor :=
    fun hsame => hne (List.inj_on_of_nodup_map hnodup hw hv hsame)
  cases h with
  | enter => exact .inl (List.mem_append_left _ hw)
  | @work v point hv _ ha =>
      by_cases hsame : w = v
      · subst hsame
        exact .inr (.inl ⟨point, ha, List.mem_map.2 ⟨w, hw, if_pos rfl⟩⟩)
      · exact .inl (List.mem_map.2 ⟨w, hw, if_neg (hother hv hsame)⟩)
  | @endWorker v _ hv ha | @crashWorker v _ hv _ ha =>
      by_cases hsame : w = v
      · subst hsame
        exact .inr (.inr ⟨_, ha⟩)
      · exact .inl (List.mem_filter.2 ⟨hw, by simpa using hother hv hsame⟩)
  | _ => exact .inl hw

end Change

end Session

namespace Scheduler

variable {y z : System} {a : Step} {i : SchedulerId} {s s' : Scheduler} {kind kind' : Plan → Prop}

/-- All plans of a scheduler are of a kind: those in the queue, in the cron table, on their way and
with the workers. -/
structure Holds (kind : Plan → Prop) (s : Scheduler) : Prop extends s.Carries kind where
  sessions : ∀ (j : SessionId) (n : Session), s.sessions[j]? = some n → ∀ p ∈ n.plans, kind p

theorem Holds.mono (h : s.Holds kind) (hkind : ∀ p, kind p → kind' p) : s.Holds kind' where
  queue key p hp := hkind p (h.queue key p hp)
  cron := ⟨fun id entry he => hkind _ (h.cron.entries id entry he),
    fun id timer ht => hkind _ (h.cron.timers id timer ht)⟩
  sessions j n hn p hp := hkind p (h.sessions j n hn p hp)

theorem Holds.change (hs : s.Holds kind) (h : s.Change y z a i s')
    (hadds : ∀ p, Adds a i p → kind p) : s'.Holds kind where
  toCarries := hs.toCarries.change h hadds
  sessions j m hm p hp := by
    obtain hreg | ⟨-, hedit, hn⟩ | ⟨-, -, rfl⟩ := h.outcome
    · exact hs.sessions j m (hreg.registers.sessions ▸ hm) p hp
    · obtain ⟨rfl, rfl⟩ | ⟨-, hkept⟩ := hedit.session hm
      · obtain hp | ⟨queue, htake⟩ := hn.mem_plans hp
        · exact hs.sessions _ _ hedit.before p hp
        · obtain ⟨key, hkey⟩ := Registry.mem_values_iff.1 (Queue.mem_of_takeFirst htake).1
          exact hs.queue key p hkey
      · exact hs.sessions j m hkept p hp
    · simp only [start, Array.getElem?_push] at hm
      split at hm
      · cases hm
        simp [Session.plans, Session.create, FetchPoint.inHand] at hp
      · exact hs.sessions j m hm p hp

/-- A scheduler that was just made has no plans. -/
theorem holds_of_build {b : Blueprint} (h : b.build = .ok s) : s.Holds kind := by
  rw [System.eq_create_of_build h]
  refine ⟨⟨nofun, Cron.Table.carries_of_empty rfl rfl⟩, fun j n hn => ?_⟩
  simp [create] at hn

end Scheduler

namespace System

variable {y z : System} {a : Step} {i : SchedulerId} {j : SessionId} {s s' : Scheduler}
  {n n' : Session} {w w' : Worker} {allowed : System → Step → Bool}

/-- What holds of every plan that is added, and goes on to hold, holds of all plans. -/
theorem ReachableBy.holds (kind : System → SchedulerId → Plan → Prop)
    (hkeeps : ∀ {y z : System} {a : Step} {i : SchedulerId} {p : Plan},
      y.step? a = some z → kind y i p → kind z i p)
    (hadds : ∀ {y z : System} {a : Step} {i : SchedulerId} {p : Plan},
      allowed y a = true → y.step? a = some z → Scheduler.Adds a i p → kind y i p)
    (h : y.ReachableBy allowed) (hs : y.schedulers[i]? = some s) : s.Holds (kind y i) := by
  induction h generalizing i s with
  | create origin => simp [System.create] at hs
  | step _ ha hz ih =>
      obtain ⟨s₀, hs₀, hchange⟩ | ⟨b, -, hb⟩ := change_of_step hz hs
      · exact ((ih hs₀).change hchange fun p => hadds ha hz).mono fun p => hkeeps hz
      · exact Scheduler.holds_of_build hb

/-- All plans of a scheduler carry the identifiers of their tasks. -/
theorem ReachableBy.knows (h : y.ReachableBy allowed) (hs : y.schedulers[i]? = some s) :
    s.Holds fun p => y.knows p = true := by
  refine h.holds (fun y _ p => y.knows p = true) (fun hz => (proceeds_of_step hz).knows)
    (fun _ hz hp => ?_) hs
  obtain ⟨plans, rfl, hp⟩ := hp
  obtain ⟨haccepts, -⟩ := step_request_iff.1 hz
  simp only [accepts, Bool.and_eq_true] at haccepts
  exact List.all_eq_true.1 haccepts.2 _ hp

/-- The plan of a worker carries the identifier of its task. -/
theorem ReachableBy.task_of_worker (h : y.ReachableBy allowed) (hs : y.schedulers[i]? = some s)
    (hn : s.sessions[j]? = some n) (hw : w ∈ n.workers) :
    ∃ task, y.tasks[w.plan.task]? = some task ∧ w.key = task.id := by
  have hmem : w.plan ∈ n.plans := Session.mem_plans.2 (.inr (.inr ⟨w, hw, rfl⟩))
  have hknows := (h.knows hs).sessions j n hn _ hmem
  simp only [System.knows, Bool.and_eq_true, Option.any_eq_true, beq_iff_eq] at hknows
  obtain ⟨-, task, htask, hkey, -⟩ := hknows
  exact ⟨task, htask, hkey⟩

/-- A scheduler has one worker for each task. -/
theorem ReachableBy.worker_eq_of_task {j' : SessionId} (h : y.ReachableBy allowed)
    (hs : y.schedulers[i]? = some s) (hn : s.sessions[j]? = some n) (hw : w ∈ n.workers)
    (hn' : s.sessions[j']? = some n') (hw' : w' ∈ n'.workers)
    (ht : w.plan.task = w'.plan.task) : w = w' := by
  obtain ⟨task, htask, hkey⟩ := h.task_of_worker hs hn hw
  obtain ⟨task', htask', hkey'⟩ := h.task_of_worker hs hn' hw'
  rw [ht, htask'] at htask
  cases htask
  exact h.worker_eq_of_key hs hn hw hn' hw' (hkey.trans hkey'.symm)

/-- A worker after a step was there before, has just made a move, or was just admitted. -/
theorem ReachableBy.worker_cases (h : y.ReachableBy allowed) (hz : y.step? a = some z)
    (hs' : z.schedulers[i]? = some s') (hn' : s'.sessions[j]? = some n') (hw' : w' ∈ n'.workers) :
    ∃ (s : Scheduler) (n : Session), y.schedulers[i]? = some s ∧ s.sessions[j]? = some n ∧
      (w' ∈ n.workers ∨
        (∃ w ∈ n.workers, y.Advances a z i j w (.at w'.point) ∧
          w' = { w with point := w'.point }) ∨
        w'.point = .entered ∧ w'.executor = y.executors.size) := by
  obtain ⟨s, n, hs, hn, -, _, hchange⟩ | rfl := session_of_step hz hs' hn'
  · exact ⟨s, n, hs, hn, hchange.worker_cases (h.numbered.nodup hs hn) hw'⟩
  · cases hw'

/-- A worker is still there after a step, or has just made a move. -/
theorem ReachableBy.worker_kept (h : y.ReachableBy allowed) (hz : y.step? a = some z)
    (hs : y.schedulers[i]? = some s) (hn : s.sessions[j]? = some n) (hw : w ∈ n.workers) :
    ∃ (s' : Scheduler) (n' : Session), z.schedulers[i]? = some s' ∧ s'.sessions[j]? = some n' ∧
      (w ∈ n'.workers ∨ (∃ point, y.Advances a z i j w (.at point) ∧
          { w with point := point } ∈ n'.workers) ∨
        ∃ result, y.Advances a z i j w (.ended result)) := by
  obtain ⟨s', n', hs', hn', -, rfl | hchange⟩ := change_of_session hz hs hn
  · exact ⟨s', n', hs', hn', .inl hw⟩
  · exact ⟨s', n', hs', hn', hchange.worker_kept (h.numbered.nodup hs hn) hw⟩

/-- A worker whose start call goes on is found after the step where the call stands. -/
theorem WorkerMove.worker {u : System} {point : CallPoint}
    (h : WorkerMove i j s w u (.at point) z) (hs : u.schedulers[i]? = some s)
    (hn : s.sessions[j]? = some n) (hw : w ∈ n.workers) :
    ∃ (s' : Scheduler) (n' : Session), z.schedulers[i]? = some s' ∧ s'.sessions[j]? = some n' ∧
      { w with point := point } ∈ n'.workers := by
  cases h with
  | goOn =>
      have hedit : s.Edits (s.workerAt j w.executor point) j n _ := .once hn rfl
      refine ⟨s.workerAt j w.executor point, _, getElem?_setScheduler hs _, hedit.after, ?_⟩
      exact List.mem_map.2 ⟨w, hw, if_pos rfl⟩

end System

end Scheduling
