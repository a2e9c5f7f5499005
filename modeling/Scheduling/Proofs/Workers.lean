import Mathlib.Data.List.Nodup
import Scheduling.Proofs.Frames
import Scheduling.Proofs.Sessions
/-!
# Executors of workers

Each admission makes an executor of its own. So no two workers share one, in whatever session of
whatever scheduler, and no call from outside runs under the executor of a worker.
-/

namespace Scheduling

/-- The executors of the workers of a session. -/
def Session.executors (n : Session) : List ExecutorId := n.workers.map (·.executor)

/-- Workers leave, or one comes with an executor that was made for it. -/
theorem Session.Change.executors {y z : System} {a : Step} {i : SchedulerId} {j : SessionId}
    {s : Scheduler} {n n' : Session} {x : Scheduler.Stores}
    (h : n.Change y z a i j s x n') :
    n'.executors.Sublist n.executors ∨
      (∃ choice, a = .move (.dispatch i j) choice) ∧
        n'.executors = n.executors ++ [y.executors.size] ∧
        z.executors.size = y.executors.size + 1 := by
  cases h with
  | enter _ _ _ ha _ hz =>
      exact .inr ⟨⟨_, ha⟩, by simp [Session.executors], by simp [hz]⟩
  | work =>
      refine .inl ?_
      unfold Session.executors
      rewrite [Worker.map_at (·.executor) fun _ _ => rfl]
      exact .refl _
  | endWorker => exact .inl (List.filter_sublist.map _)
  | crashWorker => exact .inl (List.filter_sublist.map _)
  | _ => exact .inl (.refl _)

namespace System

/-- A worker of the session `j` of the scheduler `i` runs under an executor. -/
def Employs (y : System) (i : SchedulerId) (j : SessionId) (e : ExecutorId) : Prop :=
  ∃ (s : Scheduler) (n : Session),
    y.schedulers[i]? = some s ∧ s.sessions[j]? = some n ∧ e ∈ n.executors

/-- Executors are told apart: each belongs to one worker, or may be used from outside. -/
structure Numbered (y : System) : Prop where
  nodup : ∀ {i : SchedulerId} {j : SessionId} {s : Scheduler} {n : Session},
    y.schedulers[i]? = some s → s.sessions[j]? = some n → n.executors.Nodup
  lt : ∀ {i : SchedulerId} {j : SessionId} {e : ExecutorId},
    y.Employs i j e → e < y.executors.size
  unique : ∀ {i i' : SchedulerId} {j j' : SessionId} {e : ExecutorId},
    y.Employs i j e → y.Employs i' j' e → i = i' ∧ j = j'
  starts_lt : ∀ {e : ExecutorId}, y.Starts e → e < y.executors.size
  apart : ∀ {i : SchedulerId} {j : SessionId} {e : ExecutorId}, y.Starts e → ¬ y.Employs i j e

variable {y z : System} {a : Step} {i : SchedulerId} {j : SessionId} {e : ExecutorId}

theorem isWorking_iff : y.isWorking e = true ↔ ∃ i j, y.Employs i j e := by
  unfold isWorking
  constructor
  · intro h
    obtain ⟨s, hs, h⟩ := Array.any_eq_true'.1 h
    obtain ⟨n, hn, h⟩ := Array.any_eq_true'.1 h
    obtain ⟨w, hw, he⟩ := List.any_eq_true.1 h
    obtain ⟨i, hi⟩ := Array.mem_iff_getElem?.1 hs
    obtain ⟨j, hj⟩ := Array.mem_iff_getElem?.1 hn
    exact ⟨i, j, s, n, hi, hj, List.mem_map.2 ⟨w, hw, beq_iff_eq.1 he⟩⟩
  · rintro ⟨i, j, s, n, hs, hn, he⟩
    obtain ⟨w, hw, rfl⟩ := List.mem_map.1 he
    refine Array.any_eq_true'.2 ⟨s, Array.mem_of_getElem? hs, ?_⟩
    refine Array.any_eq_true'.2 ⟨n, Array.mem_of_getElem? hn, ?_⟩
    exact List.any_eq_true.2 ⟨w, hw, by simp⟩

theorem lends_iff :
    y.lends e = true ↔ e < y.executors.size ∧ ∀ i j, ¬ y.Employs i j e := by
  have hworking : y.isWorking e = false ↔ ∀ i j, ¬ y.Employs i j e := by
    rw [← Bool.not_eq_true, isWorking_iff]
    simp only [not_exists]
  rw [lends, Bool.and_eq_true, decide_eq_true_eq, Bool.not_eq_true', hworking]

/-- Whether some worker of the session `j` of the scheduler `i` has a property. -/
def anyWorker (y : System) (i : SchedulerId) (j : SessionId) (p : Scheduler → Worker → Bool) :
    Bool :=
  y.schedulers[i]?.any fun s => s.sessions[j]?.any fun n => n.workers.any (p s)

theorem of_anyWorker {p : Scheduler → Worker → Bool} (h : y.anyWorker i j p = true) :
    ∃ (s : Scheduler) (n : Session) (w : Worker), y.schedulers[i]? = some s ∧
      s.sessions[j]? = some n ∧ w ∈ n.workers ∧ p s w = true := by
  obtain ⟨s, hs, h⟩ := (Option.any_eq_true _ _).1 h
  obtain ⟨n, hn, h⟩ := (Option.any_eq_true _ _).1 h
  obtain ⟨w, hw, h⟩ := List.any_eq_true.1 h
  exact ⟨s, n, w, hs, hn, hw, h⟩

theorem employs_of_mem {s : Scheduler} {n : Session} {w : Worker} (hs : y.schedulers[i]? = some s)
    (hn : s.sessions[j]? = some n) (hw : w ∈ n.workers) : y.Employs i j w.executor :=
  ⟨s, n, hs, hn, List.mem_map_of_mem hw⟩

/-- Two workers that have the same executor are the same. -/
theorem Numbered.worker_eq {i' : SchedulerId} {j' : SessionId} {s s' : Scheduler} {n n' : Session}
    {w w' : Worker} (h : y.Numbered) (hs : y.schedulers[i]? = some s)
    (hn : s.sessions[j]? = some n) (hw : w ∈ n.workers) (hs' : y.schedulers[i']? = some s')
    (hn' : s'.sessions[j']? = some n') (hw' : w' ∈ n'.workers)
    (hexecutor : w'.executor = w.executor) : i' = i ∧ j' = j ∧ w' = w := by
  have hemploys : y.Employs i' j' w.executor := hexecutor ▸ employs_of_mem hs' hn' hw'
  obtain ⟨rfl, rfl⟩ := h.unique (employs_of_mem hs hn hw) hemploys
  obtain rfl := Option.some.inj (hs.symm.trans hs')
  obtain rfl := Option.some.inj (hn.symm.trans hn')
  exact ⟨rfl, rfl, List.inj_on_of_nodup_map (h.nodup hs hn) hw' hw hexecutor⟩

/-- A worker was there before the step, or the step has just admitted it. -/
theorem employs_of_step (h : y.step? a = some z) (he : z.Employs i j e) :
    y.Employs i j e ∨ (∃ choice, a = .move (.dispatch i j) choice) ∧ e = y.executors.size ∧
      z.executors.size = y.executors.size + 1 := by
  obtain ⟨s', n', hs', hn', he⟩ := he
  obtain ⟨s, n, hs, hn, -, x, hchange⟩ | rfl := session_of_step h hs' hn'
  · obtain hsub | ⟨ha, hnew, hsize⟩ := hchange.executors
    · exact .inl ⟨s, n, hs, hn, hsub.subset he⟩
    · rw [hnew, List.mem_append, List.mem_singleton] at he
      obtain he | rfl := he
      · exact .inl ⟨s, n, hs, hn, he⟩
      · exact .inr ⟨ha, rfl, hsize⟩
  · simp [Session.executors, Scheduler.Session.create] at he

theorem Numbered.step (hy : y.Numbered) (h : y.step? a = some z) : z.Numbered where
  nodup {i j s' n'} hs' hn' := by
    obtain ⟨s, n, hs, hn, -, x, hchange⟩ | rfl := session_of_step h hs' hn'
    · have hold := hy.nodup hs hn
      obtain hsub | ⟨-, hnew, -⟩ := hchange.executors
      · exact hsub.nodup hold
      · have hfresh : y.executors.size ∉ n.executors := fun hmem =>
          absurd (hy.lt ⟨s, n, hs, hn, hmem⟩) (Nat.lt_irrefl _)
        rw [hnew]
        refine List.nodup_append.2 ⟨hold, by simp, fun e he e' he' => ?_⟩
        rw [List.mem_singleton.1 he']
        exact fun heq => hfresh (heq ▸ he)
    · simp [Session.executors, Scheduler.Session.create]
  lt he := by
    have hsize := (proceeds_of_step h).executors_size
    obtain he | ⟨-, rfl, hnew⟩ := employs_of_step h he
    · exact Nat.lt_of_lt_of_le (hy.lt he) hsize
    · rw [hnew]
      exact Nat.lt_succ_self _
  unique {i i' j j' e} he he' := by
    obtain he | ⟨⟨choice, ha⟩, heq, -⟩ := employs_of_step h he <;>
      obtain he' | ⟨⟨choice', ha'⟩, heq', -⟩ := employs_of_step h he'
    · exact hy.unique he he'
    · exact absurd (heq' ▸ hy.lt he) (Nat.lt_irrefl _)
    · exact absurd (heq ▸ hy.lt he') (Nat.lt_irrefl _)
    · rw [ha] at ha'
      cases ha'
      exact ⟨rfl, rfl⟩
  starts_lt {e} he := by
    have hsize := (proceeds_of_step h).executors_size
    obtain he | ⟨-, hlends⟩ := (proceeds_of_step h).starts e he
    · exact Nat.lt_of_lt_of_le (hy.starts_lt he) hsize
    · exact Nat.lt_of_lt_of_le (lends_iff.1 hlends).1 hsize
  apart {i j e} hstarts he := by
    have hlt : e < y.executors.size ∧ ¬ y.Employs i j e := by
      obtain hstarts | ⟨-, hlends⟩ := (proceeds_of_step h).starts e hstarts
      · exact ⟨hy.starts_lt hstarts, hy.apart hstarts⟩
      · exact ⟨(lends_iff.1 hlends).1, (lends_iff.1 hlends).2 i j⟩
    obtain he | ⟨-, rfl, -⟩ := employs_of_step h he
    · exact hlt.2 he
    · exact absurd hlt.1 (Nat.lt_irrefl _)

theorem numbered_create (origin : Int) : (create origin).Numbered where
  nodup hs := by simp [create] at hs
  lt h := by
    obtain ⟨s, n, hs, -⟩ := h
    simp [create] at hs
  unique h := by
    obtain ⟨s, n, hs, -⟩ := h
    simp [create] at hs
  starts_lt h := by
    obtain ⟨k, c, point, hk⟩ := h
    simp [create] at hk
  apart h := by
    obtain ⟨k, c, point, hk⟩ := h
    simp [create] at hk

theorem ReachableBy.numbered {allowed : System → Step → Bool} (h : y.ReachableBy allowed) :
    y.Numbered := by
  induction h with
  | create origin => exact numbered_create origin
  | step _ _ hz ih => exact ih.step hz

end System

end Scheduling
