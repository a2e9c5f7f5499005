import Scheduling.Proofs.DispatchSequence
import Scheduling.Proofs.Executing
import Scheduling.System.Reports
/-!
# One worker for each key

A plan that is received while its key is executing is skipped. So no two workers of a scheduler run
plans of one key, whatever their sessions, and the entry of an executing key is that of its worker
from the admission of the plan to the end of its start call.
-/

namespace Scheduling

/-- What is known of the plan of a worker while it is executing. -/
def Worker.execution (w : Worker) : Execution := ⟨w.executor, w.context⟩

namespace Session

variable {y z : System} {a : Step} {i : SchedulerId} {j : SessionId} {s : Scheduler}
  {n n' : Session} {x : Scheduler.Stores}

/-- Only the worker of a key takes the key away. -/
theorem Change.executing_kept {key : String} {e : Execution} (h : n.Change y z a i j s x n')
    (he : s.executing.get? key = some e) :
    x.executing.get? key = some e ∨ ∃ w ∈ n.workers, w.key = key := by
  cases h with
  | @enter p _ _ _ hx =>
      have hne : key ≠ p.key := by
        rintro rfl
        simp [Scheduler.isExecuting, Registry.contains, he] at hx
      exact .inl (by rw [Registry.get?_insert, if_neg hne, he])
  | @endWorker w _ hw =>
      by_cases hkey : key = w.key
      · exact .inr ⟨w, hw, hkey.symm⟩
      · exact .inl (by rw [Registry.get?_erase, if_neg hkey, he])
  | _ => exact .inl he

/-- A session whose workers all are executing under their keys goes on like this. -/
theorem Change.enlisted (h : n.Change y z a i j s x n')
    (hn : ∀ w ∈ n.workers, s.executing.get? w.key = some w.execution) :
    ∀ w ∈ n'.workers, x.executing.get? w.key = some w.execution := by
  intro w hw
  cases h with
  | @enter p _ _ _ hx =>
      obtain hw | hw := List.mem_append.1 hw
      · have hne : w.key ≠ p.key := fun hkey => by
          simp [Scheduler.isExecuting, Registry.contains, ← hkey, hn w hw] at hx
        rw [Registry.get?_insert, if_neg hne, hn w hw]
      · obtain rfl := List.mem_singleton.1 hw
        exact (Registry.get?_insert _ _ _ _).trans (if_pos rfl)
  | @endWorker v _ hv =>
      obtain ⟨hw, hother⟩ := List.mem_filter.1 hw
      have hne : w.key ≠ v.key := fun hkey => by
        have hsame := hn w hw
        rw [hkey, hn v hv] at hsame
        have hexecutor : v.executor = w.executor :=
          congrArg Execution.executor (Option.some.inj hsame)
        simp [hexecutor] at hother
      rw [Registry.get?_erase, if_neg hne, hn w hw]
  | work =>
      obtain ⟨v, hv, rfl⟩ := List.mem_map.1 hw
      have hkept := hn v hv
      split <;> exact hkept
  | crashWorker => exact hn w (List.mem_filter.1 hw).1
  | _ => exact hn w hw

/-- The plan that a session receives was in its channel; it is skipped if its key is executing, and
then nothing around the session changes. -/
theorem Change.of_received {p : Plan} (h : n.Change y z a i j s x n')
    (hp : n.received n' = some p) :
    (s.isExecuting p.key = true ∧ x = s.stores ∧ n'.workers = n.workers ∧
        ∃ s₁, z = y.setScheduler i s₁) ∨
      s.isExecuting p.key = false ∧
        x.executing = s.executing.insert p.key ⟨y.executors.size, y.contexts.nodes.size⟩ ∧
        z.executors = y.executors.push (Executor.create p.task (p.options.getD s.defaults)) := by
  cases h with
  | skip hdispatch hslot hx hz =>
      simp only [received, DispatchPoint.receives, hdispatch, hslot] at hp
      cases hp
      exact .inl ⟨hx, rfl, rfl, _, hz⟩
  | enter hdispatch hslot hx _ _ hz =>
      simp only [received, DispatchPoint.receives, hdispatch, hslot] at hp
      cases hp
      exact .inr ⟨hx, rfl, hz⟩
  | openSlots hdispatch | crash hdispatch | acquire hdispatch | stopAcquiring hdispatch
  | stopReceiving hdispatch => simp [received, hdispatch, DispatchPoint.receives] at hp
  | _ => simp [received] at hp

end Session

namespace Scheduler

/-- All workers of a scheduler are executing under their keys, each with its executor and its
context. -/
def Enlists (s : Scheduler) : Prop :=
  ∀ (j : SessionId) (n : Session), s.sessions[j]? = some n →
    ∀ w ∈ n.workers, s.executing.get? w.key = some w.execution

/-- What does not change of the session that changes is the same of all sessions. -/
theorem Edits.map_eq {α : Type} {s s' : Scheduler} {j : SessionId} {n n' : Session}
    {f : Session → α} (h : s.Edits s' j n n') (hf : f n' = f n) (k : SessionId) :
    s'.sessions[k]?.map f = s.sessions[k]?.map f := by
  by_cases hk : j = k
  · subst hk
    rw [h.after, h.before, Option.map_some, Option.map_some, hf]
  · rw [h.sessions, Array.getElem?_setIfInBounds, if_neg hk]

theorem mem_workerKeys {s : Scheduler} {key : String} :
    key ∈ s.workerKeys ↔ ∃ (j : SessionId) (n : Session) (w : Worker),
      s.sessions[j]? = some n ∧ w ∈ n.workers ∧ w.key = key := by
  unfold workerKeys Session.keys
  simp only [List.mem_flatMap, List.mem_map, Array.mem_toList_iff, Array.mem_iff_getElem?]
  constructor
  · rintro ⟨n, ⟨j, hn⟩, w, hw, hkey⟩
    exact ⟨j, n, w, hn, hw, hkey⟩
  · rintro ⟨j, n, w, hn, hw, hkey⟩
    exact ⟨n, ⟨j, hn⟩, w, hw, hkey⟩

end Scheduler

namespace System

variable {y z : System} {a : Step} {i : SchedulerId} {j : SessionId} {s s' : Scheduler}
  {n n' : Session} {p : Plan} {allowed : System → Step → Bool}

theorem enlists_of_edit (hy : y.Numbered) (hs : y.schedulers[i]? = some s) (h : s.Enlists)
    (hedit : s.Edits s' j n n') (hchange : n.Change y z a i j s s'.stores n') : s'.Enlists := by
  intro k m hm w hw
  obtain ⟨rfl, rfl⟩ | ⟨hk, hkept⟩ := hedit.session hm
  · exact hchange.enlisted (h k n hedit.before) w hw
  · have hlisted := h k m hkept w hw
    obtain hlisted' | ⟨v, hv, hkey⟩ := hchange.executing_kept hlisted
    · exact hlisted'
    · -- A worker of another session has another executor, so it is not the one that ends.
      have hsame := h j n hedit.before v hv
      rw [hkey, hlisted] at hsame
      have hexecutor : w.executor = v.executor :=
        congrArg Execution.executor (Option.some.inj hsame)
      exact absurd (hy.worker_eq hs hedit.before hv hs hkept hw hexecutor).2.1 hk

theorem ReachableBy.enlists (h : y.ReachableBy allowed) (hs : y.schedulers[i]? = some s) :
    s.Enlists := by
  induction h generalizing s with
  | create origin => simp [System.create] at hs
  | step h _ hz ih =>
      obtain ⟨s₀, hs₀, hchange⟩ | ⟨b, -, hb⟩ := change_of_step hz hs
      · obtain hreg | ⟨-, hedit, hn⟩ | ⟨-, -, rfl⟩ := hchange.outcome
        · intro j n hn
          rw [hreg.registers.sessions] at hn
          rw [hreg.registers.executing]
          exact ih hs₀ j n hn
        · exact enlists_of_edit h.numbered hs₀ (ih hs₀) hedit hn
        · intro j n hn w hw
          simp only [Scheduler.start, Array.getElem?_push] at hn
          split at hn
          · cases hn
            cases hw
          · exact ih hs₀ j n hn w hw
      · intro j n hn
        rw [sessions_of_build hb] at hn
        simp at hn

/-- A scheduler has one worker for each key. -/
theorem ReachableBy.worker_eq_of_key {j' : SessionId} {w w' : Worker}
    (h : y.ReachableBy allowed) (hs : y.schedulers[i]? = some s) (hn : s.sessions[j]? = some n)
    (hw : w ∈ n.workers) (hn' : s.sessions[j']? = some n') (hw' : w' ∈ n'.workers)
    (hkey : w.key = w'.key) : w = w' := by
  have hlisted := h.enlists hs j n hn w hw
  have hlisted' := h.enlists hs j' n' hn' w' hw'
  rw [hkey, hlisted'] at hlisted
  have hexecutor : w'.executor = w.executor :=
    congrArg Execution.executor (Option.some.inj hlisted)
  obtain ⟨-, -, hsame⟩ := h.numbered.worker_eq hs hn hw hs hn' hw' hexecutor
  exact hsame.symm

/-- Whether a step does not end the start call of a worker of the scheduler `i` by a panic. -/
def sparesWorkers (i : SchedulerId) (y : System) (a : Step) : Bool :=
  match a with
  | .move (.worker _ j _) _ => !y.crashesWorker i j a
  | _ => true

theorem crashesWorker_of_spares (h : sparesWorkers i y a = true) (j : SessionId) :
    y.crashesWorker i j a = false := by
  cases a with
  | move actor choice =>
      cases actor with
      | worker i' j' e =>
          by_cases hj : j' = j
          · subst hj
            simpa [sparesWorkers] using h
          · simp [crashesWorker, hj]
      | _ => rfl
  | _ => rfl

/-- What a step does in which a session receives a plan. -/
theorem of_mem_seeReception (h : y.step? a = some z) (hs : y.schedulers[i]? = some s)
    (hp : p ∈ seeReception i j y a z) :
    ∃ (s' : Scheduler) (n n' : Session), z.schedulers[i]? = some s' ∧ s.Edits s' j n n' ∧
      n.Change y z a i j s s'.stores n' ∧ n.received n' = some p := by
  unfold seeReception at hp
  split at hp
  · rename_i n n' hn hn'
    have hreceived : n.received n' = some p := by simpa using hp
    obtain ⟨s₀, hs₀, hget⟩ := session?_eq_some_iff.1 hn
    obtain rfl := Option.some.inj (hs.symm.trans hs₀)
    obtain ⟨s', hs', hchange⟩ := exists_change_of_step h hs
    obtain ⟨s₁, hs₁, hget'⟩ := session?_eq_some_iff.1 hn'
    obtain rfl := Option.some.inj (hs'.symm.trans hs₁)
    obtain hreg | ⟨-, hedit, hm⟩ | ⟨-, -, rfl⟩ := hchange.outcome
    · rw [hreg.registers.sessions, hget] at hget'
      cases hget'
      simp [Session.received] at hreceived
    · obtain ⟨rfl, rfl⟩ | ⟨-, hkept⟩ := hedit.session hget'
      · obtain rfl := Option.some.inj (hget.symm.trans hedit.before)
        exact ⟨s', _, _, hs', hedit, hm, hreceived⟩
      · obtain rfl := Option.some.inj (hget.symm.trans hkept)
        simp [Session.received] at hreceived
    · have hlt := (Array.getElem?_eq_some_iff.1 hget).1
      simp only [Scheduler.start, Array.getElem?_push, Nat.ne_of_lt hlt, if_false, hget] at hget'
      cases hget'
      simp [Session.received] at hreceived
  · cases hp

/-- As long as no worker of a scheduler panics, each key has at most one worker in all sessions, and
is executing exactly while it has one, under the executor and the context of that worker. A plan
that is received while its key is executing starts no run and changes neither the entry of the key
nor what is reported of it, nor any worker; any other plan that is received is admitted. -/
theorem key_excludes (h : y.ReachableBy (sparesWorkers i)) (hs : y.schedulers[i]? = some s) :
    (∀ key, s.workerKeys.count key ≤ 1) ∧
      (∀ (key : String) (x : Execution), s.executing.get? key = some x ↔
        ∃ (j : SessionId) (n : Session) (w : Worker), s.sessions[j]? = some n ∧ w ∈ n.workers ∧
          w.key = key ∧ x = ⟨w.executor, w.context⟩) ∧
      ∀ (a : Step) (z : System) (j : SessionId) (p : Plan), y.step? a = some z →
        p ∈ seeReception i j y a z →
        ∃ s' : Scheduler, z.schedulers[i]? = some s' ∧
          (s.isExecuting p.key = true →
            z.runs = y.runs ∧ z.tasks = y.tasks ∧ z.executors = y.executors ∧
            z.contexts = y.contexts ∧ s'.executing = s.executing ∧
            (∀ key, z.planStats i key = y.planStats i key) ∧
            ∀ k : SessionId,
              s'.sessions[k]?.map Session.workers = s.sessions[k]?.map Session.workers) ∧
          (s.isExecuting p.key = false →
            s'.executing.get? p.key = some ⟨y.executors.size, y.contexts.nodes.size⟩ ∧
            z.executors =
              y.executors.push (Executor.create p.task (p.options.getD s.defaults))) := by
  have hlists := h.lists hs
  have henlists := h.enlists hs
  refine ⟨fun key => List.nodup_iff_count_le_one.1 hlists.nodup key,
    fun key x => ⟨fun hx => ?_, ?_⟩, fun a z j p hz hp => ?_⟩
  · have horphans := h.orphans_eq_nil (fun _ _ => crashesWorker_of_spares) hs
    have hkey : key ∈ s.executing.keys :=
      Registry.contains_iff_mem_keys.1 (by simp [Registry.contains, hx])
    have howned : key ∈ s.workerKeys := by
      simpa using List.filter_eq_nil_iff.1 horphans key hkey
    obtain ⟨j, n, w, hn, hw, rfl⟩ := Scheduler.mem_workerKeys.1 howned
    have hlisted := henlists j n hn w hw
    exact ⟨j, n, w, hn, hw, rfl, Option.some.inj (hx.symm.trans hlisted)⟩
  · rintro ⟨j, n, w, hn, hw, rfl, rfl⟩
    exact henlists j n hn w hw
  · obtain ⟨s', n, n', hs', hedit, hchange, hreceived⟩ := of_mem_seeReception hz hs hp
    have hcases := hchange.of_received hreceived
    refine ⟨s', hs', fun hx => ?_, fun hx => ?_⟩
    · rw [hx] at hcases
      obtain ⟨-, hstores, hworkers, s₁, rfl⟩ | ⟨hfalse, -⟩ := hcases
      · have hexecuting : s'.executing = s.executing := congrArg Scheduler.Stores.executing hstores
        refine ⟨rfl, rfl, rfl, rfl, hexecuting, fun key => ?_, fun k => ?_⟩
        · simp only [planStats, hs', hs, Option.bind_eq_bind, Option.bind_some, hexecuting]
          rfl
        · exact hedit.map_eq hworkers k
      · cases hfalse
    · rw [hx] at hcases
      obtain ⟨htrue, -⟩ | ⟨-, hinsert, hpush⟩ := hcases
      · cases htrue
      · have hexecuting : s'.executing =
            s.executing.insert p.key ⟨y.executors.size, y.contexts.nodes.size⟩ := hinsert
        exact ⟨by rw [hexecuting, Registry.get?_insert, if_pos rfl], hpush⟩

/-- A session stops while a body of it sleeps on, and the next session is about to receive a plan of
another task with the same identifier. -/
def sameKeyRun : System :=
  (create 0).run (sparesWorkers 0)
    [.request .newContext, .request (.newTask "a" [] fun _ => [.rawSleep (Duration.ofSeconds 10)]),
      .request (.newTask "a" [] fun _ => []), .request (.newScheduler ⟨1, .localTime, {}⟩),
      .request (.addPlans 0 [⟨0, "a", ⟨0⟩, 0, none, 0, false, none⟩]),
      .request (.startScheduler 0 0), .move (.fetch 0 0) 0, .move (.fetch 0 0) 0,
      .move (.dispatch 0 0) 0, .move (.dispatch 0 0) 0, .move (.dispatch 0 0) 0,
      .move (.worker 0 0 0) 0, .move (.run 0) 0, .move (.run 0) 0,
      .request (.call (.stopScheduler 0 true)), .move (.call 0) 0, .move (.fetch 0 0) 0,
      .move (.dispatch 0 0) 0, .move (.supervisor 0 0) 0,
      .request (.addPlans 0 [⟨1, "a", ⟨0⟩, 0, none, 0, false, none⟩]),
      .request (.startScheduler 0 0), .move (.fetch 0 1) 0, .move (.fetch 0 1) 0,
      .move (.dispatch 0 1) 0, .move (.dispatch 0 1) 0]

/-- The second plan is received, and the worker of the first session goes on alone. -/
theorem key_excludes_sameKeyRun :
    ∃ (s : Scheduler) (z : System) (p : Plan), sameKeyRun.schedulers[0]? = some s ∧
      sameKeyRun.step? (.move (.dispatch 0 1) 0) = some z ∧
      p ∈ seeReception 0 1 sameKeyRun (.move (.dispatch 0 1) 0) z ∧ p.task = 1 ∧
      s.isExecuting p.key = true ∧ s.workerKeys.count p.key ≤ 1 ∧ z.runs = sameKeyRun.runs ∧
      z.planStats 0 p.key = sameKeyRun.planStats 0 p.key := by
  have hrun : (sameKeyRun.schedulers[0]?.any fun s =>
      (sameKeyRun.step? (.move (.dispatch 0 1) 0)).any fun z =>
        (seeReception 0 1 sameKeyRun (.move (.dispatch 0 1) 0) z).any fun p =>
          p.task == 1 && s.isExecuting p.key) = true := by decide +kernel
  obtain ⟨s, hs, hrun⟩ := (Option.any_eq_true _ _).1 hrun
  obtain ⟨z, hz, hrun⟩ := (Option.any_eq_true _ _).1 hrun
  obtain ⟨p, hp, hrun⟩ := List.any_eq_true.1 hrun
  obtain ⟨htask, hx⟩ := Bool.and_eq_true_iff.1 hrun
  obtain ⟨hcount, -, hreceive⟩ := key_excludes ((ReachableBy.create 0).run _) hs
  obtain ⟨s', -, hskip, -⟩ := hreceive _ z 1 p hz hp
  obtain ⟨hruns, -, -, -, -, hstats, -⟩ := hskip hx
  exact ⟨s, z, p, hs, hz, hp, beq_iff_eq.1 htask, hx, hcount _, hruns, hstats _⟩

end System

end Scheduling
