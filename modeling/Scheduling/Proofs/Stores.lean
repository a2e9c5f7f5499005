import Scheduling.Proofs.CronTables
import Scheduling.Proofs.Sessions
/-!
# The queue and the cron table in a step

What a step does to the queue and to the cron table of a scheduler is made of a few operations on
each. So what these operations preserve holds of the queue, or of the table, in all runs.
-/

namespace Scheduling

/-- What holds of the queue goes on to hold in the moves of a session if it survives the loss of a
key and a reset. -/
theorem Session.Change.queue_induction {y z : System} {a : Step} {i : SchedulerId}
    {j : SessionId} {s : Scheduler} {n n' : Session} {x : Scheduler.Stores}
    {P : Queue Plan → Prop} (h : n.Change y z a i j s x n') (hs : P s.queue)
    (herase : ∀ (q : Queue Plan) k, P q → P { q with entries := q.entries.erase k })
    (hreset : ∀ q, P q → P q.reset) : P x.queue := by
  cases h with
  | endFetch | giveUp => exact hreset _ hs
  | hold _ htake | send _ htake =>
      dsimp only
      rw [(Queue.mem_of_takeFirst htake).2]
      exact herase _ _ hs
  | _ => exact hs

namespace Scheduler

variable {y z : System} {a : Step} {i : SchedulerId} {j : SessionId} {s s' : Scheduler}

/-- The plans of a step that adds plans to the scheduler `i`. -/
def Adds (a : Step) (i : SchedulerId) (p : Plan) : Prop :=
  ∃ plans : List Plan, a = .request (.addPlans i plans) ∧ p ∈ plans

/-- The plans that a step may bring into the queue: those that it adds and what a timer fires. -/
def Brings (s : Scheduler) (a : Step) (i : SchedulerId) (p : Plan) : Prop :=
  Adds a i p ∨ ∃ (timer : Cron.TimerId) (live : Cron.Timer Plan),
    s.cron.timers.get? timer = some live ∧ live.payload = p

/-! ## The queue -/

section Queue

variable {P : Queue Plan → Prop}

theorem queue_foldl_register {plans : List Plan}
    (hpush : ∀ q p, p ∈ plans → P q → P (q.push [p])) (hs : P s.queue) :
    P (plans.foldl register s).queue := by
  refine List.foldlRecOn plans register (motive := fun s => P s.queue) hs fun s hs p hp => ?_
  unfold register
  split
  · exact hpush _ _ hp hs
  · split <;> exact hs

theorem Registration.queue_induction (h : s.Registration y a i s') (hs : P s.queue)
    (hpush : ∀ q p, s.Brings a i p → P q → P (q.push [p]))
    (herase : ∀ (q : Queue Plan) k, P q → P { q with entries := q.entries.erase k }) :
    P s'.queue := by
  cases h with
  | idle | unsupervise => exact hs
  | @add plans _ ha hadd =>
      rw [eq_foldl_of_add hadd]
      refine queue_foldl_register (fun q p hp => ?_) hs
      exact hpush q p (.inl ⟨plans, ha, (List.mem_filter.1 hp).1⟩)
  | @remove p =>
      have hqueue : P (s.unschedule p.key).queue := (queue_unschedule s p.key).symm ▸ hs
      exact herase _ _ hqueue
  | timer _ hadvance =>
      obtain ⟨fired, cron, hfired, rfl⟩ := advanceTimer_cases hadvance
      cases fired with
      | none => exact hs
      | some p =>
          obtain ⟨live, hlive, hpayload⟩ := Cron.Table.payload_of_advance hfired
          exact hpush _ _ (.inr ⟨_, live, hlive, hpayload⟩) hs

/-- What holds of the queue of a scheduler goes on to hold if it survives a push, the loss of a key
and a reset. -/
theorem Change.queue_induction (h : s.Change y z a i s') (hs : P s.queue)
    (hpush : ∀ q p, s.Brings a i p → P q → P (q.push [p]))
    (herase : ∀ (q : Queue Plan) k, P q → P { q with entries := q.entries.erase k })
    (hreset : ∀ q, P q → P q.reset) : P s'.queue := by
  obtain hreg | @⟨_, n, n', -, -, hn⟩ | ⟨-, -, rfl⟩ := h.outcome
  · exact hreg.queue_induction hs hpush herase
  · exact hn.queue_induction hs herase hreset
  · exact hs

end Queue

/-! ## The cron table -/

section Cron

variable {P : Cron.Table Plan → Prop}

theorem cron_register {p : Plan} (hadd : ∀ t schedule, P t → P (t.add schedule p).2)
    (hremove : ∀ t id, P t → P (t.remove id).2) (hs : P s.cron) : P (s.register p).cron := by
  unfold register
  split
  · exact hs
  · split
    · exact hs
    · dsimp only
      split
      · exact hremove _ _ (hadd _ _ hs)
      · exact hadd _ _ hs

theorem cron_foldl_register {plans : List Plan}
    (hadd : ∀ t schedule p, p ∈ plans → P t → P (t.add schedule p).2)
    (hremove : ∀ t id, P t → P (t.remove id).2) (hs : P s.cron) :
    P (plans.foldl register s).cron :=
  List.foldlRecOn plans register (motive := fun s => P s.cron) hs fun _ hs p hp =>
    cron_register (fun t schedule => hadd t schedule p hp) hremove hs

theorem Registration.cron_induction (h : s.Registration y a i s') (hs : P s.cron)
    (hadd : ∀ t schedule p, Adds a i p → P t → P (t.add schedule p).2)
    (hremove : ∀ t id, P t → P (t.remove id).2)
    (hadvance : ∀ timer choice fired t', a = .move (.planTimer i timer) choice →
      s.cron.advance y.clock timer = some (fired, t') → P t') :
    P s'.cron := by
  cases h with
  | idle | unsupervise => exact hs
  | @add plans _ ha hadds =>
      rw [eq_foldl_of_add hadds]
      refine cron_foldl_register (fun t schedule p hp => ?_) hremove hs
      exact hadd t schedule p ⟨plans, ha, (List.mem_filter.1 hp).1⟩
  | @remove p =>
      have hcron : P (s.unschedule p.key).cron := by
        unfold unschedule
        split
        · exact hremove _ _ hs
        · exact hs
      exact hcron
  | timer ha h =>
      obtain ⟨fired, cron, hfired, rfl⟩ := advanceTimer_cases h
      exact hadvance _ _ _ _ ha hfired

/-- What holds of the cron table of a scheduler goes on to hold if it survives the move of the
timer and all else that is done to such a table. -/
theorem Change.cron_induction (h : s.Change y z a i s') (hs : P s.cron)
    (hadd : ∀ t schedule p, Adds a i p → P t → P (t.add schedule p).2)
    (hremove : ∀ t id, P t → P (t.remove id).2)
    (hadvance : ∀ timer choice fired t', a = .move (.planTimer i timer) choice →
      s.cron.advance y.clock timer = some (fired, t') → P t')
    (hstart : ∀ t, P t → P t.start) (hclear : ∀ t, P t → P t.clear.stop) : P s'.cron := by
  obtain hreg | @⟨_, n, n', -, -, hn⟩ | ⟨-, -, rfl⟩ := h.outcome
  · exact hreg.cron_induction hs hadd hremove hadvance
  · have hcron : s'.stores.cron = s'.cron := rfl
    rw [← hcron]
    generalize s'.stores = x at hn
    cases hn with
    | stopAcquiring | stopReceiving => exact hclear _ hs
    | _ => exact hs
  · exact hstart _ hs

end Cron

/-- Apart from registrations and starts, the cron table and its keys stay as they are or are
cleared together. -/
theorem Change.catalogue_cases (h : s.Change y z a i s') :
    s.Registration y a i s' ∨ s'.cron = s.cron ∧ s'.cronIds = s.cronIds ∨
      s'.cron = s.cron.clear.stop ∧ s'.cronIds = Registry.empty ∨
      (∃ c, a = .request (.startScheduler i c)) ∧ s.running = false ∧
        s' = s.start y.contexts.nodes.size := by
  obtain hreg | ⟨-, -, hn⟩ | ⟨ha, hrun, hstart⟩ := h.outcome
  · exact .inl hreg
  · have hcron : s'.stores.cron = s'.cron := rfl
    have hids : s'.stores.cronIds = s'.cronIds := rfl
    rw [← hcron, ← hids]
    generalize s'.stores = x at hn
    cases hn with
    | stopAcquiring | stopReceiving => exact .inr (.inr (.inl ⟨rfl, rfl⟩))
    | _ => exact .inr (.inl ⟨rfl, rfl⟩)
  · exact .inr (.inr (.inr ⟨⟨_, ha⟩, hrun, hstart⟩))

end Scheduler

namespace Scheduler

/-- Every cron entry is the one that is known for the key of its plan. -/
def Indexed (s : Scheduler) : Prop :=
  ∀ (id : Cron.EntryId) (p : Plan), s.cron.payload? id = some p → s.cronIds.get? p.key = some id

section Indexed

variable {y z : System} {a : Step} {i : SchedulerId} {j : SessionId} {s s' : Scheduler}
  {n n' : Session}

/-- A plan that is registered takes the place of the entry of its key. -/
theorem Indexed.register (h : s.Indexed) (p : Plan) : (s.register p).Indexed := by
  unfold Scheduler.register
  split
  · exact h
  · split
    · exact h
    · rename_i schedule _
      intro id q hq
      dsimp only at hq ⊢
      have hnext : (s.cron.add schedule p).1 = s.cron.nextId := rfl
      rw [hnext, Registry.get?_insert]
      cases hprevious : s.cronIds.get? p.key with
      | none =>
          simp only [hprevious, Cron.Table.payload?_add] at hq
          split at hq
          · rename_i hid
            cases hq
            rw [if_pos rfl, hid]
          · have hindex := h id q hq
            have hne : q.key ≠ p.key := fun hkey => by
              rw [hkey, hprevious] at hindex
              cases hindex
            rw [if_neg hne, hindex]
      | some previous =>
          simp only [hprevious, Cron.Table.payload?_remove, Cron.Table.payload?_add] at hq
          split at hq
          · cases hq
          · rename_i hid
            split at hq
            · rename_i hnew
              cases hq
              rw [if_pos rfl, hnew]
            · have hindex := h id q hq
              have hne : q.key ≠ p.key := fun hkey => by
                rw [hkey, hprevious] at hindex
                exact hid (Option.some.inj hindex).symm
              rw [if_neg hne, hindex]

theorem Indexed.foldl_register (h : s.Indexed) (plans : List Plan) :
    (plans.foldl Scheduler.register s).Indexed :=
  List.foldlRecOn plans Scheduler.register h fun _ h p _ => h.register p

/-- No entry of a key is left when the key is taken off the schedule. -/
theorem Indexed.unschedule (h : s.Indexed) (key : String) :
    (s.unschedule key).Indexed ∧ (s.unschedule key).cronIds.get? key = none := by
  unfold Scheduler.unschedule
  split
  · rename_i id hid
    refine ⟨fun k q hq => ?_, by rw [Registry.get?_erase, if_pos rfl]⟩
    dsimp only at hq ⊢
    rw [Cron.Table.payload?_remove] at hq
    split at hq
    · cases hq
    · rename_i hk
      have hindex := h k q hq
      have hne : q.key ≠ key := fun hkey => by
        rw [hkey, hid] at hindex
        exact hk (Option.some.inj hindex).symm
      rw [Registry.get?_erase, if_neg hne, hindex]
  · rename_i hnone
    exact ⟨h, hnone⟩

theorem Registration.indexed (h : s.Registration y a i s') (hs : s.Indexed) : s'.Indexed := by
  cases h with
  | idle | unsupervise => exact hs
  | add _ hadd =>
      rw [eq_foldl_of_add hadd]
      exact hs.foldl_register _
  | remove => exact (hs.unschedule _).1
  | timer _ hadvance =>
      obtain ⟨fired, cron, hfired, rfl⟩ := advanceTimer_cases hadvance
      intro id q hq
      exact hs id q ((Cron.Table.payload?_advance hfired id).symm.trans hq)

theorem Change.indexed (h : s.Change y z a i s') (hs : s.Indexed) : s'.Indexed := by
  obtain hreg | ⟨hcron, hids⟩ | ⟨hcron, -⟩ | ⟨-, -, rfl⟩ := h.catalogue_cases
  · exact hreg.indexed hs
  · unfold Indexed
    rw [hcron, hids]
    exact hs
  · intro id q hq
    rw [hcron, Cron.Table.payload?_clear_stop] at hq
    cases hq
  · intro id q hq
    exact hs id q ((Cron.Table.payload?_start _ _).symm.trans hq)

end Indexed

end Scheduler

namespace System

/-- Every timer of a scheduler belongs to an entry of its cron table. -/
theorem ReachableBy.linked {allowed : System → Step → Bool} {y : System} {i : SchedulerId}
    {s : Scheduler} (h : y.ReachableBy allowed) (hs : y.schedulers[i]? = some s) :
    s.cron.Linked := by
  induction h generalizing s with
  | create origin => simp [System.create] at hs
  | step _ _ hz ih =>
      obtain ⟨s₀, hs₀, hchange⟩ | ⟨_, -, hb⟩ := change_of_step hz hs
      · exact hchange.cron_induction (ih hs₀) (fun _ schedule p _ ht => ht.add schedule p)
          (fun _ id ht => ht.remove id) (fun _ _ _ _ _ hadvance => (ih hs₀).advance hadvance)
          (fun _ ht => ht.start) fun _ ht => ht.idle_clear_stop.linked
      · rw [eq_create_of_build hb]
        exact Cron.Table.linked_create _

theorem ReachableBy.indexed {allowed : System → Step → Bool} {y : System} {i : SchedulerId}
    {s : Scheduler} (h : y.ReachableBy allowed) (hs : y.schedulers[i]? = some s) : s.Indexed := by
  induction h generalizing s with
  | create origin => simp [System.create] at hs
  | step _ _ hz ih =>
      obtain ⟨s₀, hs₀, hchange⟩ | ⟨_, -, hb⟩ := change_of_step hz hs
      · exact hchange.indexed (ih hs₀)
      · rw [eq_create_of_build hb]
        intro id q hq
        cases hq

end System

end Scheduling
