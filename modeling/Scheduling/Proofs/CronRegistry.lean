import Scheduling.Proofs.Additions
import Scheduling.Proofs.Leftovers
/-!
# The cron entries of a scheduler in all runs

Between any two steps the keys of a scheduler, the entries of its cron table and the timers of these
entries belong together. A timer whose entry is gone never goes on, and what a timer fires is the
plan that was last added with a schedule for its key.
-/

namespace Scheduling

namespace Scheduler

variable {y z : System} {a : Step} {i : SchedulerId} {s s' : Scheduler} {id : Cron.EntryId}
  {timer : Cron.TimerId} {spent : List Cron.TimerId} {plans seen : List Plan} {key : String}

/-- Keys, entries and timers belong together, where the timers of a list have found no next slot. -/
structure CronConsistent (s : Scheduler) (spent : List Cron.TimerId) : Prop where
  injective : ∀ (key k : String) (id : Cron.EntryId), s.cronIds.get? key = some id →
    s.cronIds.get? k = some id → key = k
  known : ∀ id, s.cron.entries.contains id = true ↔ ∃ key, s.cronIds.get? key = some id
  size : s.scheduled = s.cron.size
  /-- A live timer is the only one of one entry. -/
  owner : ∀ timer, s.cron.timers.contains timer = true → ∃! id, s.cron.Holds id timer
  idle : s.cron.running = false → s.cron.timers = Registry.empty
  ready : s.cron.running = true → ∀ id, s.cron.entries.contains id = true →
    ∃ timer, s.cron.Holds id timer ∧ (s.cron.timers.contains timer = true ∨ timer ∈ spent)

theorem Catalogued.consistent (h : s.Catalogued) (harmed : s.cron.Armed)
    (hserved : s.cron.Served spent) : s.CronConsistent spent := by
  refine ⟨fun _ _ _ => h.listed.injective, fun _ => h.contains_iff, h.scheduled_eq,
    fun timer hlive => ?_, fun hidle => ?_, fun hrunning id hid => ?_⟩
  · obtain ⟨live, hlive⟩ := Option.isSome_iff_exists.1 hlive
    obtain ⟨id, e, he, htimer, -⟩ := h.linked.held timer live hlive
    exact ⟨id, ⟨e, he, htimer⟩, fun k hk => harmed.unique hk ⟨e, he, htimer⟩⟩
  · refine Registry.eq_empty_iff.2 fun timer => ?_
    cases hlive : s.cron.timers.get? timer with
    | none => rfl
    | some live =>
        obtain ⟨id, e, he, htimer, -⟩ := h.linked.held timer live hlive
        exact absurd ⟨e, he, htimer⟩ (harmed.idle hidle id timer)
  · obtain ⟨e, he⟩ := Option.isSome_iff_exists.1 hid
    cases htimer : e.timer with
    | none => exact absurd ⟨e, he, htimer⟩ (harmed.ready hrunning id)
    | some timer =>
        have hheld : s.cron.Holds id timer := ⟨e, he, htimer⟩
        exact ⟨timer, hheld, hserved id timer hheld⟩

/-! ## Timers -/

theorem Change.armed (h : s.Change y z a i s') (hs : s.cron.Armed) : s'.cron.Armed :=
  h.cron_induction hs (fun _ schedule p _ ht => ht.add schedule p) (fun _ id ht => ht.remove id)
    (fun _ _ _ _ _ hadvance => hs.advance hadvance) (fun _ ht => ht.start)
    fun _ _ => Cron.Table.armed_of_empty rfl

theorem Change.retired (h : s.Change y z a i s') (hs : s.cron.Retired timer) :
    s'.cron.Retired timer :=
  h.cron_induction hs (fun _ schedule p _ ht => ht.add schedule p) (fun _ id ht => ht.remove id)
    (fun _ _ _ _ _ hadvance => hs.advance hadvance) (fun _ ht => ht.start)
    fun _ ht => ht.clear_stop

theorem Change.follows (h : s.Change y z a i s') (hlinked : s.cron.Linked)
    (howned : s.cron.Armed) (hs : s.cron.Follows id timer) : s'.cron.Follows id timer := by
  have hall : (s'.cron.Linked ∧ s'.cron.Armed) ∧ s'.cron.Follows id timer :=
    h.cron_induction (P := fun t => (t.Linked ∧ t.Armed) ∧ t.Follows id timer)
      ⟨⟨hlinked, howned⟩, hs⟩
      (fun _ schedule p _ ht =>
        ⟨⟨ht.1.1.add schedule p, ht.1.2.add schedule p⟩, ht.2.add ht.1.1 schedule p⟩)
      (fun _ k ht => ⟨⟨ht.1.1.remove k, ht.1.2.remove k⟩, ht.2.remove ht.1.2.toOwned k⟩)
      (fun _ _ _ _ _ hadvance =>
        ⟨⟨hlinked.advance hadvance, howned.advance hadvance⟩, hs.advance hadvance⟩)
      (fun _ ht => ⟨⟨ht.1.1.start, ht.1.2.start⟩, ht.2.start⟩)
      fun _ ht => ⟨⟨ht.1.1.idle_clear_stop.linked, Cron.Table.armed_of_empty rfl⟩,
        ht.2.clear_stop ht.1.1 ht.1.2.toOwned⟩
  exact hall.2

/-! ## Plans that were added -/

/-- Every cron entry was made for the plan that was last added with a schedule for its key. -/
def Recorded (s : Scheduler) (seen : List Plan) : Prop :=
  ∀ (key : String) (id : Cron.EntryId) (p : Plan), s.cronIds.get? key = some id →
    s.cron.payload? id = some p → lastOf? true seen key = some p

theorem Recorded.of_fewer (hs : s.Recorded seen)
    (hids : ∀ key id, s'.cronIds.get? key = some id → s.cronIds.get? key = some id)
    (hcron : ∀ id p, s'.cron.payload? id = some p → s.cron.payload? id = some p) :
    s'.Recorded seen :=
  fun key id p hid hp => hs key id p (hids key id hid) (hcron id p hp)

theorem Recorded.add (hs : s.Recorded seen) (hcatalogued : s.Catalogued)
    (h : s.add plans = .ok s') : s'.Recorded (seen ++ plans) := by
  intro key id p hid hp
  have hadded := added_of_add hcatalogued h key
  rw [lastOf?_append]
  cases hlast : lastOf? true plans key with
  | some q =>
      obtain ⟨_, _, _, -, -, hentry⟩ := hadded.scheduled q hlast
      rw [payload?_of_entryOf? hid hentry] at hp
      exact hp
  | none =>
      obtain ⟨hids, hentry⟩ := hadded.kept hlast
      rw [hid] at hids
      obtain ⟨e, he, -⟩ := hcatalogued.listed.entryOf? hids.symm
      rw [payload?_of_entryOf? hid (hentry.trans he)] at hp
      rw [Option.none_or]
      exact hs key id p hids.symm ((payload?_of_entryOf? hids.symm he).trans hp)

theorem Recorded.unschedule (hs : s.Recorded seen) (key : String) :
    (s.unschedule key).Recorded seen := by
  unfold Scheduler.unschedule
  split
  · refine hs.of_fewer (fun k id hk => ?_) fun id p hp => ?_
    · dsimp only at hk
      rw [Registry.get?_erase] at hk
      split at hk
      · cases hk
      · exact hk
    · dsimp only at hp
      rw [Cron.Table.payload?_remove] at hp
      split at hp
      · cases hp
      · exact hp
  · exact hs

end Scheduler

namespace System

open Scheduler

variable {allowed : System → Step → Bool} {y z : System} {a : Step} {i : SchedulerId}
  {s s' : Scheduler} {id : Cron.EntryId} {timer : Cron.TimerId}

/-- The timer of the scheduler `i` that finds no next slot in a step. -/
def seeExhaustion (i : SchedulerId) (y : System) (a : Step) (_ : System) : List Cron.TimerId :=
  match a with
  | .move (.planTimer i' timer) _ =>
    if i' = i && y.schedulers[i]?.any fun s => s.cron.exhausts y.clock timer then [timer] else []
  | _ => []

/-- The plans that are added to the scheduler `i` in a step. -/
def seeAddition (i : SchedulerId) (y : System) (a : Step) (_ : System) : List Plan :=
  match a with
  | .request (.addPlans i' plans) =>
    if i' = i && (y.addPlans i plans).toOption.isSome then plans else []
  | _ => []

theorem ReachableBy.armed (h : y.ReachableBy allowed) (hs : y.schedulers[i]? = some s) :
    s.cron.Armed := by
  induction h generalizing s with
  | create origin => simp [System.create] at hs
  | step _ _ hz ih =>
      obtain ⟨s₀, hs₀, hchange⟩ | ⟨_, -, hb⟩ := change_of_step hz hs
      · exact hchange.armed (ih hs₀)
      · rw [eq_create_of_build hb]
        exact Cron.Table.armed_of_empty rfl

/-- An entry of a running table has a live timer, or one that has found no next slot. -/
theorem served_of_run (origin : Int) (steps : List Step)
    (hs : ((create origin).run allowed steps).schedulers[i]? = some s) :
    s.cron.Served ((create origin).observe allowed (seeExhaustion i) steps) := by
  refine observe_induction_scheduler (P := fun s spent => s.cron.Served spent)
    (fun _ _ _ _ _ _ hk => ?_) (fun y a z s s' spent hy _ _ hs _ hchange hserved => ?_)
    origin steps hs
  · obtain ⟨e, he, -⟩ := hk
    cases he
  · have hmono : s.cron.Served (spent ++ seeExhaustion i y a z) :=
      fun id timer hk => (hserved id timer hk).imp_right (List.mem_append_left _)
    have hall := hchange.cron_induction
      (P := fun t => t.Armed ∧ t.Served (spent ++ seeExhaustion i y a z)) ⟨hy.armed hs, hmono⟩
      (fun _ schedule p _ ht => ⟨ht.1.add schedule p, ht.2.add ht.1.toOwned schedule p⟩)
      (fun _ k ht => ⟨ht.1.remove k, ht.2.remove ht.1.toOwned k⟩)
      (fun timer choice _ _ ha hadvance => ⟨(hy.armed hs).advance hadvance, ?_⟩)
      (fun _ ht => ⟨ht.1.start, ht.2.start ht.1.toOwned⟩)
      fun _ _ => ⟨Cron.Table.armed_of_empty rfl, Cron.Table.served_clear_stop⟩
    · exact hall.2
    · subst ha
      have hsee : seeExhaustion i y (.move (.planTimer i timer) choice) z =
          if s.cron.exhausts y.clock timer then [timer] else [] := by
        simp [seeExhaustion, hs]
      rw [hsee]
      exact hserved.advance hadvance

/-- Plans that are added are seen, and only those. -/
theorem add_of_step {plans : List Plan} (h : y.step? (.request (.addPlans i plans)) = some z)
    (hs : y.schedulers[i]? = some s) (hs' : z.schedulers[i]? = some s') :
    s.add plans = .ok s' ∧ seeAddition i y (.request (.addPlans i plans)) z = plans ∨
      s' = s ∧ seeAddition i y (.request (.addPlans i plans)) z = [] := by
  obtain ⟨-, rfl⟩ := step_request_iff.1 h
  cases hadd : s.add plans with
  | error e =>
      have herror : y.addPlans i plans = .error e := by simp only [addPlans, hs, hadd]
      simp only [carryOut, herror] at hs'
      refine .inr ⟨Option.some.inj (hs'.symm.trans hs), ?_⟩
      simp [seeAddition, herror, Except.toOption]
  | ok u =>
      have hok : y.addPlans i plans = .ok (y.setScheduler i u) := by
        simp only [addPlans, hs, hadd]
      simp only [carryOut, hok, Except.toOption, Option.getD_some, setScheduler,
        Array.getElem?_modify, if_pos, hs, Option.map_some] at hs'
      cases hs'
      refine .inl ⟨rfl, ?_⟩
      simp [seeAddition, hok, Except.toOption]

theorem seeAddition_eq_nil (h : ∀ plans, a ≠ .request (.addPlans i plans)) :
    seeAddition i y a z = [] := by
  unfold seeAddition
  split
  · rename_i k plans
    split
    · rename_i hk
      simp only [Bool.and_eq_true, decide_eq_true_eq] at hk
      exact absurd (hk.1 ▸ rfl) (h plans)
    · rfl
  · rfl

/-- What the entry of a key gives out is the plan that was last added with a schedule for it. -/
theorem recorded_of_run (origin : Int) (steps : List Step)
    (hs : ((create origin).run allowed steps).schedulers[i]? = some s) :
    s.Recorded ((create origin).observe allowed (seeAddition i) steps) := by
  refine observe_induction_scheduler (P := fun s seen => s.Recorded seen)
    (fun _ _ _ _ _ _ _ hk _ => by cases hk)
    (fun y a z s s' seen hy _ hz hs hs' hchange hrecorded => ?_) origin steps hs
  by_cases hadds : ∃ plans, a = .request (.addPlans i plans)
  · obtain ⟨plans, rfl⟩ := hadds
    obtain ⟨hadd, hsee⟩ | ⟨rfl, hsee⟩ := add_of_step hz hs hs'
    · rw [hsee]
      exact hrecorded.add (hy.catalogued hs) hadd
    · rw [hsee, List.append_nil]
      exact hrecorded
  · have hother (plans : List Plan) : a ≠ .request (.addPlans i plans) :=
      fun ha => hadds ⟨plans, ha⟩
    rw [seeAddition_eq_nil hother, List.append_nil]
    obtain hreg | ⟨hcron, hids⟩ | ⟨-, hids⟩ | ⟨-, -, rfl⟩ := hchange.catalogue_cases
    · cases hreg with
      | idle | unsupervise => exact hrecorded
      | add ha => exact absurd ha (hother _)
      | remove => exact hrecorded.unschedule _
      | timer _ hadvance =>
          obtain ⟨fired, cron, hfired, rfl⟩ := advanceTimer_cases hadvance
          exact hrecorded.of_fewer (fun _ _ hid => hid) fun id p hp =>
            (Cron.Table.payload?_advance hfired id).symm.trans hp
    · exact hrecorded.of_fewer (fun _ _ hid => hids ▸ hid) fun _ _ hp => hcron ▸ hp
    · intro key id p hid
      rw [hids] at hid
      cases hid
    · exact hrecorded.of_fewer (fun _ _ hid => hid) fun id p hp =>
        (Cron.Table.payload?_start _ id).symm.trans hp

/-! ## Entries that are gone -/

theorem follows_of_run (hy : y.Reachable) (hs : y.schedulers[i]? = some s)
    (hheld : s.cron.Holds id timer) (allowed : System → Step → Bool) (steps : List Step) :
    ∃ s' : Scheduler, (y.run allowed steps).schedulers[i]? = some s' ∧
      s'.cron.Follows id timer := by
  have hrun : (y.run allowed steps).Reachable ∧
      ∃ s' : Scheduler, (y.run allowed steps).schedulers[i]? = some s' ∧
        s'.cron.Follows id timer := by
    refine run_induction (P := fun y => y.Reachable ∧
      ∃ s : Scheduler, y.schedulers[i]? = some s ∧ s.cron.Follows id timer)
      (fun y a z _ hz hy => ?_) ⟨hy, s, hs, .inl hheld⟩ steps
    obtain ⟨hreach, s, hs, hfollows⟩ := hy
    obtain ⟨s', hs', hchange⟩ := exists_change_of_step hz hs
    exact ⟨.step hreach rfl hz, s', hs',
      hchange.follows (hreach.linked hs) (hreach.armed hs) hfollows⟩
  exact hrun.2

theorem retired_of_run (hs : y.schedulers[i]? = some s) (hretired : s.cron.Retired timer)
    (allowed : System → Step → Bool) (steps : List Step) :
    ∃ s' : Scheduler, (y.run allowed steps).schedulers[i]? = some s' ∧ s'.cron.Retired timer := by
  refine run_induction (P := fun y => ∃ s : Scheduler,
    y.schedulers[i]? = some s ∧ s.cron.Retired timer) (fun y a z _ hz hy => ?_)
    ⟨s, hs, hretired⟩ steps
  obtain ⟨s, hs, hretired⟩ := hy
  obtain ⟨s', hs', hchange⟩ := exists_change_of_step hz hs
  exact ⟨s', hs', hchange.retired hretired⟩

/-- A timer that an entry held goes on no more once the entry is gone. -/
theorem step?_of_gone (hy : y.Reachable) (hs : y.schedulers[i]? = some s)
    (hheld : s.cron.Holds id timer) {rest : List Step}
    (hs' : (y.run allowed rest).schedulers[i]? = some s')
    (hgone : s'.cron.entries.get? id = none) (later : List Step) (choice : Nat) :
    ((y.run allowed rest).run allowed later).step? (.move (.planTimer i timer) choice) = none := by
  obtain ⟨s₁, hs₁, hfollows⟩ := follows_of_run hy hs hheld allowed rest
  obtain rfl := Option.some.inj (hs₁.symm.trans hs')
  have hretired : s₁.cron.Retired timer := by
    obtain ⟨e, he, -⟩ | hretired := hfollows
    · rw [hgone] at he
      cases he
    · exact hretired
  obtain ⟨s₂, hs₂, hretired⟩ := retired_of_run hs' hretired allowed later
  generalize (y.run allowed rest).run allowed later = z at hs₂
  have hnone : s₂.advanceTimer z.clock timer = none := by
    unfold advanceTimer
    rw [hretired.advance_eq_none]
  simp only [step?, moves, planTimerMoves, hs₂, Option.bind_some, hnone, List.getElem?_nil]

/-! ## Firings -/

/-- What fires is queued, and is what the entry of its key gives out. -/
theorem push_of_mem_seeFiring {p : Plan} (hy : y.ReachableBy allowed)
    (hs : y.schedulers[i]? = some s) (h : y.step? a = some z) (hp : p ∈ seeFiring i y a z) :
    (∃ s' : Scheduler, z.schedulers[i]? = some s' ∧ s'.queue = s.queue.push [p]) ∧
      ∃ id, s.cronIds.get? p.key = some id ∧ s.cron.payload? id = some p := by
  have htimer : ∃ timer choice, a = .move (.planTimer i timer) choice := by
    by_contra hno
    rw [seeFiring_eq_nil fun timer choice ha => hno ⟨timer, choice, ha⟩] at hp
    cases hp
  obtain ⟨timer, choice, rfl⟩ := htimer
  obtain ⟨s', hs', -⟩ := exists_change_of_step h hs
  obtain ⟨fired, cron, hfired, rfl⟩ := advanceTimer_cases (advanceTimer_of_step h hs hs')
  simp only [seeFiring, if_pos, hs, Option.bind_some, hfired] at hp
  cases fired with
  | none => cases hp
  | some q =>
      obtain rfl := List.mem_singleton.1 hp
      obtain ⟨live, hlive, hpayload⟩ := Cron.Table.payload_of_advance hfired
      obtain ⟨id, e, he, -, hentry⟩ := (hy.linked hs).held timer live hlive
      have hid : s.cron.payload? id = some p := by
        rw [Cron.Table.payload?, he, Option.map_some, hentry, hpayload]
      exact ⟨⟨_, hs', rfl⟩, id, hy.indexed hs id p hid, hid⟩

/-- Between any two steps the keys, the entries and the timers of a scheduler belong together, where
every entry of a running table has a live timer or one that has found no next slot. The timers of an
entry that is gone never go on. What fires is queued and is the plan that was last added with a
schedule for its key. -/
theorem cron_registry_consistent (origin : Int) (steps : List Step)
    (hy : (create origin).run (fun _ _ => true) steps = y) (hs : y.schedulers[i]? = some s) :
    s.CronConsistent ((create origin).observe (fun _ _ => true) (seeExhaustion i) steps) ∧
      (∀ (past rest : List Step) (s₀ : Scheduler) (id : Cron.EntryId) (timer : Cron.TimerId),
        steps = past ++ rest →
        ((create origin).run (fun _ _ => true) past).schedulers[i]? = some s₀ →
        s₀.cron.Holds id timer → s.cron.entries.get? id = none →
          ∀ (later : List Step) (choice : Nat),
            (y.run (fun _ _ => true) later).step? (.move (.planTimer i timer) choice) = none) ∧
      ∀ (a : Step) (z : System) (p : Plan), y.step? a = some z → p ∈ seeFiring i y a z →
        (∃ s' : Scheduler, z.schedulers[i]? = some s' ∧ s'.queue = s.queue.push [p]) ∧
          lastOf? true ((create origin).observe (fun _ _ => true) (seeAddition i) steps) p.key =
            some p := by
  subst hy
  have hreach : ((create origin).run (fun _ _ => true) steps).Reachable :=
    (ReachableBy.create origin).run steps
  have hcatalogued := hreach.catalogued hs
  have harmed := hreach.armed hs
  refine ⟨(hreach.catalogued hs).consistent (hreach.armed hs) (served_of_run origin steps hs),
    fun past rest s₀ id timer hsplit hs₀ hheld hgone later choice => ?_, fun a z p hz hp => ?_⟩
  · subst hsplit
    rw [run_append] at hs ⊢
    exact step?_of_gone ((ReachableBy.create origin).run past) hs₀ hheld hs hgone later choice
  · obtain ⟨hpush, id, hid, hpayload⟩ := push_of_mem_seeFiring hreach hs hz hp
    exact ⟨hpush, recorded_of_run origin steps hs p.key id p hid hpayload⟩

/-- A plan is scheduled and waits for its slot. -/
def scheduledSteps : List Step :=
  [.request .newContext, .request (.newTask "a" [] fun _ => []),
    .request (.newScheduler ⟨1, .localTime, {}⟩),
    .request (.addPlans 0 [⟨0, "a", ⟨0⟩, 0, some "* * * * * *", 0, false, none⟩]),
    .request (.startScheduler 0 0), .move (.planTimer 0 0) 0]

/-- Another plan takes its place, and its slot comes. -/
def replacingSteps : List Step :=
  [.request (.addPlans 0 [⟨0, "a", ⟨0⟩, 0, some "* * * * * *", 7, false, none⟩]),
    .move (.planTimer 0 1) 0, .pass 1000]

/-- The first timer goes on no more, and the second one fires the second plan. -/
theorem cron_registry_consistent_replacedRun :
    ∃ (s : Scheduler) (z : System) (p : Plan),
      (after (scheduledSteps ++ replacingSteps)).schedulers[0]? = some s ∧
        s.CronConsistent [] ∧
        (∀ (later : List Step) (choice : Nat),
          ((after (scheduledSteps ++ replacingSteps)).run (fun _ _ => true) later).step?
            (.move (.planTimer 0 0) choice) = none) ∧
        (after (scheduledSteps ++ replacingSteps)).step? (.move (.planTimer 0 1) 0) = some z ∧
        p.priority = 7 ∧
        ∃ s' : Scheduler, z.schedulers[0]? = some s' ∧ s'.queue = s.queue.push [p] := by
  have hbefore : ((after scheduledSteps).schedulers[0]?.any fun s =>
      (s.cron.entries.get? 1).any fun e => e.timer == some 0) = true := by decide +kernel
  have hafter : ((after (scheduledSteps ++ replacingSteps)).schedulers[0]?.any fun s =>
      (s.cron.entries.get? 1).isNone) = true := by decide +kernel
  have hquiet : (create 0).observe (fun _ _ => true) (seeExhaustion 0)
      (scheduledSteps ++ replacingSteps) = [] := by decide +kernel
  have hfires : (((after (scheduledSteps ++ replacingSteps)).step?
      (.move (.planTimer 0 1) 0)).any fun z =>
        (seeFiring 0 (after (scheduledSteps ++ replacingSteps)) (.move (.planTimer 0 1) 0)
          z).any (·.priority == 7)) = true := by decide +kernel
  obtain ⟨s₀, hs₀, hentry⟩ := (Option.any_eq_true _ _).1 hbefore
  obtain ⟨e, he, htimer⟩ := (Option.any_eq_true _ _).1 hentry
  obtain ⟨s, hs, hgone⟩ := (Option.any_eq_true _ _).1 hafter
  obtain ⟨z, hz, hseen⟩ := (Option.any_eq_true _ _).1 hfires
  obtain ⟨p, hp, hpriority⟩ := List.any_eq_true.1 hseen
  obtain ⟨hconsistent, hdead, hfiring⟩ :=
    cron_registry_consistent 0 (scheduledSteps ++ replacingSteps) rfl hs
  rw [hquiet] at hconsistent
  obtain ⟨hpush, -⟩ := hfiring _ z p hz hp
  exact ⟨s, z, p, hs, hconsistent,
    hdead scheduledSteps replacingSteps s₀ 1 0 rfl hs₀ ⟨e, he, beq_iff_eq.1 htimer⟩
      (Option.isNone_iff_eq_none.1 hgone), hz, beq_iff_eq.1 hpriority, hpush⟩

end System

end Scheduling
