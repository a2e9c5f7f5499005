import Scheduling.Proofs.Catalogue
/-!
# Adding plans

Plans are added all or not at all: one schedule that cannot be read keeps every plan of the list out
and leaves the system as it was. Otherwise the last plan of the list for a key decides what is
queued for it, and the last one with a schedule what its cron entry is.
-/

namespace Scheduling

namespace Scheduler

variable {s s' : Scheduler} {plans : List Plan} {p : Plan} {key : String}

/-- Whether a plan has a schedule that cannot be read. -/
def unreadable (p : Plan) : Bool :=
  p.schedule.any fun expression => (Cron.Schedule.parse expression).toOption.isNone

/-- The last plan of a list for a key, among those with a schedule or among those without. -/
def lastOf? (scheduled : Bool) (plans : List Plan) (key : String) : Option Plan :=
  (plans.filter fun p =>
    accepts p && (p.key == key && p.schedule.isSome == scheduled)).getLast?

/-- What is queued and scheduled for a key once the plans of a list were added. -/
structure Added (s : Scheduler) (plans : List Plan) (key : String) (s' : Scheduler) : Prop where
  queued : s'.queue.entries.get? key = (lastOf? false plans key).or (s.queue.entries.get? key)
  scheduled : ∀ p, lastOf? true plans key = some p →
    ∃ (expression : String) (schedule : Cron.Schedule) (timer : Option Cron.TimerId),
      p.schedule = some expression ∧ Cron.Schedule.parse expression = .ok schedule ∧
        s'.entryOf? key = some ⟨schedule, p, timer⟩
  kept : lastOf? true plans key = none →
    s'.cronIds.get? key = s.cronIds.get? key ∧ s'.entryOf? key = s.entryOf? key
  /-- No other entry gives out a plan of the key. -/
  only : ∀ (id : Cron.EntryId) (e : Cron.Entry Plan), s'.cron.entries.get? id = some e →
    e.payload.key = key → s'.cronIds.get? key = some id

/-! ## Reading the schedules -/

theorem parse_cases (expression : String) :
    (∃ schedule, Cron.Schedule.parse expression = .ok schedule) ∨
      ∃ reason, Cron.Schedule.parse expression = .error (.invalidCron expression reason) := by
  unfold Cron.Schedule.parse
  split
  · exact .inl ⟨_, rfl⟩
  · exact .inr ⟨_, rfl⟩

theorem unreadable_eq_true (h : unreadable p = true) :
    ∃ expression reason, p.schedule = some expression ∧
      Cron.Schedule.parse expression = .error (.invalidCron expression reason) := by
  obtain ⟨expression, hschedule, hbad⟩ := (Option.any_eq_true _ _).1 h
  obtain ⟨schedule, hparse⟩ | ⟨reason, hparse⟩ := parse_cases expression
  · rw [hparse] at hbad
    cases hbad
  · exact ⟨expression, reason, hschedule, hparse⟩

theorem readable_of_schedule {expression : String} (h : unreadable p = false)
    (hschedule : p.schedule = some expression) :
    ∃ schedule, Cron.Schedule.parse expression = .ok schedule := by
  obtain hread | ⟨reason, hparse⟩ := parse_cases expression
  · exact hread
  · rw [unreadable, hschedule, Option.any_some, hparse] at h
    cases h

/-- The first schedule that cannot be read is reported, and only such a one. -/
theorem firstBadSchedule_eq (plans : List Plan) :
    firstBadSchedule plans =
      (plans.find? unreadable).bind fun p =>
        p.schedule.bind fun expression =>
          match Cron.Schedule.parse expression with
          | .error e => some e
          | .ok _ => none := by
  induction plans with
  | nil => rfl
  | cons p plans ih =>
      rw [firstBadSchedule]
      cases hschedule : p.schedule with
      | none =>
          have hread : unreadable p = false := by rw [unreadable, hschedule]; rfl
          rw [List.find?_cons_of_neg (by simp [hread]), ih]
      | some expression =>
          dsimp only
          cases hparse : Cron.Schedule.parse expression with
          | error e =>
              have hbad : unreadable p = true := by
                rw [unreadable, hschedule, Option.any_some, hparse]
                rfl
              rw [List.find?_cons_of_pos hbad]
              simp only [Option.bind_some, hschedule, hparse]
          | ok schedule =>
              have hread : unreadable p = false := by
                rw [unreadable, hschedule, Option.any_some, hparse]
                rfl
              rw [List.find?_cons_of_neg (by simp [hread]), ih]

/-! ## One plan after the other -/

theorem lastOf?_singleton (scheduled : Bool) (key : String) (h : accepts p = true) :
    lastOf? scheduled [p] key =
      if key = p.key ∧ p.schedule.isSome = scheduled then some p else none := by
  unfold lastOf?
  split
  · rename_i hp
    rw [List.filter_cons_of_pos (by simp [h, hp]), List.filter_nil, List.getLast?_singleton]
  · rename_i hp
    rw [List.filter_cons_of_neg, List.filter_nil, List.getLast?_nil]
    intro hin
    simp only [h, Bool.true_and, Bool.and_eq_true, beq_iff_eq] at hin
    exact hp ⟨hin.1.symm, hin.2⟩

theorem lastOf?_append (scheduled : Bool) (plans later : List Plan) (key : String) :
    lastOf? scheduled (plans ++ later) key =
      (lastOf? scheduled later key).or (lastOf? scheduled plans key) := by
  simp only [lastOf?, List.filter_append, List.getLast?_append]

/-- Plans without a key are the last ones for no key. -/
theorem lastOf?_filter (scheduled : Bool) (plans : List Plan) (key : String) :
    lastOf? scheduled (plans.filter accepts) key = lastOf? scheduled plans key := by
  unfold lastOf?
  rw [List.filter_filter]
  congr 2
  funext p
  cases accepts p <;> simp

theorem Catalogued.key_of_entry (h : s.Catalogued) {id : Cron.EntryId} {e : Cron.Entry Plan}
    (he : s.cron.entries.get? id = some e) (hkey : e.payload.key = key) :
    s.cronIds.get? key = some id :=
  hkey ▸ h.indexed id e.payload (by rw [Cron.Table.payload?, he, Option.map_some])

theorem added_nil (hs : s.Catalogued) (key : String) : s.Added [] key s where
  queued := rfl
  scheduled _ h := by cases h
  kept _ := ⟨rfl, rfl⟩
  only _ _ he hkey := hs.key_of_entry he hkey

theorem added_register (hs : s.Catalogued) (haccepts : accepts p = true)
    (hread : unreadable p = false) (key : String) : s.Added [p] key (s.register p) := by
  have honly (id : Cron.EntryId) (e : Cron.Entry Plan)
      (he : (s.register p).cron.entries.get? id = some e) (hkey : e.payload.key = key) :
      (s.register p).cronIds.get? key = some id :=
    (hs.register p).key_of_entry he hkey
  cases hschedule : p.schedule with
  | none =>
      have hregister : s.register p = { s with queue := s.queue.push [p] } := by
        simp only [register, hschedule]
      have hpush : (s.queue.push [p]).entries = s.queue.entries.insert p.key p := rfl
      refine ⟨?_, fun q hq => ?_, fun _ => ?_, honly⟩
      · rw [hregister, hpush, Registry.get?_insert, lastOf?_singleton false key haccepts]
        by_cases hkey : key = p.key <;> simp [hkey, hschedule]
      · rw [lastOf?_singleton true key haccepts, hschedule] at hq
        simp at hq
      · rw [hregister]
        exact ⟨rfl, rfl⟩
  | some expression =>
      obtain ⟨schedule, hparse⟩ := readable_of_schedule hread hschedule
      have hentry := hs.entryOf?_register hschedule hparse key
      have hlast : lastOf? true [p] key = if key = p.key then some p else none := by
        rw [lastOf?_singleton true key haccepts, hschedule]
        simp
      refine ⟨?_, fun q hq => ?_, fun hnone => ?_, honly⟩
      · rw [queue_register hschedule hparse, lastOf?_singleton false key haccepts, hschedule]
        simp
      · rw [hlast] at hq
        split at hq
        · rename_i hkey
          cases hq
          rw [if_pos hkey] at hentry
          exact ⟨expression, schedule, _, hschedule, hparse, hentry⟩
        · cases hq
      · rw [hlast] at hnone
        split at hnone
        · cases hnone
        · rename_i hkey
          rw [if_neg hkey] at hentry
          rw [cronIds_register hschedule hparse, Registry.get?_insert, if_neg hkey]
          exact ⟨rfl, hentry⟩

theorem Added.trans {u : Scheduler} {later : List Plan} (h : s.Added plans key u)
    (h' : u.Added later key s') : s.Added (plans ++ later) key s' := by
  refine ⟨?_, fun p hp => ?_, fun hnone => ?_, h'.only⟩
  · rw [h'.queued, h.queued, lastOf?_append, Option.or_assoc]
  · rw [lastOf?_append] at hp
    cases hlater : lastOf? true later key with
    | some q =>
        rw [hlater, Option.some_or] at hp
        cases hp
        exact h'.scheduled p hlater
    | none =>
        rw [hlater, Option.none_or] at hp
        rw [(h'.kept hlater).2]
        exact h.scheduled p hp
  · rw [lastOf?_append, Option.or_eq_none_iff] at hnone
    obtain ⟨hids, hentry⟩ := h'.kept hnone.1
    obtain ⟨hids', hentry'⟩ := h.kept hnone.2
    exact ⟨hids.trans hids', hentry.trans hentry'⟩

/-- Plans that can be read are registered one after the other. -/
theorem added_foldl_register (hs : s.Catalogued) (haccepts : ∀ p ∈ plans, accepts p = true)
    (hread : ∀ p ∈ plans, unreadable p = false) (key : String) :
    s.Added plans key (plans.foldl register s) := by
  induction plans generalizing s with
  | nil => exact added_nil hs key
  | cons p plans ih =>
      have hfirst : s.Added [p] key (s.register p) :=
        added_register hs (haccepts p List.mem_cons_self) (hread p List.mem_cons_self) key
      have hrest := ih (hs.register p) (fun q hq => haccepts q (List.mem_cons_of_mem p hq))
        fun q hq => hread q (List.mem_cons_of_mem p hq)
      exact hfirst.trans hrest

/-- Plans without a key make no difference. -/
theorem Added.of_filter (h : s.Added (plans.filter accepts) key s') : s.Added plans key s' where
  queued := by
    rw [h.queued, lastOf?_filter]
  scheduled p hp := h.scheduled p (by rw [lastOf?_filter, hp])
  kept hnone := h.kept (by rw [lastOf?_filter, hnone])
  only := h.only

/-! ## The whole list -/

theorem find?_filter_accepts (plans : List Plan) :
    (plans.filter accepts).find? unreadable = plans.find? fun p => accepts p && unreadable p := by
  rw [List.find?_filter]
  simp only [Bool.decide_and, Bool.decide_eq_true]

/-- The first plan with a key and a schedule that cannot be read keeps all plans out. -/
theorem add_of_find?_eq_some (h : plans.find? (fun p => accepts p && unreadable p) = some p) :
    ∃ expression reason, p.schedule = some expression ∧
      Cron.Schedule.parse expression = .error (.invalidCron expression reason) ∧
      s.add plans = .error (.invalidCron expression reason) := by
  have hp := List.find?_some h
  obtain ⟨-, hunreadable⟩ := Bool.and_eq_true_iff.1 hp
  obtain ⟨expression, reason, hschedule, hparse⟩ := unreadable_eq_true hunreadable
  have hbad : firstBadSchedule (plans.filter accepts) =
      some (.invalidCron expression reason) := by
    rw [firstBadSchedule_eq, find?_filter_accepts, h, Option.bind_some, hschedule,
      Option.bind_some, hparse]
  exact ⟨expression, reason, hschedule, hparse, by simp only [add, hbad]⟩

theorem add_of_find?_eq_none (hs : s.Catalogued)
    (h : plans.find? (fun p => accepts p && unreadable p) = none) :
    ∃ s' : Scheduler, s.add plans = .ok s' ∧ ∀ key, s.Added plans key s' := by
  rw [← find?_filter_accepts] at h
  have hbad : firstBadSchedule (plans.filter accepts) = none := by
    rw [firstBadSchedule_eq, h, Option.bind_none]
  refine ⟨(plans.filter accepts).foldl register s, by simp only [add, hbad], fun key => ?_⟩
  have hread : ∀ p ∈ plans.filter accepts, unreadable p = false := fun p hp =>
    Bool.eq_false_iff.2 (List.find?_eq_none.1 h p hp)
  exact (added_foldl_register hs (fun p hp => (List.mem_filter.1 hp).2) hread key).of_filter

theorem added_of_add (hs : s.Catalogued) (h : s.add plans = .ok s') (key : String) :
    s.Added plans key s' := by
  cases hfind : plans.find? fun p => accepts p && unreadable p with
  | none =>
      obtain ⟨u, hu, hadded⟩ := add_of_find?_eq_none hs hfind
      rw [h] at hu
      cases hu
      exact hadded key
  | some p =>
      obtain ⟨expression, reason, -, -, herror⟩ := add_of_find?_eq_some (s := s) hfind
      rw [h] at herror
      cases herror

theorem add_filter_accepts (s : Scheduler) (plans : List Plan) :
    s.add (plans.filter accepts) = s.add plans := by
  simp only [add, List.filter_filter, Bool.and_self]

end Scheduler

namespace System

open Scheduler

variable {y : System} {i : SchedulerId} {s : Scheduler}

/-- If a plan of the list has a key and a schedule that cannot be read, the first such plan is
reported and nothing happens. Otherwise each key has queued and scheduled the last plan of the list
for it, or what it had before. Plans without a key make no difference. -/
theorem addPlans_all_or_none (hy : y.Reachable) (hs : y.schedulers[i]? = some s)
    (plans : List Plan) :
    (match plans.find? fun p => p.key != "" && unreadable p with
      | some p => ∃ expression reason, p.schedule = some expression ∧
          Cron.Schedule.parse expression = .error (.invalidCron expression reason) ∧
          y.addPlans i plans = .error (.invalidCron expression reason) ∧
          y.carryOut (.addPlans i plans) = y
      | none => ∃ s' : Scheduler, y.addPlans i plans = .ok (y.setScheduler i s') ∧
          (y.carryOut (.addPlans i plans)).schedulers[i]? = some s' ∧
          ∀ key, s.Added plans key s') ∧
      y.addPlans i (plans.filter fun p => p.key != "") = y.addPlans i plans := by
  refine ⟨?_, ?_⟩
  · split
    · rename_i p hp
      obtain ⟨expression, reason, hschedule, hparse, hadd⟩ := add_of_find?_eq_some (s := s) hp
      have herror : y.addPlans i plans = .error (.invalidCron expression reason) := by
        simp only [addPlans, hs, hadd]
      refine ⟨expression, reason, hschedule, hparse, herror, ?_⟩
      simp only [carryOut, herror]
      rfl
    · rename_i hnone
      obtain ⟨s', hadd, hadded⟩ := add_of_find?_eq_none (hy.catalogued hs) hnone
      have hok : y.addPlans i plans = .ok (y.setScheduler i s') := by
        simp only [addPlans, hs, hadd]
      refine ⟨s', hok, ?_, hadded⟩
      simp only [carryOut, hok, Except.toOption, Option.getD_some, setScheduler,
        Array.getElem?_modify, if_pos, hs, Option.map_some]
  · have hfilter : s.add (plans.filter fun p => p.key != "") = s.add plans :=
      add_filter_accepts s plans
    simp only [addPlans, hs, hfilter]

/-- A scheduler that has queued and scheduled a plan. -/
def stockedRun : System :=
  after
    [.request .newContext, .request (.newTask "a" [] fun _ => []),
      .request (.newTask "b" [] fun _ => []), .request (.newTask "" [] fun _ => []),
      .request (.newScheduler ⟨1, .localTime, {}⟩),
      .request (.addPlans 0 [⟨0, "a", ⟨0⟩, 0, none, 1, false, none⟩,
        ⟨0, "a", ⟨0⟩, 0, some "* * * * * *", 1, false, none⟩])]

/-- Plans for one key with and without a schedule, and one without a key that cannot be read. -/
def mixedPlans : List Plan :=
  [⟨0, "a", ⟨0⟩, 0, none, 2, false, none⟩, ⟨0, "a", ⟨0⟩, 0, some "0 * * * * *", 3, false, none⟩,
    ⟨2, "", ⟨0⟩, 0, some "never", 0, false, none⟩, ⟨0, "a", ⟨0⟩, 0, none, 4, false, none⟩,
    ⟨1, "b", ⟨0⟩, 0, none, 5, false, none⟩]

/-- A plan whose schedule cannot be read. -/
def badPlan : Plan := ⟨1, "b", ⟨0⟩, 0, some "61 * * * * *", 0, false, none⟩

/-- The last plan for the key is queued, and the only one with a schedule has taken the place of its
entry; with a schedule that cannot be read in the list, nothing happens. -/
theorem addPlans_stockedRun :
    (∃ s s' : Scheduler, stockedRun.schedulers[0]? = some s ∧
      (stockedRun.carryOut (.addPlans 0 mixedPlans)).schedulers[0]? = some s' ∧
      (∀ key, s.Added mixedPlans key s') ∧
      (s'.queue.entries.get? "a").map Plan.priority = some 4 ∧
      (s'.entryOf? "a").map (fun e => e.payload.priority) = some 3 ∧ s'.cron.size = 1) ∧
      stockedRun.carryOut (.addPlans 0 (mixedPlans ++ [badPlan])) = stockedRun := by
  have hreach : stockedRun.Reachable := reachable_after _
  have hbefore : stockedRun.schedulers[0]?.isSome = true := by decide +kernel
  obtain ⟨s, hs⟩ := Option.isSome_iff_exists.1 hbefore
  refine ⟨?_, ?_⟩
  · have hfind : (mixedPlans.find? fun p => p.key != "" && unreadable p) = none := by
      decide +kernel
    have hfinal : ((stockedRun.carryOut (.addPlans 0 mixedPlans)).schedulers[0]?.any fun s' =>
        (s'.queue.entries.get? "a").map Plan.priority == some 4 &&
          (s'.entryOf? "a").map (fun e => e.payload.priority) == some 3 &&
          s'.cron.size == 1) = true := by decide +kernel
    obtain ⟨hadd, -⟩ := addPlans_all_or_none hreach hs mixedPlans
    rw [hfind] at hadd
    obtain ⟨s', -, hs', hadded⟩ := hadd
    rw [hs', Option.any_some, Bool.and_eq_true, Bool.and_eq_true, beq_iff_eq, beq_iff_eq,
      beq_iff_eq] at hfinal
    exact ⟨s, s', hs, hs', hadded, hfinal.1.1, hfinal.1.2, hfinal.2⟩
  · have hfind : ((mixedPlans ++ [badPlan]).find? fun p => p.key != "" && unreadable p) =
        some badPlan := by decide +kernel
    obtain ⟨hadd, -⟩ := addPlans_all_or_none hreach hs (mixedPlans ++ [badPlan])
    rw [hfind] at hadd
    obtain ⟨expression, reason, -, -, -, hsame⟩ := hadd
    exact hsame

end System

end Scheduling
