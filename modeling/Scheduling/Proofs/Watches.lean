import Scheduling.Proofs.Histories
import Scheduling.Proofs.Schedules
import Scheduling.Proofs.TableChanges
import Scheduling.Proofs.Timers
/-!
# The timer of an entry

An entry of a cron table watches for the times of its schedule as long as it holds a timer. Each
step leaves its watch as it is, ends it, begins one if there is none, or moves its timer. An entry
that is armed again without having been disarmed in between keeps the timer that it has.
-/

namespace Scheduling

namespace Cron

/-- The watch that an entry keeps: its schedule, the timer that it holds, and where the timer stands
if it has not ended. -/
structure Watch (α : Type) where
  schedule : Schedule
  timer : TimerId
  live : Option (Timer α)

/-- What becomes of the watch of an entry in a step at a time of the clock, and whether the entry
fires. -/
inductive Watch.Step {α : Type} (zone : Zone) (clock : Clock) :
    Option (Watch α) → Option (Watch α) → Bool → Prop
  | ends (w : Option (Watch α)) : Step zone clock w none false
  | kept (w : Watch α) : Step zone clock (some w) (some w) false
  | begins (schedule : Schedule) (timer : TimerId) (payload : α) :
      Step zone clock none
        (some ⟨schedule, timer, some ⟨schedule, payload, none, .seeking⟩⟩) false
  | sleeps {schedule : Schedule} {timer : TimerId} {live : Timer α} {slot : Int}
      (hpoint : live.point = .seeking)
      (hslot : live.schedule.nextSlot zone live.lastFired clock.wall = .at slot) :
      Step zone clock (some ⟨schedule, timer, some live⟩)
        (some ⟨schedule, timer, some { live with
          point := .sleeping slot (clock.now.wake (Schedule.delayUntil slot clock.wall)) }⟩) false
  | finishes {schedule : Schedule} {timer : TimerId} {live : Timer α}
      (hpoint : live.point = .seeking)
      (hnone : ∀ slot, live.schedule.nextSlot zone live.lastFired clock.wall ≠ .at slot) :
      Step zone clock (some ⟨schedule, timer, some live⟩) (some ⟨schedule, timer, none⟩) false
  | fires {schedule : Schedule} {timer : TimerId} {live : Timer α} {slot : Int} {wake : Instant}
      (hpoint : live.point = .sleeping slot wake) (hdue : wake ≤ clock.now) :
      Step zone clock (some ⟨schedule, timer, some live⟩)
        (some ⟨schedule, timer, some { live with lastFired := some slot, point := .seeking }⟩) true

theorem Watch.Step.refl {α : Type} {zone : Zone} {clock : Clock} (w : Option (Watch α)) :
    Watch.Step zone clock w w false := by
  cases w with
  | none => exact .ends none
  | some w => exact .kept w

/-- The timer of a watch sleeps and the time has come for it to fire. -/
def Watch.isDue {α : Type} (w : Watch α) (now : Instant) : Bool :=
  w.live.any fun live => live.wake?.any (· ≤ now)

namespace Table

variable {α : Type} {t t' : Table α} {id k : EntryId} {timer : TimerId} {clock : Clock}
  {kind : Schedule → Prop}

/-- The watch that an entry keeps. -/
def watch? (t : Table α) (id : EntryId) : Option (Watch α) :=
  (t.entries.get? id).bind fun e =>
    e.timer.map fun timer => ⟨e.schedule, timer, t.timers.get? timer⟩

theorem watch?_eq_some_iff {w : Watch α} :
    t.watch? id = some w ↔ ∃ e, t.entries.get? id = some e ∧ e.timer = some w.timer ∧
      e.schedule = w.schedule ∧ w.live = t.timers.get? w.timer := by
  obtain ⟨schedule, timer, live⟩ := w
  simp only [watch?, Option.bind_eq_some_iff, Option.map_eq_some_iff, Watch.mk.injEq]
  constructor
  · rintro ⟨e, he, own, htimer, rfl, rfl, rfl⟩
    exact ⟨e, he, htimer, rfl, rfl⟩
  · rintro ⟨e, he, htimer, rfl, hlive⟩
    exact ⟨e, he, timer, htimer, rfl, rfl, hlive.symm⟩

theorem holds_of_watch? {w : Watch α} (h : t.watch? id = some w) : t.Holds id w.timer := by
  obtain ⟨e, he, htimer, -⟩ := watch?_eq_some_iff.1 h
  exact ⟨e, he, htimer⟩

theorem watch?_eq_none (h : ∀ timer, ¬ t.Holds id timer) : t.watch? id = none := by
  cases hw : t.watch? id with
  | none => rfl
  | some w => exact absurd (holds_of_watch? hw) (h w.timer)

/-- An entry that is as it was, with a timer that is as it was, keeps its watch. -/
theorem watch?_congr (hentry : t'.entries.get? id = t.entries.get? id)
    (htimers : ∀ timer, t.Holds id timer → t'.timers.get? timer = t.timers.get? timer) :
    t'.watch? id = t.watch? id := by
  unfold watch?
  rw [hentry]
  cases he : t.entries.get? id with
  | none => rfl
  | some e =>
      cases htimer : e.timer with
      | none => simp [htimer]
      | some timer => simp [htimer, htimers timer ⟨e, he, htimer⟩]

/-! ## Stopping a table -/

theorem get?_entries_stop (t : Table α) (id : EntryId) :
    t.stop.entries.get? id = (t.entries.get? id).map fun e => { e with timer := none } := by
  have hfold (ids : List EntryId) (es : Registry EntryId (Entry α)) :
      (ids.foldl (fun es id => es.modify id fun e => { e with timer := none }) es).get? id =
        if id ∈ ids then (es.get? id).map fun e => { e with timer := none } else es.get? id := by
    induction ids generalizing es with
    | nil => simp
    | cons k ids ih =>
        rw [List.foldl_cons, ih, Registry.get?_modify]
        by_cases hk : id = k
        · subst hk
          by_cases hmem : id ∈ ids <;> cases es.get? id <;> simp [hmem]
        · simp [hk]
  have hstop := hfold t.entries.keys t.entries
  refine hstop.trans ?_
  split
  · rfl
  · rename_i hmem
    rw [← Registry.contains_iff_mem_keys, Registry.contains, Option.not_isSome_iff_eq_none] at hmem
    rw [hmem]
    rfl

theorem not_holds_stop : ¬ t.stop.Holds id timer := by
  rintro ⟨e, he, htimer⟩
  rw [get?_entries_stop] at he
  obtain ⟨_, -, rfl⟩ := Option.map_eq_some_iff.1 he
  cases htimer

theorem Linked.stop (h : t.Linked) : t.stop.Linked where
  held timer live hlive := by
    have hempty : t.stop.timers = Registry.empty := h.abort_values
    rw [hempty] at hlive
    cases hlive
  fresh id hid := by
    rw [get?_entries_stop, h.fresh id hid]
    rfl

theorem owned_stop (t : Table α) : t.stop.Owned where
  lt hk := absurd hk not_holds_stop
  unique hk := absurd hk not_holds_stop

/-- Entries and timers are told apart, and the schedules of all entries are of a kind. -/
structure Schedules (kind : Schedule → Prop) (t : Table α) : Prop extends t.Owned, t.Linked where
  kind : ∀ {id : EntryId} {e : Entry α}, t.entries.get? id = some e → kind e.schedule

/-! ## Operations that move no timer -/

/-- The watch of an entry goes on as it was, or the entry had none and begins one. -/
def Hands (t t' : Table α) (id : EntryId) : Prop :=
  t'.watch? id = t.watch? id ∨ t.watch? id = none ∧
    ∃ schedule timer payload, t'.watch? id =
      some ⟨schedule, timer, some ⟨schedule, payload, none, .seeking⟩⟩

theorem Hands.trans {t'' : Table α} (h : t.Hands t' id) (h' : t'.Hands t'' id) :
    t.Hands t'' id := by
  obtain hkept | ⟨hnone, hbegins⟩ := h'
  · rw [Hands, hkept]
    exact h
  · obtain hkept | ⟨-, schedule, timer, payload, hsome⟩ := h
    · exact .inr ⟨hkept ▸ hnone, hbegins⟩
    · rw [hnone] at hsome
      cases hsome

theorem Hands.step {zone : Zone} (h : t.Hands t' id) :
    Watch.Step zone clock (t.watch? id) (t'.watch? id) false := by
  obtain hkept | ⟨hnone, schedule, timer, payload, hsome⟩ := h
  · rw [hkept]
    exact .refl _
  · rw [hnone, hsome]
    exact .begins schedule timer payload

theorem hands_arm (h : t.Owned) (k id : EntryId) : t.Hands (t.arm k) id := by
  unfold arm
  split
  · rename_i schedule payload hentry
    by_cases hid : id = k
    · subst hid
      refine .inr ⟨watch?_eq_none ?_, schedule, t.nextTimer, payload,
        watch?_eq_some_iff.2 ⟨⟨schedule, payload, some t.nextTimer⟩, ?_, rfl, rfl, ?_⟩⟩
      · rintro timer ⟨e, he, htimer⟩
        rw [hentry] at he
        cases he
        cases htimer
      · exact (Registry.get?_insert _ _ _ _).trans (if_pos rfl)
      · exact ((Registry.get?_insert _ _ _ _).trans (if_pos rfl)).symm
    · refine .inl (watch?_congr ?_ fun timer hheld => ?_)
      · exact (Registry.get?_insert _ _ _ _).trans (if_neg hid)
      · exact (Registry.get?_insert _ _ _ _).trans (if_neg (Nat.ne_of_lt (h.lt hheld)))
  · exact .inl rfl

theorem hands_start (h : t.Owned) (id : EntryId) : t.Hands t.start id := by
  have hall : t.start.Owned ∧ t.Hands t.start id :=
    start_induction (P := fun u => u.Owned ∧ t.Hands u id) ⟨⟨h.lt, h.unique⟩, .inl rfl⟩
      fun u k hu => ⟨hu.1.arm k, hu.2.trans (hands_arm hu.1 k id)⟩
  exact hall.2

theorem hands_add (h : t.Owned) (hlinked : t.Linked) (schedule : Schedule) (payload : α)
    (id : EntryId) : t.Hands (t.add schedule payload).2 id := by
  by_cases hid : id = t.nextId
  · have hnone : t.watch? id = none := by
      refine watch?_eq_none ?_
      rintro timer ⟨e, he, -⟩
      rw [hlinked.fresh id (Nat.le_of_eq hid.symm)] at he
      cases he
    cases hrunning : t.running with
    | false =>
        refine .inl ((watch?_eq_none fun timer hheld => ?_).trans hnone.symm)
        rw [holds_add, if_pos hid, hrunning] at hheld
        cases hheld.1
    | true =>
        refine .inr ⟨hnone, schedule, t.nextTimer, payload, watch?_eq_some_iff.2
          ⟨⟨schedule, payload, some t.nextTimer⟩, ?_, rfl, rfl, ?_⟩⟩
        · rw [get?_entries_add, if_pos hid, hrunning]
          rfl
        · rw [get?_timers_add, if_pos ⟨hrunning, rfl⟩]
  · refine .inl (watch?_congr ?_ fun timer hheld => ?_)
    · rw [get?_entries_add, if_neg hid]
    · rw [get?_timers_add, if_neg fun hnew => Nat.ne_of_lt (h.lt hheld) hnew.2]

/-- The watch of an entry that is taken out ends, and all others go on. -/
theorem watch?_remove (h : t.Owned) (k id : EntryId) :
    (t.remove k).2.watch? id = if id = k then none else t.watch? id := by
  by_cases hid : id = k
  · rw [if_pos hid]
    exact watch?_eq_none fun timer hheld => (holds_remove.1 hheld).1 hid
  · rw [if_neg hid]
    refine watch?_congr ?_ fun timer hheld => ?_
    · rw [get?_entries_remove, if_neg hid]
    · have hother : ¬ ∃ e, t.entries.get? k = some e ∧ e.timer = some timer :=
        fun hother => hid (h.unique hheld hother)
      rw [get?_timers_remove, if_neg hother]

theorem watchStep_remove {zone : Zone} (h : t.Owned) (k id : EntryId) :
    Watch.Step zone clock (t.watch? id) ((t.remove k).2.watch? id) false := by
  rw [watch?_remove h]
  split
  · exact .ends _
  · exact .refl _

theorem watchStep_stop {zone : Zone} (t : Table α) (id : EntryId) :
    Watch.Step zone clock (t.watch? id) (t.stop.watch? id) false := by
  rw [watch?_eq_none fun _ => not_holds_stop]
  exact .ends _

theorem watchStep_clear {zone : Zone} (t : Table α) (id : EntryId) :
    Watch.Step zone clock (t.watch? id) (t.clear.watch? id) false :=
  .ends _

/-! ## Timers that move -/

theorem watchStep_of_advance {fired : Option α}
    (hadvance : t.advance clock k = some (fired, t')) (id : EntryId) :
    Watch.Step t.zone.zone clock (t.watch? id) (t'.watch? id)
      ((t.watch? id).any (·.timer == k) && fired.isSome) := by
  obtain ⟨hentries, -⟩ := entries_advance hadvance
  obtain ⟨live, hlive, hcase⟩ := advance_cases hadvance
  by_cases hheld : t.Holds id k
  · obtain ⟨e, he, htimer⟩ := hheld
    have hwatch (u : Table α) (hu : u.entries = t.entries) :
        u.watch? id = some ⟨e.schedule, k, u.timers.get? k⟩ :=
      watch?_eq_some_iff.2 ⟨e, hu ▸ he, htimer, rfl, rfl⟩
    rw [hwatch t rfl, hwatch t' hentries, hlive]
    cases hcase with
    | sleep slot hpoint hslot =>
        simp only [Registry.get?_insert, if_true, Option.any_some, beq_self_eq_true]
        exact .sleeps hpoint hslot
    | finish hpoint hnone =>
        simp only [Registry.get?_erase, if_true, Option.any_some, beq_self_eq_true]
        exact .finishes hpoint hnone
    | fire slot wake hpoint hdue =>
        simp only [Registry.get?_insert, if_true, Option.any_some, beq_self_eq_true]
        exact .fires hpoint hdue
  · -- The timer is not that of this entry, whose watch goes on as it was.
    have hother : (t.watch? id).any (·.timer == k) = false := by
      cases hw : t.watch? id with
      | none => rfl
      | some w => exact beq_false_of_ne fun heq => hheld (heq ▸ holds_of_watch? hw)
    rw [hother]
    refine Hands.step (.inl (watch?_congr ?_ fun timer hk => ?_))
    · rw [hentries]
    · have hne : timer ≠ k := fun heq => hheld (heq ▸ hk)
      cases hcase with
      | sleep | fire => exact (Registry.get?_insert _ _ _ _).trans (if_neg hne)
      | finish => exact (Registry.get?_erase _ _ _).trans (if_neg hne)

/-- A timer that fires is held by an entry and fires what the entry gives out. -/
theorem exists_watch_of_fires {payload : α} (h : t.Linked)
    (hadvance : t.advance clock timer = some (some payload, t')) :
    ∃ id w, t.watch? id = some w ∧ w.timer = timer ∧ t.payload? id = some payload := by
  obtain ⟨live, hlive, hpayload⟩ := payload_of_advance hadvance
  obtain ⟨id, e, he, htimer, hsame⟩ := h.held timer live hlive
  refine ⟨id, ⟨e.schedule, timer, t.timers.get? timer⟩,
    watch?_eq_some_iff.2 ⟨e, he, htimer, rfl, rfl⟩, rfl, ?_⟩
  rw [payload?, he, ← hpayload, ← hsame]
  rfl

/-! ## Schedules of a kind -/

theorem Schedules.arm (h : t.Schedules kind) (k : EntryId) : (t.arm k).Schedules kind where
  toOwned := h.toOwned.arm k
  toLinked := h.toLinked.arm k
  kind {id e} he := by
    unfold Table.arm at he
    split at he
    · rename_i schedule payload hentry
      dsimp only at he
      rw [Registry.get?_insert] at he
      split at he
      · have hkind := h.kind hentry
        cases he
        exact hkind
      · exact h.kind he
    · exact h.kind he

theorem Schedules.start (h : t.Schedules kind) : t.start.Schedules kind :=
  start_induction ⟨⟨h.lt, h.unique⟩, ⟨h.held, h.fresh⟩, h.kind⟩ fun _ k hu => hu.arm k

theorem Schedules.add (h : t.Schedules kind) {schedule : Schedule} (hkind : kind schedule)
    (payload : α) : (t.add schedule payload).2.Schedules kind where
  toOwned := h.toOwned.add schedule payload
  toLinked := h.toLinked.add schedule payload
  kind {id e} he := by
    rw [get?_entries_add] at he
    split at he
    · cases he
      exact hkind
    · exact h.kind he

theorem Schedules.remove (h : t.Schedules kind) (k : EntryId) :
    (t.remove k).2.Schedules kind where
  toOwned := h.toOwned.remove k
  toLinked := h.toLinked.remove k
  kind {id e} he := by
    rw [get?_entries_remove] at he
    split at he
    · cases he
    · exact h.kind he

theorem Schedules.stop (h : t.Schedules kind) : t.stop.Schedules kind where
  toOwned := owned_stop t
  toLinked := h.toLinked.stop
  kind {id e} he := by
    rw [get?_entries_stop] at he
    obtain ⟨before, hbefore, rfl⟩ := Option.map_eq_some_iff.1 he
    have hkind := h.kind hbefore
    exact hkind

theorem Schedules.clear (h : t.Schedules kind) : t.clear.Schedules kind where
  toOwned := (armed_of_empty rfl).toOwned
  toLinked := h.toLinked.clear
  kind he := by cases he

theorem schedules_create (zone : ZoneChoice) : (create zone : Table α).Schedules kind where
  toOwned := (armed_of_empty rfl).toOwned
  toLinked := linked_create zone
  kind he := by cases he

theorem Schedules.advance {fired : Option α} (h : t.Schedules kind)
    (hadvance : t.advance clock k = some (fired, t')) : t'.Schedules kind where
  toOwned := h.toOwned.advance hadvance
  toLinked := h.toLinked.advance hadvance
  kind he := h.kind ((entries_advance hadvance).1 ▸ he)

/-! ## The zone -/

theorem zone_arm (t : Table α) (k : EntryId) : (t.arm k).zone = t.zone := by
  unfold arm
  split <;> rfl

theorem zone_add (t : Table α) (schedule : Schedule) (payload : α) :
    (t.add schedule payload).2.zone = t.zone := by
  unfold add
  dsimp only
  split
  · rw [zone_arm]
  · rfl

theorem zone_remove (t : Table α) (k : EntryId) : (t.remove k).2.zone = t.zone := by
  unfold remove
  split <;> rfl

theorem zone_start (t : Table α) : t.start.zone = t.zone :=
  start_induction (P := fun u => u.zone = t.zone) rfl fun u k hu => (zone_arm u k).trans hu

theorem zone_advance {fired : Option α} (h : t.advance clock k = some (fired, t')) :
    t'.zone = t.zone := by
  obtain ⟨live, -, hcase⟩ := advance_cases h
  cases hcase with
  | sleep | finish | fire => rfl

end Table

end Cron

/-! ## In a system -/

namespace Cron.Table.Change

variable {y : System} {a : Step} {i : TableId} {t t' : Cron.Table String}

theorem zone (h : t.Change y a i t') : t'.zone = t.zone := by
  cases h with
  | idle | stop | clear => rfl
  | add => exact zone_add _ _ _
  | remove => exact zone_remove _ _
  | start => exact zone_start _
  | timer _ h => exact zone_advance h

theorem schedules {kind : Schedule → Prop} (h : t.Change y a i t') (ht : t.Schedules kind)
    (hadd : ∀ name expression schedule, a = .request (.addEntry i name expression) →
      Schedule.parse expression = .ok schedule → kind schedule) : t'.Schedules kind := by
  cases h with
  | idle => exact ht
  | add ha hparse => exact ht.add (hadd _ _ _ ha hparse) _
  | remove => exact ht.remove _
  | start => exact ht.start
  | stop => exact ht.stop
  | clear => exact ht.clear
  | timer _ hadvance => exact ht.advance hadvance

end Cron.Table.Change

namespace System

open Cron

variable {y z : System} {a : Step} {i : TableId} {id : EntryId} {t : Cron.Table String}

/-- The watch that an entry of a table keeps. -/
def watch? (y : System) (i : TableId) (id : EntryId) : Option (Watch String) :=
  y.tables[i]?.bind (·.watch? id)

/-- Whether the entry fires in a step. -/
def triggers (y : System) (i : TableId) (id : EntryId) : Step → Bool
  | .move (.tableTimer i' timer) _ =>
    i' == i && (y.watch? i id).any (·.timer == timer) &&
      y.tables[i]?.any fun t => (t.advance y.clock timer).any (·.1.isSome)
  | _ => false

theorem watch?_of_table (ht : y.tables[i]? = some t) (id : EntryId) :
    y.watch? i id = t.watch? id := by
  rw [watch?, ht]
  rfl

theorem triggers_of_idle (ha : ∀ timer choice, a ≠ .move (.tableTimer i timer) choice) :
    y.triggers i id a = false := by
  unfold triggers
  split
  · rename_i i' timer choice
    have hi : i' ≠ i := by
      rintro rfl
      exact ha timer choice rfl
    simp [hi]
  · rfl

/-- Every timer of a table that fires is that of an entry. -/
theorem exists_triggers {timer : TimerId} {name : String} {t' : Cron.Table String}
    (ht : y.tables[i]? = some t) (hlinked : t.Linked)
    (hadvance : t.advance y.clock timer = some (some name, t')) (choice : Nat) :
    ∃ id, t.payload? id = some name ∧
      y.triggers i id (.move (.tableTimer i timer) choice) = true := by
  obtain ⟨id, w, hw, htimer, hpayload⟩ := Table.exists_watch_of_fires hlinked hadvance
  refine ⟨id, hpayload, ?_⟩
  simp [triggers, watch?_of_table ht, ht, hw, htimer, hadvance]

/-- In a step the watch of an entry makes a step. -/
theorem watchStep_of_step {zone : Zone} {kind : Schedule → Prop} (h : y.step? a = some z)
    (hy : ∀ t, y.tables[i]? = some t → t.Schedules kind ∧ t.zone.zone = zone) (id : EntryId) :
    Watch.Step zone y.clock (y.watch? i id) (z.watch? i id) (y.triggers i id a) := by
  cases ht : y.tables[i]? with
  | none =>
      have hnone : y.watch? i id = none := by
        rw [watch?, ht]
        rfl
      have htriggers : y.triggers i id a = false := by
        unfold triggers
        split
        · simp [hnone]
        · rfl
      have hnone' : z.watch? i id = none := by
        have hchange := (tableChange_of_step h i).1
        rw [ht] at hchange
        unfold watch?
        generalize z.tables[i]? = found at hchange
        cases hchange with
        | absent | create => rfl
      rw [htriggers, hnone']
      exact .ends _
  | some t =>
      obtain ⟨hkind, hzone⟩ := hy t ht
      obtain ⟨t', ht', hchange⟩ := change_of_table h ht
      rw [watch?_of_table ht, watch?_of_table ht']
      cases hchange with
      | idle ha =>
          rw [triggers_of_idle ha]
          exact .refl _
      | add ha =>
          rw [triggers_of_idle (ha ▸ nofun)]
          exact (Table.hands_add hkind.toOwned hkind.toLinked _ _ id).step
      | start ha =>
          rw [triggers_of_idle (ha ▸ nofun)]
          exact (Table.hands_start hkind.toOwned id).step
      | remove ha =>
          rw [triggers_of_idle (ha ▸ nofun)]
          exact Table.watchStep_remove hkind.toOwned _ id
      | stop ha =>
          rw [triggers_of_idle (ha ▸ nofun)]
          exact Table.watchStep_stop t id
      | clear ha =>
          rw [triggers_of_idle (ha ▸ nofun)]
          exact Table.watchStep_clear t id
      | @timer timer choice fired _ ha hadvance =>
          subst ha
          have htriggers : y.triggers i id (.move (.tableTimer i timer) choice) =
              ((t.watch? id).any (·.timer == timer) && fired.isSome) := by
            simp [triggers, watch?_of_table ht, ht, hadvance]
          rw [htriggers, ← hzone]
          exact Table.watchStep_of_advance hadvance id

/-- The schedules of all entries of a table are of a kind if those of all expressions are that are
added to it. -/
theorem schedules_of_run {allowed : System → Step → Bool} {kind : Schedule → Prop} (origin : Int)
    {steps : List Step} (hadd : ∀ name expression schedule,
      .request (.addEntry i name expression) ∈ steps →
        Schedule.parse expression = .ok schedule → kind schedule)
    (ht : ((create origin).run allowed steps).tables[i]? = some t) : t.Schedules kind := by
  have hall : ∀ t, ((create origin).run allowed steps).tables[i]? = some t → t.Schedules kind := by
    refine run_induction_mem (P := fun y => ∀ t, y.tables[i]? = some t → t.Schedules kind)
      (fun y a z hmem _ hz hy t' ht' => ?_) fun t ht => by simp [create] at ht
    have hchange := (tableChange_of_step hz i).1
    rw [ht'] at hchange
    cases ht : y.tables[i]? with
    | none =>
        rw [ht] at hchange
        cases hchange
        exact Table.schedules_create _
    | some t =>
        rw [ht] at hchange
        cases hchange with
        | change h =>
            exact h.schedules (hy t ht) fun name expression schedule ha =>
              hadd name expression schedule (ha ▸ hmem)
  exact hall t ht

end System

end Scheduling
