import Mathlib.Data.List.Induction
import Scheduling.Proofs.NextTimes
import Scheduling.Proofs.Watches
/-!
# When entries fire

In a zone whose offset never changes, an entry of a cron table fires once for each second that meets
its schedule, if it was armed before that second and stayed armed until the timers that were due
then had run; it fires in the order of these seconds, and never otherwise.

As long as an entry is armed its timer sleeps until the first second that meets the schedule and for
which it has not fired. It looks for that second before time goes on, so none is passed over.
-/

namespace Scheduling

open Cron

/-! ## Readings of the clock -/

namespace LocalTime

/-- The first year of schedules begins at 0. -/
theorem first_le_year_iff {x : Int} :
    (Field.years.first : Int) ≤ (ofSeconds x).date.year ↔ 0 ≤ x := by
  have hfirst : (LocalTime.mk ⟨Field.years.first, 1, 1⟩ 0 0 0).toSeconds = 0 := by decide
  obtain ⟨hlo, hhi⟩ := year_bounds (valid_ofSeconds x)
  rw [toSeconds_ofSeconds] at hlo hhi
  constructor
  · intro hyear
    exact hfirst ▸ Int.le_trans (toSeconds_year_mono hyear) hlo
  · intro hx
    refine Int.not_lt.1 fun hlt => ?_
    have hend := toSeconds_year_mono (Int.add_one_le_of_lt hlt)
    rw [hfirst] at hend
    exact absurd (Int.lt_of_lt_of_le hhi hend) (Int.not_lt.2 hx)

end LocalTime

namespace Clock

/-- The present reading of the wall clock in milliseconds since 1970-01-01. -/
def wallMillis (c : Clock) : Int := c.origin + c.millis

theorem seconds_wall (c : Clock) : c.wall.seconds = c.wallMillis / 1000 := by
  unfold wall Timestamp.ofMillis Timestamp.seconds wallMillis
  dsimp only
  omega

theorem now_eq (c : Clock) : (c.now : Int) = 1000000 * (c.wallMillis - c.origin) := by
  unfold now wallMillis
  omega

end Clock

namespace Cron

variable {s : Schedule} {offset : Int} {clock : Clock} {lastFired : Option Int} {slot : Int}

/-- The second at which all schedules have ended. -/
def endOfYears : Int := (LocalTime.mk ⟨Field.years.last + 1, 1, 1⟩ 0 0 0).toSeconds

theorem Schedule.Proper.lt_endOfYears (hs : s.Proper) (h : s.MeetsAt (Zone.fixed offset) slot) :
    slot + offset < endOfYears :=
  Int.not_le.1 fun hle => hs.not_meets hle h

/-- A timer that fired at the present instant goes on from there. -/
theorem Schedule.searchStart_eq
    (h : ∀ last, lastFired = some last → 1000 * last = clock.wallMillis) :
    searchStart lastFired clock.wall = clock.wall := by
  cases lastFired with
  | none => rfl
  | some last =>
      have hnanos : last * 1000000000 = (clock.origin + clock.millis) * 1000000 := by
        have hlast := h last rfl
        unfold Clock.wallMillis at hlast
        omega
      have hsame : Timestamp.ofSeconds last = clock.wall := congrArg Timestamp.mk hnanos
      rw [searchStart, hsame, ite_self]

theorem Schedule.isNext_nextSlot (hs : s.Proper) (hyears : s.years = Field.years.range)
    (hyear : 0 ≤ clock.origin / 1000 + offset)
    (hlast : ∀ last, lastFired = some last → 1000 * last = clock.wallMillis) :
    IsNext (s.MeetsAt (Zone.fixed offset)) (clock.wallMillis / 1000)
      (s.nextSlot (Zone.fixed offset) lastFired clock.wall) := by
  have hnext := isNext_nextAfter offset hs hyears clock.wall
    (LocalTime.first_le_year_iff.2 (by
      rw [Clock.seconds_wall, Zone.localSeconds_fixed]
      unfold Clock.wallMillis
      omega))
  rw [Clock.seconds_wall] at hnext
  rw [nextSlot, searchStart_eq hlast]
  exact hnext

/-- A timer wakes at the second until which it sleeps. -/
theorem wake_delayUntil (hyear : 0 ≤ clock.origin / 1000 + offset)
    (hend : slot + offset < endOfYears) (hslot : clock.wallMillis < 1000 * slot) :
    (clock.now.wake (Schedule.delayUntil slot clock.wall) : Int) =
      1000000 * (1000 * slot - clock.origin) := by
  have hyears : endOfYears = 4133980800 := by decide
  rw [hyears] at hend
  have hlimit : Instant.limit = 9223372036854775808000000000 := by decide
  have hsum : ((clock.now + (Schedule.delayUntil slot clock.wall).nanos : Nat) : Int) =
      1000000 * (1000 * slot - clock.origin) := by
    simp only [Clock.now, Schedule.delayUntil, Duration.between, Clock.wall, Timestamp.ofMillis,
      Timestamp.ofSeconds]
    unfold Clock.wallMillis at hslot
    omega
  have hlt : clock.now + (Schedule.delayUntil slot clock.wall).nanos < Instant.limit := by
    rw [hlimit, ← Int.ofNat_lt, hsum]
    omega
  rw [Instant.wake, Instant.add?, if_pos hlt]
  exact hsum

/-! ## What a watch keeps -/

/-- What is kept by the watch of an entry that is armed since before some seconds and has fired at
some milliseconds. It has fired for all of those seconds that meet its schedule and are not yet to
come; while its timer sleeps, the next of them is the one until which it sleeps. -/
inductive Watch.Keeps {α : Type} (zone : Zone) (clock : Clock) (since : Int → Prop)
    (fired : List Int) : Watch α → Prop
  | seeking {schedule : Schedule} {timer : TimerId} {payload : α} {lastFired : Option Int}
      (hlast : ∀ last, lastFired = some last → 1000 * last = clock.wallMillis)
      (hall : ∀ s, schedule.MeetsAt zone s → since s → 1000 * s ≤ clock.wallMillis →
        1000 * s ∈ fired) :
      Keeps zone clock since fired
        ⟨schedule, timer, some ⟨schedule, payload, lastFired, .seeking⟩⟩
  | sleeping {schedule : Schedule} {timer : TimerId} {payload : α} {lastFired : Option Int}
      {slot : Int} {wake : Instant}
      (hwake : (wake : Int) = 1000000 * (1000 * slot - clock.origin))
      (hmeets : schedule.MeetsAt zone slot) (hsince : since slot)
      (hslot : clock.wallMillis ≤ 1000 * slot) (hnew : ∀ ms ∈ fired, ms < 1000 * slot)
      (hall : ∀ s, schedule.MeetsAt zone s → since s → s < slot → 1000 * s ∈ fired) :
      Keeps zone clock since fired
        ⟨schedule, timer, some ⟨schedule, payload, lastFired, .sleeping slot wake⟩⟩
  | ended {schedule : Schedule} {timer : TimerId}
      (hall : ∀ s, schedule.MeetsAt zone s → since s → 1000 * s ∈ fired) :
      Keeps zone clock since fired ⟨schedule, timer, none⟩

namespace Watch

variable {α : Type} {zone : Zone} {since : Int → Prop} {fired : List Int} {w w' : Watch α}
  {before after : Option (Watch α)} {fires : Bool}

/-- An entry that has been armed since before a second and is not due has fired for it. -/
theorem Keeps.mem_fired (h : w.Keeps zone clock since fired) (hdue : w.isDue clock.now = false)
    {s : Int} (hmeets : w.schedule.MeetsAt zone s) (hsince : since s)
    (hle : 1000 * s ≤ clock.wallMillis) : 1000 * s ∈ fired := by
  cases h with
  | seeking hlast hall => exact hall s hmeets hsince hle
  | @sleeping schedule timer payload lastFired slot wake hwake _ _ hslot hnew hall =>
      have hlt : (clock.now : Int) < wake :=
        Int.ofNat_lt.2 (by simpa [isDue, Timer.wake?] using hdue)
      have hnow := clock.now_eq
      exact hall s hmeets hsince (by omega)
  | ended hall => exact hall s hmeets hsince

theorem keeps_of_begins (h : Watch.Step zone clock none (some w) fires)
    (hsince : ∀ s, since s → clock.wallMillis < 1000 * s) :
    w.Keeps zone clock since fired := by
  cases h with
  | begins schedule timer payload =>
      exact .seeking nofun fun s _ hs hle => absurd (hsince s hs) (Int.not_lt.2 hle)

theorem Step.schedule_eq (h : Watch.Step zone clock (some w) (some w') fires) :
    w'.schedule = w.schedule := by
  cases h <;> rfl

/-- An entry that fires was to fire for the present second, and has not yet. -/
theorem Step.of_fires {since : Watch α → Int → Prop}
    (h : Watch.Step zone clock before after true)
    (hbefore : ∀ w, before = some w → w.Keeps zone clock (since w) fired) :
    ∃ w w' s, before = some w ∧ after = some w' ∧ w'.schedule = w.schedule ∧
      w'.isDue clock.now = false ∧ clock.wallMillis = 1000 * s ∧ w.schedule.MeetsAt zone s ∧
      since w s ∧ ∀ ms ∈ fired, ms < 1000 * s := by
  cases h with
  | fires hpoint hdue =>
      cases hbefore _ rfl with
      | seeking => cases hpoint
      | sleeping hwake hmeets hsince hslot hnew =>
          cases hpoint
          have hnow := clock.now_eq
          have hle : _ ≤ (clock.now : Int) := Int.ofNat_le.2 hdue
          exact ⟨_, _, _, rfl, rfl, rfl, rfl, by omega, hmeets, hsince, hnew⟩

/-- A watch that goes on keeps what it has kept. -/
theorem Keeps.step (hw : w.Keeps (Zone.fixed offset) clock since fired)
    (h : Watch.Step (Zone.fixed offset) clock (some w) (some w') fires)
    (hs : w.schedule.Proper) (hyears : w.schedule.years = Field.years.range)
    (hyear : 0 ≤ clock.origin / 1000 + offset) (hpast : ∀ ms ∈ fired, ms ≤ clock.wallMillis)
    (hsince : ∀ s, clock.wallMillis < 1000 * s → since s) :
    w'.Keeps (Zone.fixed offset) clock since
      (fired ++ if fires then [clock.wallMillis] else []) := by
  cases h with
  | kept => exact (List.append_nil fired).symm ▸ hw
  | @sleeps schedule timer live slot hpoint hslot =>
      cases hw with
      | sleeping => cases hpoint
      | seeking hlast hall =>
          have hnext := Schedule.isNext_nextSlot hs hyears hyear hlast
          rw [hslot] at hnext
          obtain ⟨hlt, hmeets, hleast⟩ := hnext
          have hcoming : clock.wallMillis < 1000 * slot := by omega
          rw [if_neg Bool.false_ne_true, List.append_nil]
          refine .sleeping (wake_delayUntil hyear (hs.lt_endOfYears hmeets) hcoming) hmeets
            (hsince slot hcoming) (Int.le_of_lt hcoming)
            (fun ms hms => Int.lt_of_le_of_lt (hpast ms hms) hcoming) fun s hs hfrom hbefore => ?_
          -- No second between the present and the slot meets the schedule, so this one is past.
          refine hall s hs hfrom (Int.not_lt.1 fun hlater => ?_)
          exact hleast s (by omega) hbefore hs
  | finishes hpoint hnone =>
      cases hw with
      | sleeping => cases hpoint
      | seeking hlast hall =>
          rw [if_neg Bool.false_ne_true, List.append_nil]
          obtain ⟨slot, hslot⟩ | hnever :=
            (Schedule.isNext_nextSlot hs hyears hyear hlast).at_or_never
          · exact absurd hslot (hnone slot)
          · refine .ended fun s hs hfrom => hall s hs hfrom (Int.not_lt.1 fun hlater => ?_)
            exact hnever s (by omega) hs
  | @fires schedule timer live slot wake hpoint hdue =>
      cases hw with
      | seeking => cases hpoint
      | sleeping hwake hmeets hfrom hslot hnew hall =>
          cases hpoint
          have hnow := clock.now_eq
          have hle : (wake : Int) ≤ clock.now := Int.ofNat_le.2 hdue
          have hpresent : 1000 * slot = clock.wallMillis := by omega
          rw [if_pos rfl]
          refine .seeking (fun last hlast => Option.some.inj hlast ▸ hpresent)
            fun s hs hfrom hle => ?_
          have hupto : s ≤ slot := by omega
          obtain hbefore | rfl := Int.lt_or_eq_of_le hupto
          · exact List.mem_append_left _ (hall s hs hfrom hbefore)
          · exact List.mem_append_right _ (List.mem_singleton.2 hpresent)

/-- A watch keeps what it has kept while time passes, but not past the instant at which its timer
goes off. -/
theorem Keeps.pass {millis : Nat} (hw : w.Keeps zone clock since fired)
    (hsleep : ∀ live, w.live = some live →
      ∃ wake, live.wake? = some wake ∧ millis ≤ Instant.ceilMillis wake) :
    w.Keeps zone { clock with millis := millis } since fired := by
  cases hw with
  | seeking =>
      obtain ⟨wake, hwake, -⟩ := hsleep _ rfl
      cases hwake
  | @sleeping schedule timer payload lastFired slot wake hwake hmeets hsince hslot hnew hall =>
      obtain ⟨_, hsome, hle⟩ := hsleep _ rfl
      cases hsome
      refine .sleeping hwake hmeets hsince ?_ hnew hall
      -- The slot is a whole millisecond of the steady clock too, so the timer goes off just then.
      unfold Instant.ceilMillis at hle
      unfold Clock.wallMillis
      dsimp only
      omega
  | ended hall => exact .ended hall

end Watch

end Cron

/-! ## Runs -/

namespace System

variable {y z : System} {a : Step} {i : TableId} {id : EntryId} {t : Cron.Table String}
  {schedule : Schedule} {origin offset s : Int} {steps : List Step} {millis : Nat}

/-- Time passes only while all timers of a table sleep, and not past the instant at which one of
them goes off. -/
def punctual (i : TableId) (y : System) : Step → Bool
  | .pass millis => y.tables[i]?.all fun t =>
    t.timers.values.all fun live => live.wake?.any (millis ≤ Instant.ceilMillis ·)
  | _ => true

theorem punctual_pass_iff : y.punctual i (.pass millis) = true ↔
    ∀ t, y.tables[i]? = some t → ∀ live ∈ t.timers.values,
      ∃ wake, live.wake? = some wake ∧ millis ≤ Instant.ceilMillis wake := by
  change (y.tables[i]?.all fun t => t.timers.values.all fun live =>
    live.wake?.any (millis ≤ Instant.ceilMillis ·)) = true ↔ _
  simp only [Option.all_eq_true, List.all_eq_true, Option.any_eq_true, decide_eq_true_eq]

theorem advance_of_settled (h : y.Settled) (ht : y.tables[i]? = some t) (timer : TimerId) :
    t.advance y.clock timer = none := by
  have hmoves : y.tableTimerMoves i timer = [] := h (.tableTimer i timer)
  unfold tableTimerMoves at hmoves
  rw [ht, Option.bind_some] at hmoves
  cases hadvance : t.advance y.clock timer with
  | none => rfl
  | some made =>
      obtain ⟨_ | name, t'⟩ := made <;> simp [hadvance] at hmoves

/-- A timer that cannot go on sleeps. -/
theorem wake?_of_advance_eq_none {clock : Clock} {timer : TimerId} {live : Timer String}
    (h : t.advance clock timer = none) (hlook : t.timers.get? timer = some live) :
    ∃ wake, live.wake? = some wake := by
  obtain ⟨schedule, payload, lastFired, point⟩ := live
  cases point with
  | sleeping slot wake => exact ⟨wake, rfl⟩
  | seeking =>
      simp only [Table.advance, hlook] at h
      split at h <;> cases h

theorem mem_wakes {timer : TimerId} {live : Timer String} {wake : Instant}
    (ht : y.tables[i]? = some t) (hlook : t.timers.get? timer = some live)
    (hwake : live.wake? = some wake) : wake ∈ y.wakes := by
  have hmem : t ∈ y.tables.toList := Array.mem_toList_iff.2 (Array.mem_of_getElem? ht)
  have hlive : live ∈ t.timers.values := Registry.mem_values_iff.2 ⟨timer, hlook⟩
  unfold wakes
  simp only [List.mem_append]
  refine .inl (.inr (List.mem_flatten.2 ⟨_, List.mem_map.2 ⟨t, hmem, rfl⟩, ?_⟩))
  exact List.mem_filterMap.2 ⟨live, hlive, hwake⟩

/-- Time does not pass any of the instants at which something goes off. -/
theorem le_ceilMillis {wake : Instant} (hnext : ∀ next ∈ y.nextWake, millis ≤ next)
    (h : wake ∈ y.wakes) : millis ≤ wake.ceilMillis := by
  have hmem : wake.ceilMillis ∈ y.wakes.map Instant.ceilMillis := List.mem_map_of_mem h
  unfold nextWake at hnext
  cases hmin : (y.wakes.map Instant.ceilMillis).min? with
  | none =>
      rw [List.min?_eq_none_iff] at hmin
      rw [hmin] at hmem
      cases hmem
  | some next => exact (List.le_min?_iff hmin).1 (hnext next hmin) _ hmem

/-- Time that passes in a settled system is punctual. -/
theorem punctual_of_settled (h : y.Settled) (hnext : ∀ next ∈ y.nextWake, millis ≤ next) :
    y.punctual i (.pass millis) = true := by
  refine punctual_pass_iff.2 fun t ht live hlive => ?_
  obtain ⟨timer, hlook⟩ := Registry.mem_values_iff.1 hlive
  obtain ⟨wake, hwake⟩ := wake?_of_advance_eq_none (advance_of_settled h ht timer) hlook
  exact ⟨wake, hwake, le_ceilMillis hnext (mem_wakes ht hlook hwake)⟩

/-- The system after some steps, where time passes punctually for a table. -/
def punctualRun (origin : Int) (i : TableId) (steps : List Step) : System :=
  (create origin).run (punctual i) steps

/-- The reading of the wall clock when an entry fires. -/
def seeTrigger (i : TableId) (id : EntryId) (y : System) (a : Step) (_ : System) : List Int :=
  if y.triggers i id a then [y.clock.wallMillis] else []

/-- When an entry has fired, in milliseconds since 1970-01-01. -/
def triggerTimes (origin : Int) (i : TableId) (id : EntryId) (steps : List Step) : List Int :=
  (create origin).observe (punctual i) (seeTrigger i id) steps

/-- An entry is armed to fire for a schedule. -/
def Arms (y : System) (i : TableId) (id : EntryId) (schedule : Schedule) : Prop :=
  ∃ w, y.watch? i id = some w ∧ w.schedule = schedule

/-- An entry is armed after some steps, and has been so since before a second. -/
def ArmedSince (origin : Int) (i : TableId) (id : EntryId) (schedule : Schedule)
    (steps : List Step) (s : Int) : Prop :=
  ∃ past later, steps = past ++ later ∧
    (punctualRun origin i past).clock.wallMillis < 1000 * s ∧
    ∀ mid, mid <+: later → (punctualRun origin i (past ++ mid)).Arms i id schedule

/-- An entry was armed before a second and stayed so until its timer, if due then, had run. -/
def Attends (origin : Int) (i : TableId) (id : EntryId) (schedule : Schedule)
    (steps : List Step) (s : Int) : Prop :=
  ∃ past, past <+: steps ∧ ArmedSince origin i id schedule past s ∧
    1000 * s ≤ (punctualRun origin i past).clock.wallMillis ∧
    ∀ w, (punctualRun origin i past).watch? i id = some w →
      w.isDue (punctualRun origin i past).clock.now = false

theorem armedSince_of_lt (h : (punctualRun origin i steps).Arms i id schedule)
    (hlt : (punctualRun origin i steps).clock.wallMillis < 1000 * s) :
    ArmedSince origin i id schedule steps s := by
  refine ⟨steps, [], (List.append_nil steps).symm, hlt, fun mid hmid => ?_⟩
  rw [List.prefix_nil.1 hmid, List.append_nil]
  exact h

theorem ArmedSince.arms (h : ArmedSince origin i id schedule steps s) :
    (punctualRun origin i steps).Arms i id schedule := by
  obtain ⟨past, later, rfl, -, hall⟩ := h
  exact hall later (List.prefix_refl later)

/-- An entry that is armed after one more step became so just then or has been so before. -/
theorem armedSince_concat : ArmedSince origin i id schedule (steps ++ [a]) s ↔
    (punctualRun origin i (steps ++ [a])).Arms i id schedule ∧
      ((punctualRun origin i (steps ++ [a])).clock.wallMillis < 1000 * s ∨
        ArmedSince origin i id schedule steps s) := by
  constructor
  · intro h
    refine ⟨h.arms, ?_⟩
    obtain ⟨past, later, hsteps, hlt, hall⟩ := h
    obtain rfl | ⟨later, b, rfl⟩ := List.eq_nil_or_concat later
    · rw [List.append_nil] at hsteps
      exact .inl (hsteps ▸ hlt)
    · rw [List.concat_eq_append, ← List.append_assoc] at hsteps
      obtain ⟨rfl, -⟩ := List.append_inj' hsteps rfl
      exact .inr ⟨past, later, rfl, hlt, fun mid hmid =>
        hall mid (hmid.trans (List.prefix_concat b later))⟩
  · rintro ⟨harms, hlt | ⟨past, later, rfl, hlt, hall⟩⟩
    · exact armedSince_of_lt harms hlt
    · refine ⟨past, later ++ [a], List.append_assoc past later [a], hlt, fun mid hmid => ?_⟩
      obtain rfl | hmid := List.prefix_concat_iff.1 hmid
      · rw [← List.append_assoc]
        exact harms
      · exact hall mid hmid

theorem Attends.append (h : Attends origin i id schedule steps s) (later : List Step) :
    Attends origin i id schedule (steps ++ later) s := by
  obtain ⟨past, hpast, hattends⟩ := h
  exact ⟨past, hpast.trans (List.prefix_append steps later), hattends⟩

/-! ### The setting -/

/-- The offset of the zone of a table never changes, local time begins in a year that schedules can
have, and no schedule restricts the years. -/
structure Plain (offset origin : Int) (i : TableId) (steps : List Step) : Prop where
  zone : ∀ t, (punctualRun origin i steps).tables[i]? = some t → t.zone.zone = Zone.fixed offset
  year : (Field.years.first : Int) ≤
    (LocalTime.ofSeconds ((Zone.fixed offset).localSeconds (origin / 1000))).date.year
  years : ∀ name expression schedule, .request (.addEntry i name expression) ∈ steps →
    Schedule.parse expression = .ok schedule → schedule.years = Field.years.range

theorem table_run (ht : y.tables[i]? = some t) (allowed : System → Step → Bool)
    (steps : List Step) :
    ∃ t', (y.run allowed steps).tables[i]? = some t' ∧ t'.zone = t.zone := by
  refine run_induction (P := fun y => ∃ t', y.tables[i]? = some t' ∧ t'.zone = t.zone)
    (fun y a z _ hz hy => ?_) ⟨t, ht, rfl⟩ steps
  obtain ⟨t', ht', hzone⟩ := hy
  obtain ⟨t'', ht'', hchange⟩ := change_of_table hz ht'
  exact ⟨t'', ht'', hchange.zone.trans hzone⟩

theorem Plain.of_append {later : List Step} (h : Plain offset origin i (steps ++ later)) :
    Plain offset origin i steps where
  zone t ht := by
    obtain ⟨t', ht', hzone⟩ := table_run ht (punctual i) later
    rw [← hzone]
    refine h.zone t' ?_
    rw [punctualRun, run_append]
    exact ht'
  year := h.year
  years name expression schedule ha := h.years name expression schedule (List.mem_append_left _ ha)

theorem Plain.schedules (h : Plain offset origin i steps)
    (ht : (punctualRun origin i steps).tables[i]? = some t) :
    t.Schedules fun schedule => schedule.Proper ∧ schedule.years = Field.years.range :=
  schedules_of_run origin (fun name expression schedule ha hparse =>
    ⟨Schedule.proper_of_parse hparse, h.years name expression schedule ha hparse⟩) ht

theorem Plain.proper (h : Plain offset origin i steps) {w : Watch String}
    (hw : (punctualRun origin i steps).watch? i id = some w) :
    w.schedule.Proper ∧ w.schedule.years = Field.years.range := by
  obtain ⟨t, ht, hw⟩ := Option.bind_eq_some_iff.1 hw
  obtain ⟨e, he, -, hschedule, -⟩ := Table.watch?_eq_some_iff.1 hw
  rw [← hschedule]
  exact (h.schedules ht).kind he

theorem origin_punctualRun (origin : Int) (i : TableId) (steps : List Step) :
    (punctualRun origin i steps).clock.origin = origin := by
  refine run_induction (P := fun y => y.clock.origin = origin) (fun y a z _ hz hy => ?_) rfl steps
  rw [(tableChange_of_step hz 0).2]
  cases a <;> exact hy

/-! ### One more step -/

/-- What one more step of a run means for an entry: either its watch makes a step, or time passes,
but not beyond the instant at which its timer goes off. -/
inductive Continues (zone : Zone) (i : TableId) (id : EntryId) (y z : System)
    (fired : List Int) : List Int → Prop
  | moves {fires : Bool} (hclock : z.clock = y.clock)
      (hstep : Watch.Step zone y.clock (y.watch? i id) (z.watch? i id) fires) :
      Continues zone i id y z fired (fired ++ if fires then [y.clock.wallMillis] else [])
  | passes {millis : Nat} (hlt : y.clock.millis < millis)
      (hclock : z.clock = { y.clock with millis := millis })
      (hwatch : z.watch? i id = y.watch? i id)
      (hsleep : ∀ w, y.watch? i id = some w → ∀ live, w.live = some live →
        ∃ wake, live.wake? = some wake ∧ millis ≤ Instant.ceilMillis wake) :
      Continues zone i id y z fired fired

theorem sleeps_of_punctual (h : y.punctual i (.pass millis) = true) {w : Watch String}
    (hw : y.watch? i id = some w) {live : Timer String} (hlive : w.live = some live) :
    ∃ wake, live.wake? = some wake ∧ millis ≤ Instant.ceilMillis wake := by
  obtain ⟨t, ht, hw⟩ := Option.bind_eq_some_iff.1 hw
  obtain ⟨e, -, -, -, hlook⟩ := Table.watch?_eq_some_iff.1 hw
  exact punctual_pass_iff.1 h t ht live
    (Registry.mem_values_iff.2 ⟨w.timer, hlook.symm.trans hlive⟩)

theorem Plain.continues (h : Plain offset origin i (steps ++ [a])) (id : EntryId) :
    Continues (Zone.fixed offset) i id (punctualRun origin i steps)
      (punctualRun origin i (steps ++ [a])) (triggerTimes origin i id steps)
      (triggerTimes origin i id (steps ++ [a])) := by
  have hbefore := h.of_append
  have hrun : punctualRun origin i (steps ++ [a]) =
      (punctualRun origin i steps).run (punctual i) [a] := run_append _ _ _
  have hfired : triggerTimes origin i id (steps ++ [a]) = triggerTimes origin i id steps ++
      (punctualRun origin i steps).observe (punctual i) (seeTrigger i id) [a] :=
    observe_append _ _ _
  rw [hrun, hfired]
  cases hnext : (punctualRun origin i steps).next? (punctual i) a with
  | none =>
      rw [run_cons_of_none hnext, observe_cons_of_none hnext]
      exact .moves rfl (.refl _)
  | some z =>
      rw [run_cons_of_some hnext, observe_cons_of_some hnext, observe, List.append_nil]
      obtain ⟨hallowed, hz⟩ := next?_eq_some_iff.1 hnext
      have hclock := (tableChange_of_step hz i).2
      have hmoves (hsame : z.clock = (punctualRun origin i steps).clock) :
          Continues (Zone.fixed offset) i id (punctualRun origin i steps) z
            (triggerTimes origin i id steps) (triggerTimes origin i id steps ++
              seeTrigger i id (punctualRun origin i steps) a z) :=
        .moves hsame (watchStep_of_step hz
          (fun t ht => ⟨hbefore.schedules ht, hbefore.zone t ht⟩) id)
      cases a with
      | request | move => exact hmoves hclock
      | pass millis =>
          obtain ⟨hlt, rfl⟩ := step_pass_iff.1 hz
          have hquiet (u z : System) : seeTrigger i id u (.pass millis) z = [] := rfl
          rw [hquiet, List.append_nil]
          exact .passes hlt hclock rfl fun w hw live hlive => sleeps_of_punctual hallowed hw hlive

/-- Since when an entry has been armed does not change while its watch goes on. -/
theorem armedSince_concat_eq {w w' : Watch String}
    (hw : (punctualRun origin i steps).watch? i id = some w)
    (hw' : (punctualRun origin i (steps ++ [a])).watch? i id = some w')
    (hschedule : w'.schedule = w.schedule)
    (hle : (punctualRun origin i steps).clock.wallMillis ≤
      (punctualRun origin i (steps ++ [a])).clock.wallMillis) :
    ArmedSince origin i id w'.schedule (steps ++ [a]) =
      ArmedSince origin i id w.schedule steps := by
  funext s
  refine propext (armedSince_concat.trans ⟨?_, fun h => ⟨⟨w', hw', rfl⟩, .inr (hschedule ▸ h)⟩⟩)
  rintro ⟨-, hlt | h⟩
  · exact armedSince_of_lt ⟨w, hw, rfl⟩ (Int.lt_of_le_of_lt hle hlt)
  · exact hschedule ▸ h

/-! ### Whole runs -/

/-- How an entry has fired in a run, and what its watch keeps. -/
structure Exact (offset origin : Int) (i : TableId) (id : EntryId) (steps : List Step) : Prop where
  ascending : (triggerTimes origin i id steps).Pairwise (· < ·)
  past : ∀ ms ∈ triggerTimes origin i id steps,
    ms ≤ (punctualRun origin i steps).clock.wallMillis
  keeps : ∀ w, (punctualRun origin i steps).watch? i id = some w →
    w.Keeps (Zone.fixed offset) (punctualRun origin i steps).clock
      (ArmedSince origin i id w.schedule steps) (triggerTimes origin i id steps)
  attended : ∀ ms ∈ triggerTimes origin i id steps, ∃ s schedule, ms = 1000 * s ∧
    Schedule.MeetsAt schedule (Zone.fixed offset) s ∧ Attends origin i id schedule steps s

theorem exact_nil (offset origin : Int) (i : TableId) (id : EntryId) :
    Exact offset origin i id [] where
  ascending := .nil
  past := nofun
  keeps w hw := by
    have hnone : (punctualRun origin i []).watch? i id = none := by
      simp [punctualRun, run, create, watch?]
    rw [hnone] at hw
    cases hw
  attended := nofun

/-- After a step the watch of an entry keeps what it is to keep. -/
theorem Exact.keeps_concat {fires : Bool} {w' : Watch String} (h : Exact offset origin i id steps)
    (hplain : Plain offset origin i steps)
    (hclock : (punctualRun origin i (steps ++ [a])).clock = (punctualRun origin i steps).clock)
    (hw' : (punctualRun origin i (steps ++ [a])).watch? i id = some w')
    (hstep : Watch.Step (Zone.fixed offset) (punctualRun origin i steps).clock
      ((punctualRun origin i steps).watch? i id) (some w') fires) :
    w'.Keeps (Zone.fixed offset) (punctualRun origin i steps).clock
      (ArmedSince origin i id w'.schedule (steps ++ [a])) (triggerTimes origin i id steps ++
        if fires then [(punctualRun origin i steps).clock.wallMillis] else []) := by
  cases hw : (punctualRun origin i steps).watch? i id with
  | none =>
      rw [hw] at hstep
      refine Watch.keeps_of_begins hstep fun s hs => ?_
      obtain ⟨-, hlt | hsince⟩ := armedSince_concat.1 hs
      · exact hclock ▸ hlt
      · obtain ⟨w, hsome, -⟩ := hsince.arms
        rw [hw] at hsome
        cases hsome
  | some w =>
      rw [hw] at hstep
      rw [armedSince_concat_eq hw hw' hstep.schedule_eq (Int.le_of_eq (by rw [hclock]))]
      obtain ⟨hproper, hyears⟩ := hplain.proper hw
      refine (h.keeps w hw).step hstep hproper hyears ?_ h.past
        fun s hlt => armedSince_of_lt ⟨w, hw, rfl⟩ hlt
      rw [origin_punctualRun]
      exact LocalTime.first_le_year_iff.1 hplain.year

/-- What is preserved by a step of the watch. -/
theorem Exact.moves {fires : Bool} (h : Exact offset origin i id steps)
    (hplain : Plain offset origin i steps)
    (hclock : (punctualRun origin i (steps ++ [a])).clock = (punctualRun origin i steps).clock)
    (hstep : Watch.Step (Zone.fixed offset) (punctualRun origin i steps).clock
      ((punctualRun origin i steps).watch? i id)
      ((punctualRun origin i (steps ++ [a])).watch? i id) fires)
    (hfired : triggerTimes origin i id (steps ++ [a]) = triggerTimes origin i id steps ++
      if fires then [(punctualRun origin i steps).clock.wallMillis] else []) :
    Exact offset origin i id (steps ++ [a]) := by
  have hwall : (punctualRun origin i (steps ++ [a])).clock.wallMillis =
      (punctualRun origin i steps).clock.wallMillis := by rw [hclock]
  have hmem {ms : Int} (hms : ms ∈ triggerTimes origin i id (steps ++ [a])) :
      ms ∈ triggerTimes origin i id steps ∨ fires = true ∧
        ms = (punctualRun origin i steps).clock.wallMillis := by
    rw [hfired, List.mem_append] at hms
    refine hms.imp_right fun hms => ?_
    split at hms
    · exact ⟨‹_›, List.mem_singleton.1 hms⟩
    · cases hms
  have hfires (htrue : fires = true) := (htrue ▸ hstep).of_fires h.keeps
  refine ⟨?_, fun ms hms => ?_, fun w' hw' => ?_, fun ms hms => ?_⟩
  · rw [hfired, List.pairwise_append]
    refine ⟨h.ascending, ?_, fun ms hms later hlater => ?_⟩
    · split
      · exact List.pairwise_singleton _ _
      · exact .nil
    · split at hlater
      · obtain ⟨_, _, s, -, -, -, -, hnow, -, -, hnew⟩ := hfires ‹_›
        rw [List.mem_singleton.1 hlater, hnow]
        exact hnew ms hms
      · cases hlater
  · obtain hms | ⟨-, rfl⟩ := hmem hms
    · exact hwall ▸ h.past ms hms
    · exact Int.le_of_eq hwall.symm
  · rw [hclock, hfired]
    exact h.keeps_concat hplain hclock hw' (hw' ▸ hstep)
  · obtain hms | ⟨htrue, rfl⟩ := hmem hms
    · obtain ⟨s, schedule, rfl, hmeets, hattends⟩ := h.attended ms hms
      exact ⟨s, schedule, rfl, hmeets, hattends.append [a]⟩
    · obtain ⟨w, w', s, hw, hw', hschedule, hdue, hnow, hmeets, hsince, -⟩ := hfires htrue
      refine ⟨s, w.schedule, hnow, hmeets, steps ++ [a], List.prefix_refl _,
        armedSince_concat.2 ⟨⟨w', hw', hschedule⟩, .inr hsince⟩,
        Int.le_of_eq (hnow.symm.trans hwall.symm), fun v hv => ?_⟩
      obtain rfl := Option.some.inj (hw'.symm.trans hv)
      rw [hclock]
      exact hdue

/-- What is preserved while time passes. -/
theorem Exact.passes (h : Exact offset origin i id steps)
    (hlt : (punctualRun origin i steps).clock.millis < millis)
    (hclock : (punctualRun origin i (steps ++ [a])).clock =
      { (punctualRun origin i steps).clock with millis := millis })
    (hwatch : (punctualRun origin i (steps ++ [a])).watch? i id =
      (punctualRun origin i steps).watch? i id)
    (hsleep : ∀ w, (punctualRun origin i steps).watch? i id = some w →
      ∀ live, w.live = some live →
        ∃ wake, live.wake? = some wake ∧ millis ≤ Instant.ceilMillis wake)
    (hfired : triggerTimes origin i id (steps ++ [a]) = triggerTimes origin i id steps) :
    Exact offset origin i id (steps ++ [a]) := by
  have hle : (punctualRun origin i steps).clock.wallMillis ≤
      (punctualRun origin i (steps ++ [a])).clock.wallMillis := by
    rw [hclock]
    unfold Clock.wallMillis
    dsimp only
    omega
  refine ⟨hfired ▸ h.ascending, fun ms hms => ?_, fun w hw => ?_, fun ms hms => ?_⟩
  · exact Int.le_trans (h.past ms (hfired ▸ hms)) hle
  · have hw' := hwatch ▸ hw
    rw [armedSince_concat_eq hw' hw rfl hle, hfired, hclock]
    exact (h.keeps w hw').pass (hsleep w hw')
  · obtain ⟨s, schedule, rfl, hmeets, hattends⟩ := h.attended ms (hfired ▸ hms)
    exact ⟨s, schedule, rfl, hmeets, hattends.append [a]⟩

theorem exact_of_plain (h : Plain offset origin i steps) (id : EntryId) :
    Exact offset origin i id steps := by
  -- On the steps from the last one on: what an entry has attended is known at the end of a run.
  induction steps using List.reverseRecOn with
  | nil => exact exact_nil offset origin i id
  | append_singleton steps a ih =>
      have hbefore := h.of_append
      have hcontinues := h.continues id
      generalize hfired : triggerTimes origin i id (steps ++ [a]) = fired at hcontinues
      cases hcontinues with
      | moves hclock hstep => exact (ih hbefore).moves hbefore hclock hstep hfired
      | passes hlt hclock hwatch hsleep =>
          exact (ih hbefore).passes hlt hclock hwatch hsleep hfired

/-- An entry fires once for each second that meets its schedule, if it was armed before and stayed
so until its timer had run; in the order of the seconds, and never otherwise. No timer fires but
that of an entry. An entry has still fired once for the present second when its table has been
stopped and started. -/
theorem triggers_exact (h : Plain offset origin i steps) (id : EntryId) :
    (triggerTimes origin i id steps).Pairwise (· < ·) ∧
      (∀ ms, ms ∈ triggerTimes origin i id steps ↔ ∃ s schedule, ms = 1000 * s ∧
        Schedule.MeetsAt schedule (Zone.fixed offset) s ∧
        Attends origin i id schedule steps s) ∧
      (∀ t timer choice payload t', (punctualRun origin i steps).tables[i]? = some t →
        t.advance (punctualRun origin i steps).clock timer = some (some payload, t') →
        ∃ k, t.payload? k = some payload ∧
          (punctualRun origin i steps).triggers i k (.move (.tableTimer i timer) choice) = true) ∧
      ∀ past rest schedule s,
        steps = past ++ .request (.stopTable i) :: .request (.startTable i) :: rest →
        (punctualRun origin i past).clock.wallMillis = 1000 * s →
        Schedule.MeetsAt schedule (Zone.fixed offset) s →
        Attends origin i id schedule past s →
        (triggerTimes origin i id steps).count (1000 * s) = 1 := by
  have hmem (ms : Int) : ms ∈ triggerTimes origin i id steps ↔ ∃ s schedule, ms = 1000 * s ∧
      Schedule.MeetsAt schedule (Zone.fixed offset) s ∧
      Attends origin i id schedule steps s := by
    refine ⟨(exact_of_plain h id).attended ms, ?_⟩
    rintro ⟨s, schedule, rfl, hmeets, past, ⟨later, rfl⟩, hsince, hle, hdue⟩
    obtain ⟨w, hw, rfl⟩ := hsince.arms
    -- The entry has fired by the end of `past`, and the whole run has seen what `past` has.
    have hfired := ((exact_of_plain h.of_append id).keeps w hw).mem_fired (hdue w hw)
      hmeets hsince hle
    rw [triggerTimes, observe_append]
    exact List.mem_append_left _ hfired
  have hascending := (exact_of_plain h id).ascending
  refine ⟨hascending, hmem, fun t timer choice payload t' ht hadvance => ?_,
    fun past rest schedule s hsteps _ hmeets hattends => ?_⟩
  · exact exists_triggers ht (h.schedules ht).toLinked hadvance choice
  · have hfired : 1000 * s ∈ triggerTimes origin i id steps :=
      (hmem _).2 ⟨s, schedule, rfl, hmeets, hsteps ▸ hattends.append _⟩
    rw [List.Nodup.count (hascending.imp Int.ne_of_lt), if_pos hfired]

/-- An entry for every second fires for the first time. -/
def untilRestart : List Step := [
  .request (.newTable .localTime), .request (.addEntry 0 "tick" "* * * * * *"),
  .request (.startTable 0), .move (.tableTimer 0 0) 0, .pass 1000,
  .move (.tableTimer 0 0) 0, .move (.tableTimer 0 0) 0]

/-- The restart of the table, and the next second. -/
def fromRestart : List Step := [
  .request (.stopTable 0), .request (.startTable 0), .move (.tableTimer 0 1) 0, .pass 2000,
  .move (.tableTimer 0 1) 0]

theorem plain_restart : Plain 19800 0 0 (untilRestart ++ fromRestart) where
  zone t ht := by
    have hzone : (punctualRun 0 0 (untilRestart ++ fromRestart)).tables[0]?.map (·.zone) =
        some .localTime := by decide +kernel
    rw [ht] at hzone
    have hlocal : t.zone = .localTime := Option.some.inj hzone
    rw [hlocal]
    rfl
  year := by decide +kernel
  years name expression schedule ha hparse := by
    have hread : (Schedule.parse "* * * * * *").toOption.map (·.years) =
        some Field.years.range := by decide +kernel
    have hadded : name = "tick" ∧ expression = "* * * * * *" := by
      simpa [untilRestart, fromRestart] using ha
    rw [← hadded.2, hparse] at hread
    exact Option.some.inj hread

theorem triggers_exact_restart :
    Plain 19800 0 0 (untilRestart ++ fromRestart) ∧
      triggerTimes 0 0 1 (untilRestart ++ fromRestart) = [1000, 2000] ∧
      (triggerTimes 0 0 1 (untilRestart ++ fromRestart)).count 1000 = 1 := by
  obtain ⟨s, schedule, hs, hmeets, hattends⟩ :=
    ((triggers_exact plain_restart.of_append 1).2.1 1000).1 (by decide +kernel)
  obtain rfl : s = 1 := by omega
  exact ⟨plain_restart, by decide +kernel, (triggers_exact plain_restart 1).2.2.2 untilRestart _
    schedule 1 rfl (by decide +kernel) hmeets hattends⟩

end System

end Scheduling
