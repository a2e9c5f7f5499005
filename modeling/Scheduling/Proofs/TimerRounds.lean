import Scheduling.Proofs.CronTables
import Scheduling.Proofs.NextTimes
/-!
# The rounds of a timer

A timer goes round after round: it reads the clock, looks for its next slot, reads the clock again
and sleeps until the slot. Nothing is assumed about the readings, which may jump in either direction
between two rounds and within one. As the search starts from the later of the reading and the slot
that was fired last, the slots come in order and are ahead of the readings.
-/

namespace Scheduling.Cron

/-- A round of a timer: the reading of the clock from which it looks for a slot, the slot, and the
reading from which it sleeps until then. -/
structure Round where
  reading : Timestamp
  slot : Int
  later : Timestamp

/-- How long a timer sleeps in a round. -/
def Round.delay (r : Round) : Duration := Schedule.delayUntil r.slot r.later

namespace Schedule

variable {s : Schedule} {zone : Zone} {last : Option Int} {reading : Timestamp} {slot : Int}
  {expression : String}

/-- The rounds of a timer that fired last at `last`, each with its two readings of the clock; there
is no further one once no slot is found. -/
def rounds (s : Schedule) (zone : Zone) :
    Option Int → List (Timestamp × Timestamp) → List Round
  | _, [] => []
  | last, (reading, later) :: readings =>
    match s.nextSlot zone last reading with
    | .at slot => ⟨reading, slot, later⟩ :: s.rounds zone (some slot) readings
    | _ => []

/-- The slots of some rounds. -/
def slots (rounds : List Round) : List Int := rounds.map Round.slot

/-- The next time of a schedule is later than the instant after which it is searched. -/
def LooksAhead (s : Schedule) (zone : Zone) : Prop :=
  ∀ (after : Timestamp) (u : Int), s.nextAfter zone after = .at u →
    after.nanos < (Timestamp.ofSeconds u).nanos

theorem looksAhead_of_spaced (hs : s.Proper) (hzone : zone.Spaced) : s.LooksAhead zone :=
  fun _ _ h => Timestamp.lt_ofSeconds.2 (lt_of_nextAfter_eq_at hs hzone h)

theorem reading_le_searchStart (last : Option Int) (reading : Timestamp) :
    reading.nanos ≤ (searchStart last reading).nanos := by
  unfold searchStart
  split
  · exact Int.le_refl _
  · split
    · assumption
    · exact Int.le_refl _

theorem last_le_searchStart (last : Int) (reading : Timestamp) :
    (Timestamp.ofSeconds last).nanos ≤ (searchStart (some last) reading).nanos := by
  unfold searchStart
  dsimp only
  split
  · exact Int.le_refl _
  · exact Int.le_of_lt (Int.not_le.1 ‹_›)

theorem LooksAhead.reading_lt (h : s.LooksAhead zone)
    (hslot : s.nextSlot zone last reading = .at slot) :
    reading.nanos < (Timestamp.ofSeconds slot).nanos :=
  Int.lt_of_le_of_lt (reading_le_searchStart last reading) (h _ _ hslot)

/-- A slot that was fired is not found again, whatever the clock shows. -/
theorem LooksAhead.last_lt {last : Int} (h : s.LooksAhead zone)
    (hslot : s.nextSlot zone (some last) reading = .at slot) : last < slot := by
  have hlt := Int.lt_of_le_of_lt (last_le_searchStart last reading) (h _ _ hslot)
  rwa [Timestamp.lt_ofSeconds, Timestamp.seconds_ofSeconds] at hlt

-- The searches themselves stay closed: they do not compute here.
attribute [local irreducible] nextSlot in
theorem rounds_cons (s : Schedule) (zone : Zone) (last : Option Int) (reading later : Timestamp)
    (readings : List (Timestamp × Timestamp)) :
    s.rounds zone last ((reading, later) :: readings) =
      match s.nextSlot zone last reading with
      | .at slot => ⟨reading, slot, later⟩ :: s.rounds zone (some slot) readings
      | _ => [] := rfl

theorem rounds_of_eq_at (later : Timestamp) (readings : List (Timestamp × Timestamp))
    (hslot : s.nextSlot zone last reading = .at slot) :
    s.rounds zone last ((reading, later) :: readings) =
      ⟨reading, slot, later⟩ :: s.rounds zone (some slot) readings := by
  rw [rounds_cons, hslot]

theorem rounds_of_ne_at (later : Timestamp) (readings : List (Timestamp × Timestamp))
    (hnone : ∀ slot, s.nextSlot zone last reading ≠ .at slot) :
    s.rounds zone last ((reading, later) :: readings) = [] := by
  rw [rounds_cons]
  split
  · exact absurd ‹_› (hnone _)
  · rfl

/-- The slots of the rounds ascend, and come after the one that was fired last. -/
theorem LooksAhead.pairwise_slots (h : s.LooksAhead zone) (last : Option Int)
    (readings : List (Timestamp × Timestamp)) :
    (last.toList ++ slots (s.rounds zone last readings)).Pairwise (· < ·) := by
  induction readings generalizing last with
  | nil =>
      cases last with
      | none => exact .nil
      | some last => exact List.pairwise_singleton (· < ·) last
  | cons pair readings ih =>
      obtain ⟨reading, later⟩ := pair
      by_cases hfound : ∃ slot, s.nextSlot zone last reading = .at slot
      · obtain ⟨slot, hslot⟩ := hfound
        have hrest : (slot :: slots (s.rounds zone (some slot) readings)).Pairwise (· < ·) :=
          ih (some slot)
        rw [rounds_of_eq_at later readings hslot]
        cases last with
        | none => exact hrest
        | some last =>
            have hlt := h.last_lt hslot
            refine List.pairwise_cons.2 ⟨fun slot' hslot' => ?_, hrest⟩
            obtain rfl | hmem := List.mem_cons.1 hslot'
            · exact hlt
            · exact Int.lt_trans hlt ((List.pairwise_cons.1 hrest).1 slot' hmem)
      · rw [rounds_of_ne_at later readings fun slot hslot => hfound ⟨slot, hslot⟩]
        cases last with
        | none => exact .nil
        | some last => exact List.pairwise_singleton (· < ·) last

/-- Each round found its slot from its first reading. -/
theorem exists_of_mem_rounds {readings : List (Timestamp × Timestamp)} {r : Round}
    (hr : r ∈ s.rounds zone last readings) :
    (r.reading, r.later) ∈ readings ∧ ∃ last', s.nextSlot zone last' r.reading = .at r.slot := by
  induction readings generalizing last with
  | nil => cases hr
  | cons pair readings ih =>
      obtain ⟨reading, later⟩ := pair
      by_cases hfound : ∃ slot, s.nextSlot zone last reading = .at slot
      · obtain ⟨slot, hslot⟩ := hfound
        rw [rounds_of_eq_at later readings hslot] at hr
        obtain rfl | hr := List.mem_cons.1 hr
        · exact ⟨List.mem_cons_self, last, hslot⟩
        · exact ⟨List.mem_cons_of_mem _ (ih hr).1, (ih hr).2⟩
      · rw [rounds_of_ne_at later readings fun slot hslot => hfound ⟨slot, hslot⟩] at hr
        cases hr

end Schedule

/-- What holds of each round of a timer. -/
structure Round.Sound (s : Schedule) (zone : Zone) (r : Round) : Prop where
  /-- The slot is the one instant of a local time that meets the schedule. -/
  meets : ∃ x, s.Meets (LocalTime.ofSeconds x) ∧ zone.instantOf? x = some r.slot
  meetsAt : zone.Ordered → s.MeetsAt zone r.slot
  ahead : r.reading.nanos < (Timestamp.ofSeconds r.slot).nanos
  /-- The timer does not sleep at all if the clock has jumped past the slot. -/
  delay : (r.delay.nanos : Int) = max 0 ((Timestamp.ofSeconds r.slot).nanos - r.later.nanos)
  /-- If the clock was not set forward within the round, the timer sleeps until the slot. -/
  sleeps : r.later.nanos ≤ r.reading.nanos → 0 < r.delay.nanos

namespace Schedule

variable {s : Schedule} {zone : Zone} {expression : String}

theorem LooksAhead.sound {last : Option Int} {readings : List (Timestamp × Timestamp)} {r : Round}
    (h : s.LooksAhead zone) (hs : s.Proper) (hr : r ∈ s.rounds zone last readings) :
    r.Sound s zone := by
  obtain ⟨-, last', hslot⟩ := exists_of_mem_rounds hr
  obtain ⟨x, -, hmeets, hinstant⟩ := exists_of_nextAfter_eq_at hs hslot
  have hahead := h.reading_lt hslot
  have hdelay : r.delay.nanos = ((Timestamp.ofSeconds r.slot).nanos - r.later.nanos).toNat := rfl
  refine ⟨⟨x, hmeets, hinstant⟩, fun hzone => ?_, hahead, ?_, fun hback => ?_⟩
  · have hlocal := (hzone.localSeconds_eq_iff hinstant).2 rfl
    rw [MeetsAt, hlocal]
    exact hmeets
  · rw [hdelay, Int.toNat_eq_max, Int.max_comm]
  · rw [hdelay]
    omega

end Schedule

/-! ## The timers of a table -/

/-- The rounds of a timer that reads the clock once in each of them. -/
def roundsAt (s : Schedule) (zone : Zone) (last : Option Int) (readings : List Timestamp) :
    List Round :=
  s.rounds zone last (readings.map fun reading => (reading, reading))

/-- The slots that a timer has before it, if it takes some readings from where it stands. -/
def Timer.slotsAhead {α : Type} (live : Timer α) (zone : Zone) (readings : List Timestamp) :
    List Int :=
  match live.point with
  | .seeking => Schedule.slots (roundsAt live.schedule zone live.lastFired readings)
  | .sleeping slot _ => slot :: Schedule.slots (roundsAt live.schedule zone (some slot) readings)

namespace Table

variable {α : Type} {t t' u : Table α} {id : TimerId} {readings : List Timestamp}
  {fired : List Int}

/-- What a timer of a table does, whatever else happens to the table meanwhile: the readings of the
clock from which it looks for a slot, and the slots that it fires. The clocks may show anything. -/
inductive TimerRuns (id : TimerId) : Table α → List Timestamp → List Int → Table α → Prop
  | nil (t : Table α) : TimerRuns id t [] [] t
  | other {t t' u : Table α} {readings : List Timestamp} {fired : List Int}
      (hsame : t'.timers.get? id = t.timers.get? id) (hzone : t'.zone = t.zone)
      (h : TimerRuns id t' readings fired u) : TimerRuns id t readings fired u
  | seeks {t t' u : Table α} {readings : List Timestamp} {fired : List Int} {clock : Clock}
      (hmove : t.advance clock id = some (none, t')) (h : TimerRuns id t' readings fired u) :
      TimerRuns id t (clock.wall :: readings) fired u
  | fires {t t' u : Table α} {readings : List Timestamp} {fired : List Int} {clock : Clock}
      {live : Timer α} {slot : Int} {wake : Instant} {payload : α}
      (hlive : t.timers.get? id = some live) (hpoint : live.point = .sleeping slot wake)
      (hmove : t.advance clock id = some (some payload, t'))
      (h : TimerRuns id t' readings fired u) : TimerRuns id t readings (slot :: fired) u

/-- The slots that a timer of a table has before it; one that has ended has none. -/
def slotsAhead (t : Table α) (id : TimerId) (readings : List Timestamp) : List Int :=
  ((t.timers.get? id).map fun live => live.slotsAhead t.zone.zone readings).getD []

theorem slotsAhead_of_get? {live : Timer α} (h : t.timers.get? id = some live)
    (readings : List Timestamp) :
    t.slotsAhead id readings = live.slotsAhead t.zone.zone readings := by
  rw [slotsAhead, h]
  rfl

/-- A timer fires the slots that it has before it, one after the other. -/
theorem TimerRuns.isPrefix (h : TimerRuns id t readings fired u) :
    fired <+: t.slotsAhead id readings := by
  induction h with
  | nil t => exact List.nil_prefix
  | other hsame hzone _ ih =>
      rw [slotsAhead, hsame, hzone] at ih
      exact ih
  | @seeks t t' u readings fired clock hmove _ ih =>
      obtain ⟨live, hlive, hcase⟩ := advance_cases hmove
      rw [slotsAhead_of_get? hlive]
      cases hcase with
      | sleep slot hpoint hslot =>
          rw [slotsAhead_of_get? ((Registry.get?_insert _ _ _ _).trans (if_pos rfl))] at ih
          rw [Timer.slotsAhead, hpoint]
          dsimp only
          rw [roundsAt, List.map_cons, Schedule.rounds_of_eq_at clock.wall _ hslot]
          exact ih
      | finish hpoint hnone =>
          have hgone : (t.timers.erase id).get? id = none :=
            (Registry.get?_erase _ _ _).trans (if_pos rfl)
          have hnil : fired = [] := by
            rw [slotsAhead, hgone] at ih
            exact List.prefix_nil.1 ih
          rw [hnil]
          exact List.nil_prefix
  | @fires t t' u readings fired clock live slot wake payload hlive hpoint hmove _ ih =>
      obtain ⟨live', hlive', hcase⟩ := advance_cases hmove
      obtain rfl := Option.some.inj (hlive.symm.trans hlive')
      rw [slotsAhead_of_get? hlive, Timer.slotsAhead, hpoint]
      cases hcase with
      | fire slot' wake' hpoint' =>
          obtain ⟨rfl, -⟩ := TimerPoint.sleeping.inj (hpoint.symm.trans hpoint')
          rw [slotsAhead_of_get? ((Registry.get?_insert _ _ _ _).trans (if_pos rfl))] at ih
          exact (List.prefix_cons_inj slot).2 ih

end Table

namespace Schedule

variable {s : Schedule} {zone : Zone} {expression : String}

/-- In a zone in which the next time of a schedule is always a later one, whatever the clock shows
when a timer looks for a slot and when it goes to sleep: the slots ascend, so none comes twice; each
meets the schedule and is later than the reading from which it was found; and the sleep is the time
left until the slot, or empty if there is none. A timer of a table that was just armed fires these
slots and no others, one after the other. -/
theorem rounds_ascend (hread : Schedule.parse expression = .ok s) (h : s.LooksAhead zone) :
    (∀ (last : Option Int) (readings : List (Timestamp × Timestamp)),
      (last.toList ++ slots (s.rounds zone last readings)).Pairwise (· < ·) ∧
        ∀ r ∈ s.rounds zone last readings, (r.reading, r.later) ∈ readings ∧ r.Sound s zone) ∧
    ∀ {α : Type} (t u : Table α) (id : TimerId) (payload : α) (readings : List Timestamp)
      (fired : List Int), t.timers.get? id = some ⟨s, payload, none, .seeking⟩ →
        t.zone.zone = zone → t.TimerRuns id readings fired u →
          fired <+: slots (roundsAt s zone none readings) ∧ fired.Pairwise (· < ·) := by
  have hs := proper_of_parse hread
  refine ⟨fun last readings => ⟨h.pairwise_slots last readings, fun r hr => ?_⟩,
    fun t u id payload readings fired hlive hzone hruns => ?_⟩
  · exact ⟨(exists_of_mem_rounds hr).1, h.sound hs hr⟩
  · have hfired : fired <+: slots (roundsAt s zone none readings) := by
      have hahead := hruns.isPrefix
      rw [Table.slotsAhead_of_get? hlive, hzone] at hahead
      exact hahead
    exact ⟨hfired, (h.pairwise_slots none _).sublist hfired.sublist⟩

/-- The clock is set back by an hour before the second round, in it to the year before, in the third
one past its slot, and then to 1970. -/
def jumpingReadings : List (Timestamp × Timestamp) :=
  [(⟨1729989000500000000⟩, ⟨1729989000500000000⟩), (⟨1729985400500000000⟩, ⟨1698366600000000000⟩),
    (⟨1731000000000000000⟩, ⟨1731030000000000000⟩), (⟨0⟩, ⟨0⟩)]

/-- The hour from which on the clock is read comes twice in the night of 27 October 2024. -/
theorem rounds_ascend_berlin : ∃ s, Schedule.parse "0 30 2,3 * * *" = .ok s ∧
    s.LooksAhead (Zone.recorded "Europe/Berlin") ∧
    (s.rounds (Zone.recorded "Europe/Berlin") none jumpingReadings).map
        (fun r => (r.slot, r.delay)) =
      [(1729996200, ⟨7199500000000⟩), (1730079000, ⟨31712400000000000⟩), (1731029400, ⟨0⟩),
        (1731033000, ⟨1731033000000000000⟩)] ∧
    (slots (s.rounds (Zone.recorded "Europe/Berlin") none jumpingReadings)).Pairwise (· < ·) ∧
    (∀ r ∈ s.rounds (Zone.recorded "Europe/Berlin") none jumpingReadings,
      r.Sound s (Zone.recorded "Europe/Berlin")) ∧
    ∀ (u : Table String) (readings : List Timestamp) (fired : List Int),
      ((Table.create (.named "Europe/Berlin" (Zone.recorded "Europe/Berlin"))).start.add s
          "entry").2.TimerRuns 0 readings fired u →
        fired.Pairwise (· < ·) := by
  obtain ⟨s, hread, hs⟩ := exists_of_parse "0 30 2,3 * * *"
    (fun s => (s.rounds (Zone.recorded "Europe/Berlin") none jumpingReadings).map
        (fun r => (r.slot, r.delay)) ==
      [(1729996200, ⟨7199500000000⟩), (1730079000, ⟨31712400000000000⟩), (1731029400, ⟨0⟩),
        (1731033000, ⟨1731033000000000000⟩)]) (by decide +kernel)
  have hzone := Zone.spaced_recorded "Europe/Berlin"
  have hahead := looksAhead_of_spaced (proper_of_parse hread) hzone
  obtain ⟨hrounds, htable⟩ := rounds_ascend hread hahead
  obtain ⟨hslots, hsound⟩ := hrounds none jumpingReadings
  exact ⟨s, hread, hahead, beq_iff_eq.1 hs, hslots, fun r hr => (hsound r hr).2,
    fun u readings fired hruns => (htable _ u 0 "entry" readings fired rfl rfl hruns).2⟩

end Schedule

end Scheduling.Cron
