import Mathlib.Order.Bounds.Defs
import Scheduling.Cron.Table
import Scheduling.Proofs.Openings
import Scheduling.Proofs.Zones
/-!
# The next time of a schedule

In a zone whose offset never changes, the search for the next time finds the least later second that
meets the schedule, among those from its opening on. So it misses none if the year in which it
starts is allowed, but can miss all that are left if it is not.

In a zone with offset changes, what the search finds is later than its start, also where the clock
is set back: a local time counts only if it belongs to one instant, and such a local time comes in
the order of the instants.
-/

namespace Scheduling

/-! ## Zones whose offset never changes -/

namespace Zone

theorem localSeconds_fixed (offset u : Int) : (fixed offset).localSeconds u = u + offset := rfl

theorem occurs_fixed (offset t : Int) : (fixed offset).occurs t = true := rfl

end Zone

theorem Timestamp.lt_ofSeconds {t : Timestamp} {u : Int} :
    t.nanos < (Timestamp.ofSeconds u).nanos ↔ t.seconds < u := by
  rw [Timestamp.ofSeconds, Timestamp.seconds]
  dsimp only
  omega

theorem Timestamp.seconds_ofSeconds (u : Int) : (Timestamp.ofSeconds u).seconds = u := by
  rw [Timestamp.ofSeconds, Timestamp.seconds]
  dsimp only
  omega

namespace Cron

/-- The second that a search found. -/
def Next.second? : Next → Option Int
  | .at u => some u
  | _ => none

namespace Schedule

variable {s : Schedule} {zone : Zone} {offset : Int} {start : LocalTime} {after : Timestamp}
  {u : Int} {expression : String}

theorem skips_fixed (offset : Int) (date : Date) : skips (Zone.fixed offset) date = false := by
  rw [skips, Zone.occurs_fixed]
  rfl

theorem ends_fixed {x : Int} : s.Ends (Zone.fixed offset) start x ↔
    start.toSeconds ≤ x ∧ s.Meets (LocalTime.ofSeconds x) := by
  refine ⟨fun h => ⟨h.ahead, fun f => ?_⟩, fun h => ⟨h.1, fun f _ => h.2 f, .inr ⟨h.2 _, rfl⟩⟩⟩
  by_cases hf : f = .daysOfWeek
  · subst hf
    exact (h.last.resolve_left (Bool.not_eq_true _ ▸ skips_fixed offset _)).1
  · exact h.allowed f hf

theorem outcome_fixed {β : Type} (skippedDate : β) (found : Int → β) (offset x : Int) :
    outcome skippedDate found (Zone.fixed offset) x = found (x - offset) :=
  outcome_of_not_skips (Bool.not_eq_true _ ▸ skips_fixed offset _)

/-! ## The next second -/

/-- A search gives the least later second of a set, or finds that there is none. -/
inductive IsNext (P : Int → Prop) (after : Int) : Next → Prop
  | at {u : Int} (hlt : after < u) (hu : P u) (hleast : ∀ v, after < v → v < u → ¬ P v) :
      IsNext P after (.at u)
  | never (h : ∀ v, after < v → ¬ P v) : IsNext P after .never

theorem IsNext.at_or_never {P : Int → Prop} {after : Int} {next : Next}
    (h : IsNext P after next) : (∃ u, next = .at u) ∨ ∀ v, after < v → ¬ P v := by
  obtain ⟨-, -, -⟩ | hnever := h
  · exact .inl ⟨_, rfl⟩
  · exact .inr hnever

theorem IsNext.congr {P Q : Int → Prop} {after : Int} {next : Next} (h : IsNext P after next)
    (hiff : ∀ v, after < v → (P v ↔ Q v)) : IsNext Q after next := by
  cases h with
  | «at» hlt hu hleast =>
      exact .at hlt ((hiff _ hlt).1 hu) fun v hv hvu hq => hleast v hv hvu ((hiff v hv).2 hq)
  | never h => exact .never fun v hv hq => h v hv ((hiff v hv).2 hq)

theorem IsNext.eq_at_iff {P : Int → Prop} {after : Int} {next : Next} (h : IsNext P after next) :
    next = .at u ↔ IsLeast {v | after < v ∧ P v} u := by
  cases h with
  | @«at» w hlt hw hleast =>
      have hmin : IsLeast {v | after < v ∧ P v} w :=
        ⟨⟨hlt, hw⟩, fun v hv => Int.not_lt.1 fun hvw => hleast v hv.1 hvw hv.2⟩
      rw [Next.at.injEq]
      exact ⟨fun heq => heq ▸ hmin, fun hu => Int.le_antisymm (hmin.2 hu.1) (hu.2 hmin.1)⟩
  | never h => exact ⟨fun heq => (by cases heq), fun hu => absurd hu.1.2 (h u hu.1.1)⟩

theorem IsNext.eq_never_iff {P : Int → Prop} {after : Int} {next : Next}
    (h : IsNext P after next) : next = .never ↔ ∀ v, after < v → ¬ P v := by
  cases h with
  | «at» hlt hu => exact ⟨fun heq => (by cases heq), fun hnone => absurd hu (hnone _ hlt)⟩
  | never h => exact ⟨fun _ => h, fun _ => rfl⟩

/-- No schedule is met after the last year. -/
theorem Proper.not_meets (hs : s.Proper) {x : Int}
    (hx : (LocalTime.mk ⟨Field.years.last + 1, 1, 1⟩ 0 0 0).toSeconds ≤ x) :
    ¬ s.Meets (LocalTime.ofSeconds x) := by
  intro hmeets
  have ht := LocalTime.valid_ofSeconds x
  have hsame := LocalTime.toSeconds_ofSeconds x
  generalize LocalTime.ofSeconds x = t at hmeets ht hsame
  have hlast : t.date.year.toNat ≤ Field.years.last := (hs.range (hmeets .years)).2
  have hle : t.date.year + 1 ≤ Field.years.last + 1 := by omega
  have hend := (LocalTime.year_bounds ht).2
  rw [hsame] at hend
  exact absurd (Int.lt_of_lt_of_le hend (LocalTime.toSeconds_year_mono hle)) (Int.not_lt.2 hx)

/-- The local time of an instant is not before the opening of a search. -/
def IsOpenAt (s : Schedule) (start : LocalTime) (zone : Zone) (u : Int) : Prop :=
  ∃ opening, s.opening? start = some opening ∧ opening.toSeconds ≤ zone.localSeconds u

theorem isNext_searchFrom (offset : Int) (hs : s.Proper) (hstart : start.Valid) :
    IsNext (fun v => s.MeetsAt (Zone.fixed offset) v ∧ s.IsOpenAt start (Zone.fixed offset) v)
      (start.toSeconds - offset - 1) (s.searchFrom (Zone.fixed offset) start) := by
  cases hopening : s.opening? start with
  | none =>
      rw [searchFrom_of_opening?_eq_none _ hopening]
      refine .never fun v _ h => ?_
      obtain ⟨opening, hsome, -⟩ := h.2
      rw [hopening] at hsome
      cases hsome
  | some opening =>
      have hle := le_opening hstart hopening
      obtain ⟨r, hr, hfinds⟩ := finds_searchFrom (Zone.fixed offset) hs hstart hopening
      rw [hr]
      have hends {v : Int} (h : s.MeetsAt (Zone.fixed offset) v ∧
          s.IsOpenAt start (Zone.fixed offset) v) :
          s.Ends (Zone.fixed offset) opening (v + offset) := by
        obtain ⟨hmeets, opening', hopening', hopen⟩ := h
        obtain rfl : opening = opening' := Option.some.inj (hopening.symm.trans hopening')
        exact ends_fixed.2 ⟨hopen, hmeets⟩
      cases hfinds with
      | @found x hx hlo hhi hleast =>
          obtain ⟨hahead, hmeets⟩ := ends_fixed.1 hx
          have hsame : x - offset + offset = x := by omega
          rw [outcome_fixed]
          refine .at (by omega) ⟨?_, opening, hopening, ?_⟩ fun v _ hlt h => ?_
          · rw [MeetsAt, Zone.localSeconds_fixed, hsame]
            exact hmeets
          · rw [Zone.localSeconds_fixed, hsame]
            exact hahead
          · exact hleast (v + offset) (hends h).ahead (by omega) (hends h)
      | missing hnone =>
          refine .never fun v _ h => ?_
          by_cases hlt : v + offset < (LocalTime.mk ⟨Field.years.last + 1, 1, 1⟩ 0 0 0).toSeconds
          · exact hnone (v + offset) (hends h).ahead hlt (hends h)
          · exact hs.not_meets (Int.not_lt.1 hlt) h.1

/-- The local time of the second after an instant, where the search for the next time starts. -/
def startAfter (zone : Zone) (after : Timestamp) : LocalTime :=
  LocalTime.ofSeconds (zone.localSeconds (after.seconds + 1))

theorem valid_startAfter (zone : Zone) (after : Timestamp) : (startAfter zone after).Valid :=
  LocalTime.valid_ofSeconds _

theorem toSeconds_startAfter (zone : Zone) (after : Timestamp) :
    (startAfter zone after).toSeconds = zone.localSeconds (after.seconds + 1) :=
  LocalTime.toSeconds_ofSeconds _

/-- The search misses no time from its opening on. -/
theorem isNext_nextAfter_opening (offset : Int) (hs : s.Proper) (after : Timestamp) :
    IsNext (fun v => s.MeetsAt (Zone.fixed offset) v ∧
      s.IsOpenAt (startAfter (Zone.fixed offset) after) (Zone.fixed offset) v) after.seconds
      (s.nextAfter (Zone.fixed offset) after) := by
  have hnext := isNext_searchFrom offset hs (valid_startAfter (Zone.fixed offset) after)
  have hlocal : after.seconds + 1 + offset - offset - 1 = after.seconds := by omega
  rw [toSeconds_startAfter, Zone.localSeconds_fixed, hlocal] at hnext
  exact hnext

/-- If the year of the start is allowed, the search misses no time at all. -/
theorem isNext_nextAfter_of_year (offset : Int) (hs : s.Proper)
    (hyear : (startAfter (Zone.fixed offset) after).date.year.toNat ∈ s.years) :
    IsNext (s.MeetsAt (Zone.fixed offset)) after.seconds
      (s.nextAfter (Zone.fixed offset) after) := by
  refine (isNext_nextAfter_opening offset hs after).congr fun v hv => and_iff_left ?_
  refine ⟨_, opening?_eq_start hs (valid_startAfter _ after) hyear, ?_⟩
  rw [toSeconds_startAfter, Zone.localSeconds_fixed, Zone.localSeconds_fixed]
  omega

theorem isNext_nextAfter (offset : Int) (hs : s.Proper) (hyears : s.years = Field.years.range)
    (after : Timestamp)
    (hyear : Field.years.first ≤ (LocalTime.ofSeconds
      ((Zone.fixed offset).localSeconds (after.seconds + 1))).date.year) :
    IsNext (s.MeetsAt (Zone.fixed offset)) after.seconds
      (s.nextAfter (Zone.fixed offset) after) := by
  have hstart := valid_startAfter (Zone.fixed offset) after
  by_cases hlast : (startAfter (Zone.fixed offset) after).date.year ≤ Field.years.last
  · refine isNext_nextAfter_of_year offset hs ?_
    rw [hyears, Field.mem_range]
    rw [startAfter] at hlast ⊢
    omega
  · -- Beyond the last year neither a search nor a schedule has anything left.
    refine (isNext_nextAfter_opening offset hs after).congr fun v hv =>
      ⟨And.left, fun hmeets => absurd hmeets (hs.not_meets ?_)⟩
    have hbegin := (LocalTime.year_bounds hstart).1
    have hmono := LocalTime.toSeconds_year_mono (Int.add_one_le_of_lt (Int.not_le.1 hlast))
    rw [toSeconds_startAfter, Zone.localSeconds_fixed] at hbegin
    rw [Zone.localSeconds_fixed]
    omega

/-- The next time of a schedule that allows every year is the least second after an instant, whole
or not, that meets the schedule, and there is none only if no second up to the end of the last year
does. -/
theorem nextAfter_least (hread : Schedule.parse expression = .ok s)
    (hyears : s.years = Field.years.range) (offset : Int) (after : Timestamp)
    (hyear : Field.years.first ≤ (startAfter (Zone.fixed offset) after).date.year) :
    (∀ u, s.nextAfter (Zone.fixed offset) after = .at u ↔
      IsLeast {v | after.nanos < (Timestamp.ofSeconds v).nanos ∧
        s.MeetsAt (Zone.fixed offset) v} u) ∧
      (s.nextAfter (Zone.fixed offset) after = .never ↔
        ∀ v, after.nanos < (Timestamp.ofSeconds v).nanos →
          (LocalTime.ofSeconds ((Zone.fixed offset).localSeconds v)).date.year ≤
            Field.years.last → ¬ s.MeetsAt (Zone.fixed offset) v) := by
  have hs := proper_of_parse hread
  have hnext := isNext_nextAfter offset hs hyears after hyear
  refine ⟨fun u => ?_, ?_⟩
  · simp only [Timestamp.lt_ofSeconds]
    exact hnext.eq_at_iff
  · simp only [Timestamp.lt_ofSeconds]
    rw [hnext.eq_never_iff]
    refine ⟨fun h v hv _ => h v hv, fun h v hv hmeets => h v hv ?_ hmeets⟩
    have hlast : _ ≤ Field.years.last := (hs.range (hmeets .years)).2
    rw [LocalTime.value] at hlast
    omega

/-- Half a second before a 29 February begins, and when it begins. -/
theorem nextAfter_least_leapDay : ∃ s, Schedule.parse "0 0 29 2 *" = .ok s ∧
    s.years = Field.years.range ∧
    IsLeast {v | 1709144999500000000 < (Timestamp.ofSeconds v).nanos ∧
      s.MeetsAt (Zone.fixed 19800) v} 1709145000 ∧
    IsLeast {v | 1709145000000000000 < (Timestamp.ofSeconds v).nanos ∧
      s.MeetsAt (Zone.fixed 19800) v} 1835375400 := by
  obtain ⟨s, hread, hs⟩ := exists_of_parse "0 0 29 2 *"
    (fun s => s.years == Field.years.range &&
      s.nextAfter (Zone.fixed 19800) ⟨1709144999500000000⟩ == .at 1709145000 &&
      s.nextAfter (Zone.fixed 19800) ⟨1709145000000000000⟩ == .at 1835375400) (by decide +kernel)
  simp only [Bool.and_eq_true, beq_iff_eq] at hs
  obtain ⟨⟨hyears, hfirst⟩, hsecond⟩ := hs
  exact ⟨s, hread, hyears,
    ((nextAfter_least hread hyears 19800 ⟨1709144999500000000⟩ (by decide)).1 _).1 hfirst,
    ((nextAfter_least hread hyears 19800 ⟨1709145000000000000⟩ (by decide)).1 _).1 hsecond⟩

/-! ### Explicit years -/

/-- A timer that looks for its next slot stays if it finds one, and ends if it finds none. -/
theorem advance_seeking {α : Type} {t : Table α} (clock : Clock) {id : TimerId} {timer : Timer α}
    (ht : t.timers.get? id = some timer) (hpoint : timer.point = .seeking) :
    ∃ t', t.advance clock id = some (none, t') ∧
      (t'.timers.get? id = none ↔
        ∀ slot, timer.schedule.nextSlot t.zone.zone timer.lastFired clock.wall ≠ .at slot) := by
  unfold Table.advance
  rw [ht]
  dsimp only
  rw [hpoint]
  dsimp only
  split
  · rename_i slot hslot
    refine ⟨_, rfl, ?_⟩
    dsimp only
    rw [Registry.get?_insert, if_pos rfl]
    exact ⟨fun h => (by cases h), fun h => absurd hslot (h slot)⟩
  · rename_i hnone
    refine ⟨_, rfl, ?_⟩
    dsimp only
    rw [Registry.get?_erase, if_pos rfl]
    exact ⟨fun _ => hnone, fun _ => rfl⟩

/-- A schedule is reported to have no further time exactly if each later second that meets it comes
before the opening of the search; else the first one from there on is found. So none is missed if
the year of the start is allowed. A timer that was armed then ends exactly if none is found. -/
theorem nextAfter_never_iff (hread : Schedule.parse expression = .ok s) (offset : Int)
    (after : Timestamp) :
    (s.nextAfter (Zone.fixed offset) after = .never ↔
      ∀ v, after.nanos < (Timestamp.ofSeconds v).nanos → s.MeetsAt (Zone.fixed offset) v →
        ¬ s.IsOpenAt (startAfter (Zone.fixed offset) after) (Zone.fixed offset) v) ∧
      (∀ u, s.nextAfter (Zone.fixed offset) after = .at u ↔
        IsLeast {v | after.nanos < (Timestamp.ofSeconds v).nanos ∧
          s.MeetsAt (Zone.fixed offset) v ∧
          s.IsOpenAt (startAfter (Zone.fixed offset) after) (Zone.fixed offset) v} u) ∧
      ((startAfter (Zone.fixed offset) after).date.year.toNat ∈ s.years →
        (∃ v, after.nanos < (Timestamp.ofSeconds v).nanos ∧ s.MeetsAt (Zone.fixed offset) v) →
        ∃ u, s.nextAfter (Zone.fixed offset) after = .at u) ∧
      ∀ {α : Type} (t : Table α) (clock : Clock) (id : TimerId) (timer : Timer α),
        t.timers.get? id = some timer → timer.schedule = s → timer.lastFired = none →
        timer.point = .seeking → t.zone.zone = Zone.fixed offset → clock.wall = after →
        ∃ t', t.advance clock id = some (none, t') ∧
          (t'.timers.get? id = none ↔ s.nextAfter (Zone.fixed offset) after = .never) := by
  have hs := proper_of_parse hread
  have hnext := isNext_nextAfter_opening offset hs after
  simp only [Timestamp.lt_ofSeconds]
  refine ⟨?_, fun u => hnext.eq_at_iff, fun hyear hlater => ?_,
    fun t clock id timer ht hschedule hfired hpoint hzone hwall => ?_⟩
  · rw [hnext.eq_never_iff]
    exact forall₂_congr fun v _ => not_and
  · obtain ⟨v, hv, hmeets⟩ := hlater
    exact (isNext_nextAfter_of_year offset hs hyear).at_or_never.resolve_right
      fun hnone => hnone v hv hmeets
  · obtain ⟨t', hadvance, hiff⟩ := advance_seeking clock ht hpoint
    rw [hschedule, hfired, hzone, hwall, nextSlot, searchStart] at hiff
    refine ⟨t', hadvance, hiff.trans ⟨fun hnone => ?_, fun hnever u hu => ?_⟩⟩
    · generalize s.nextAfter (Zone.fixed offset) after = next at hnext hnone
      cases hnext with
      | «at» => exact absurd rfl (hnone _)
      | never => rfl
    · rw [hnever] at hu
      cases hu

theorem nextAfter_never_iff_june : ∃ s, Schedule.parse "0 30 12 * * * 2030,2031" = .ok s ∧
    IsLeast {v | 1718361030000000000 < (Timestamp.ofSeconds v).nanos ∧
      s.MeetsAt (Zone.fixed 0) v ∧
      s.IsOpenAt (startAfter (Zone.fixed 0) ⟨1718361030000000000⟩) (Zone.fixed 0) v}
      1907670600 := by
  obtain ⟨s, hread, hs⟩ := exists_of_parse "0 30 12 * * * 2030,2031"
    (fun s => s.nextAfter (Zone.fixed 0) ⟨1718361030000000000⟩ == .at 1907670600)
    (by decide +kernel)
  exact ⟨s, hread, ((nextAfter_never_iff hread 0 _).2.1 _).1 (beq_iff_eq.1 hs)⟩

/-- In June 2024 the beginning of 2030 is missed. -/
theorem nextAfter_never_newYear : ∃ s, Schedule.parse "0 0 0 1 1 * 2030" = .ok s ∧
    s.nextAfter (Zone.fixed 0) ⟨1718361030000000000⟩ = .never ∧
    ∃ v, 1718361030000000000 < (Timestamp.ofSeconds v).nanos ∧ s.MeetsAt (Zone.fixed 0) v := by
  obtain ⟨s, hread, hs⟩ := exists_of_parse "0 0 0 1 1 * 2030"
    (fun s => s.nextAfter (Zone.fixed 0) ⟨1718361030000000000⟩ == .never &&
      decide (s.MeetsAt (Zone.fixed 0) 1893456000)) (by decide +kernel)
  simp only [Bool.and_eq_true, beq_iff_eq, decide_eq_true_eq] at hs
  exact ⟨s, hread, hs.1, 1893456000, by decide, hs.2⟩

/-! ## Zones with offset changes -/

theorem exists_of_nextAfter_eq_at (hs : s.Proper) (h : s.nextAfter zone after = .at u) :
    ∃ x, zone.localSeconds (after.seconds + 1) ≤ x ∧ s.Meets (LocalTime.ofSeconds x) ∧
      zone.instantOf? x = some u := by
  have hstart := valid_startAfter zone after
  change s.searchFrom zone (startAfter zone after) = .at u at h
  cases hopening : s.opening? (startAfter zone after) with
  | none =>
      rw [searchFrom_of_opening?_eq_none zone hopening] at h
      cases h
  | some opening =>
      have hle := le_opening hstart hopening
      obtain ⟨r, hr, hfinds⟩ := finds_searchFrom zone hs hstart hopening
      rw [hr] at h
      cases hfinds with
      | @found x hx hlo hhi hleast =>
          rw [Option.getD_some] at h
          have hskips : ¬ skips zone (LocalTime.ofSeconds x).date = true := fun hskips => by
            rw [outcome_of_skips hskips] at h
            cases h
          rw [outcome_of_not_skips hskips] at h
          obtain ⟨hweekday, hinstant⟩ := hx.last.resolve_left hskips
          refine ⟨x, toSeconds_startAfter zone after ▸ Int.le_trans hle hlo, fun f => ?_, ?_⟩
          · by_cases hf : f = .daysOfWeek
            · exact hf ▸ hweekday
            · exact hx.allowed f hf
          · obtain ⟨v, hv⟩ := Option.isSome_iff_exists.1 hinstant
            rw [hv] at h
            exact hv.trans (congrArg some (Next.at.inj h))
      | missing => cases h

theorem lt_of_nextAfter_eq_at (hs : s.Proper) (hzone : zone.Spaced)
    (h : s.nextAfter zone after = .at u) : after.seconds < u := by
  obtain ⟨x, hle, -, hinstant⟩ := exists_of_nextAfter_eq_at hs h
  exact Int.lt_of_add_one_le (Zone.le_of_localSeconds_le hzone hinstant hle)

-- The searches themselves stay closed: they do not compute here.
attribute [local irreducible] nextAfter in
theorem upcoming_succ (s : Schedule) (zone : Zone) (after : Timestamp) (count : Nat) :
    s.upcoming zone after (count + 1) =
      match s.nextAfter zone after with
      | .at second => .at second :: s.upcoming zone (Timestamp.ofSeconds second) count
      | next => [next] := rfl

theorem upcoming_zero (s : Schedule) (zone : Zone) (after : Timestamp) :
    s.upcoming zone after 0 = [] := rfl

theorem pairwise_upcoming (hs : s.Proper) (hzone : zone.Spaced) (after : Timestamp) (count : Nat) :
    (after.seconds :: (s.upcoming zone after count).filterMap Next.second?).Pairwise (· < ·) := by
  induction count generalizing after with
  | zero =>
      rw [upcoming_zero, List.filterMap_nil]
      exact List.pairwise_singleton (· < ·) after.seconds
  | succ count ih =>
      rw [upcoming_succ]
      cases hnext : s.nextAfter zone after with
      | «at» second =>
          have hlt := lt_of_nextAfter_eq_at hs hzone hnext
          have hrest := ih (Timestamp.ofSeconds second)
          rw [Timestamp.seconds_ofSeconds] at hrest
          refine List.pairwise_cons.2 ⟨fun v hv => ?_, hrest⟩
          obtain rfl | hv := List.mem_cons.1 hv
          · exact hlt
          · exact Int.lt_trans hlt ((List.pairwise_cons.1 hrest).1 v hv)
      | never => exact List.pairwise_singleton (· < ·) after.seconds
      | skippedDate => exact List.pairwise_singleton (· < ·) after.seconds

/-- What a search finds is later than its start, meets the schedule and has a local time that no
other instant has. Searching on from each time found gives later and later ones, however often the
clocks are set forward and back. -/
theorem nextAfter_sound (hread : Schedule.parse expression = .ok s) (hzone : zone.Spaced)
    (after : Timestamp) :
    (∀ u, s.nextAfter zone after = .at u →
      after.nanos < (Timestamp.ofSeconds u).nanos ∧ s.MeetsAt zone u ∧
        ∀ v, zone.localSeconds v = zone.localSeconds u → v = u) ∧
      ∀ count, (after.seconds ::
        (s.upcoming zone after count).filterMap Next.second?).Pairwise (· < ·) := by
  have hs := proper_of_parse hread
  refine ⟨fun u hu => ?_, pairwise_upcoming hs hzone after⟩
  obtain ⟨x, -, hmeets, hinstant⟩ := exists_of_nextAfter_eq_at hs hu
  have hlocal : zone.localSeconds u = x :=
    (Zone.localSeconds_eq_iff_of_instantOf? hzone hinstant).2 rfl
  refine ⟨Timestamp.lt_ofSeconds.2 (lt_of_nextAfter_eq_at hs hzone hu), ?_, fun v hv => ?_⟩
  · rw [MeetsAt, hlocal]
    exact hmeets
  · exact (Zone.localSeconds_eq_iff_of_instantOf? hzone hinstant).1 (hv.trans hlocal)

/-- In the hour that comes twice in the night of 27 October 2024. -/
theorem nextAfter_sound_berlin : ∃ s, Schedule.parse "0 30 2,3 * * *" = .ok s ∧
    (Zone.recorded "Europe/Berlin").Spaced ∧
    s.nextAfter (Zone.recorded "Europe/Berlin") ⟨1729989000500000000⟩ = .at 1729996200 ∧
    s.MeetsAt (Zone.recorded "Europe/Berlin") 1729996200 ∧
    (1729989000 :: (s.upcoming (Zone.recorded "Europe/Berlin") ⟨1729989000500000000⟩
      2).filterMap Next.second?).Pairwise (· < ·) := by
  obtain ⟨s, hread, hs⟩ := exists_of_parse "0 30 2,3 * * *"
    (fun s => s.nextAfter (Zone.recorded "Europe/Berlin") ⟨1729989000500000000⟩ ==
      .at 1729996200) (by decide +kernel)
  have hnext := beq_iff_eq.1 hs
  have hzone := Zone.spaced_recorded "Europe/Berlin"
  obtain ⟨hsound, hupcoming⟩ := nextAfter_sound hread hzone ⟨1729989000500000000⟩
  exact ⟨s, hread, hzone, hnext, (hsound _ hnext).2.1, hupcoming 2⟩

end Schedule

end Cron

end Scheduling
