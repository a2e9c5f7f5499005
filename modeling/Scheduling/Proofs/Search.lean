import Scheduling.Cron.Search
import Scheduling.Proofs.Calendar
import Scheduling.Proofs.Schedules
/-!
# Searching for a local time

The search for the next time of a schedule ends at the first local time from its start on that the
schedule allows and that belongs to exactly one instant, or that lies on a date the zone skips. Each
of its loops goes through intervals that follow one another: years, months, days, hours, minutes and
seconds.
-/

namespace Scheduling

/-! ## Searching interval after interval -/

/-- A search gives the least point of a set in an interval, or finds that there is none. -/
inductive Finds {β : Type} (Q : Int → Prop) (emit : Int → β) (lo hi : Int) : Option β → Prop
  | found {x : Int} (hx : Q x) (hlo : lo ≤ x) (hhi : x < hi)
      (hleast : ∀ y, lo ≤ y → y < x → ¬ Q y) : Finds Q emit lo hi (some (emit x))
  | missing (h : ∀ y, lo ≤ y → y < hi → ¬ Q y) : Finds Q emit lo hi none

section Finds

variable {β : Type} {Q : Int → Prop} {emit : Int → β} {lo mid hi start : Int} {r r' : Option β}

theorem Finds.of_skip (h : Finds Q emit mid hi r) (hle : lo ≤ mid)
    (hskip : ∀ y, lo ≤ y → y < mid → ¬ Q y) : Finds Q emit lo hi r := by
  have hall {x : Int} (hleast : ∀ y, mid ≤ y → y < x → ¬ Q y) (y : Int) (hlo : lo ≤ y)
      (hy : y < x) : ¬ Q y := by
    by_cases hmid : y < mid
    · exact hskip y hlo hmid
    · exact hleast y (Int.not_lt.1 hmid) hy
  cases h with
  | found hx hlo hhi hleast => exact .found hx (Int.le_trans hle hlo) hhi (hall hleast)
  | missing h => exact .missing (hall h)

theorem Finds.narrow (h : Finds Q emit lo hi r) (hle : lo ≤ mid) (hQ : ∀ x, Q x → mid ≤ x) :
    Finds Q emit mid hi r := by
  cases h with
  | found hx hlo hhi hleast =>
      exact .found hx (hQ _ hx) hhi fun y hy => hleast y (Int.le_trans hle hy)
  | missing h => exact .missing fun y hy => h y (Int.le_trans hle hy)

theorem Finds.append (h : Finds Q emit lo mid r) (h' : Finds Q emit mid hi r') (hle : lo ≤ mid)
    (hle' : mid ≤ hi) : Finds Q emit lo hi (r.or r') := by
  cases h with
  | found hx hlo hhi hleast => exact .found hx hlo (Int.lt_of_lt_of_le hhi hle') hleast
  | missing h => exact h'.of_skip hle h

/-- The intervals of some values are searched one after the other, where those of all other values
hold no point. -/
theorem finds_findSome? {values : List Nat} {f : Nat → Option β} {a : Nat → Int}
    {first last : Nat} (hmono : ∀ {v w : Nat}, v ≤ w → a v ≤ a w) (hle : first ≤ last)
    (hsorted : values.Pairwise (· < ·)) (hrange : ∀ v ∈ values, first ≤ v ∧ v < last)
    (hf : ∀ v ∈ values, Finds Q emit (a v) (a (v + 1)) (f v))
    (hskip : ∀ v, first ≤ v → v < last → v ∉ values → ∀ x, a v ≤ x → x < a (v + 1) → ¬ Q x) :
    Finds Q emit (a first) (a last) (values.findSome? f) := by
  induction values generalizing first with
  | nil =>
      refine .missing fun x hlo hhi => ?_
      obtain ⟨v, hfirst, hlast, hstart, hend⟩ := exists_block hlo hhi hle
      exact hskip v hfirst hlast List.not_mem_nil x hstart hend
  | cons v values ih =>
      obtain ⟨hlater, hsorted⟩ := List.pairwise_cons.1 hsorted
      obtain ⟨hfirst, hlast⟩ := hrange v List.mem_cons_self
      have hrest := ih hlast hsorted
        (fun w hw => ⟨hlater w hw, (hrange w (List.mem_cons_of_mem v hw)).2⟩)
        (fun w hw => hf w (List.mem_cons_of_mem v hw)) fun w hv hw hmem => by
          refine hskip w (Nat.le_of_lt (Nat.lt_of_le_of_lt hfirst hv)) hw ?_
          exact List.not_mem_cons_of_ne_of_not_mem (Nat.ne_of_gt hv) hmem
      have hhere := (hf v List.mem_cons_self).append hrest (hmono (Nat.le_succ v)) (hmono hlast)
      have hor : (v :: values).findSome? f = (f v).or (values.findSome? f) := by
        rw [List.findSome?_cons]
        cases f v <;> rfl
      rw [hor]
      refine hhere.of_skip (hmono hfirst) fun x hlo hhi => ?_
      obtain ⟨w, hfirst', hw, hstart, hend⟩ := exists_block hlo hhi hfirst
      refine hskip w hfirst' (Nat.lt_trans hw hlast) (fun hmem => ?_) x hstart hend
      obtain rfl | hmem := List.mem_cons.1 hmem
      · exact Nat.lt_irrefl _ hw
      · exact Nat.lt_asymm hw (hlater w hmem)

/-- The start of a search lies in the interval that it bounds, and before all others. -/
def Bounds (start : Int) (bound : Bool) (lo hi : Int) : Prop :=
  if bound then lo ≤ start ∧ start < hi else start ≤ lo

open Cron.Schedule in
/-- Below the start there is nothing to be found. -/
theorem finds_fromFloor {values : List Nat} {f : Nat → Option β} {a : Nat → Int}
    {first last floor : Nat} {bound : Bool} (hmono : ∀ {v w : Nat}, v ≤ w → a v ≤ a w)
    (hle : first ≤ last) (hsorted : values.Pairwise (· < ·))
    (hrange : ∀ v ∈ values, first ≤ v ∧ v < last) (hQ : ∀ x, Q x → start ≤ x)
    (hbound : Bounds start bound (a first) (a last))
    (hfloor : bound = true → a floor ≤ start ∧ start < a (floor + 1))
    (hf : ∀ v ∈ values, Bounds start (bound && v == floor) (a v) (a (v + 1)) →
      Finds Q emit (a v) (a (v + 1)) (f v))
    (hskip : ∀ v, first ≤ v → v < last → v ∉ values → ∀ x, a v ≤ x → x < a (v + 1) → ¬ Q x) :
    Finds Q emit (a first) (a last) ((fromFloor bound floor values).findSome? f) := by
  cases bound with
  | false =>
      have hstart : start ≤ a first := hbound
      exact finds_findSome? hmono hle hsorted hrange
        (fun v hv => hf v hv (Int.le_trans hstart (hmono (hrange v hv).1))) hskip
  | true =>
      obtain ⟨hfloor, hstart⟩ := hfloor rfl
      have hmem {v : Nat} : v ∈ fromFloor true floor values ↔ v ∈ values ∧ floor ≤ v := by
        simp [fromFloor]
      refine finds_findSome? hmono hle (hsorted.filter _)
        (fun v hv => hrange v (hmem.1 hv).1) (fun v hv => ?_) fun v hfirst hlast hv x hlo hhi => ?_
      · obtain ⟨hv, hge⟩ := hmem.1 hv
        refine hf v hv ?_
        by_cases heq : v = floor
        · subst heq
          simpa [Bounds] using And.intro hfloor hstart
        · have hlt : floor + 1 ≤ v := Nat.lt_of_le_of_ne hge (Ne.symm heq)
          have hle := hmono hlt
          simp only [Bounds, Bool.true_and, beq_iff_eq, heq, if_false]
          omega
      · by_cases hv' : v ∈ values
        · have hlt : v < floor := Nat.lt_of_not_le fun hge => hv (hmem.2 ⟨hv', hge⟩)
          have hle : a (v + 1) ≤ a floor := hmono hlt
          intro hx
          have := hQ x hx
          omega
        · exact hskip v hfirst hlast hv' x hlo hhi

end Finds

namespace Cron.Schedule

variable {s : Schedule} {zone : Zone} {start : LocalTime} {bound : Bool} {date : Date}
  {year : Int} {month hour minute second : Nat}

/-! ## Where a search ends -/

/-- A search from a start on ends at a local time, counted in seconds. -/
structure Ends (s : Schedule) (zone : Zone) (start : LocalTime) (x : Int) : Prop where
  ahead : start.toSeconds ≤ x
  /-- Whether a date is skipped is seen before its weekday. -/
  allowed : ∀ f, f ≠ .daysOfWeek → (LocalTime.ofSeconds x).value f ∈ s.allowed f
  last : skips zone (LocalTime.ofSeconds x).date = true ∨
    (LocalTime.ofSeconds x).value .daysOfWeek ∈ s.daysOfWeek ∧ (zone.instantOf? x).isSome = true

/-- What a search that ends at a local time gives: its instant, if its date is not skipped. -/
def outcome {β : Type} (skippedDate : β) (found : Int → β) (zone : Zone) (x : Int) : β :=
  if skips zone (LocalTime.ofSeconds x).date then skippedDate
  else found ((zone.instantOf? x).getD 0)

section Outcome

variable {β : Type} {skippedDate : β} {found : Int → β} {x : Int}

theorem outcome_of_skips (h : skips zone (LocalTime.ofSeconds x).date = true) :
    outcome skippedDate found zone x = skippedDate := if_pos h

theorem outcome_of_not_skips (h : ¬ skips zone (LocalTime.ofSeconds x).date = true) :
    outcome skippedDate found zone x = found ((zone.instantOf? x).getD 0) := if_neg h

end Outcome

theorem Ends.exists_time {x : Int} (h : s.Ends zone start x) :
    ∃ t : LocalTime, t.Valid ∧ t.toSeconds = x ∧
      (∀ f, f ≠ .daysOfWeek → t.value f ∈ s.allowed f) ∧
      (skips zone t.date = true ∨ t.value .daysOfWeek ∈ s.daysOfWeek) :=
  ⟨LocalTime.ofSeconds x, LocalTime.valid_ofSeconds x, LocalTime.toSeconds_ofSeconds x, h.allowed,
    h.last.imp_right And.left⟩

/-- A schedule allows a date, or all but its weekday where the zone skips the date. -/
structure Tries (s : Schedule) (zone : Zone) (date : Date) : Prop where
  valid : date.Valid
  day : date.day ∈ s.daysOfMonth
  month : date.month ∈ s.months
  year : date.year.toNat ∈ s.years
  weekday : skips zone date = true ∨ Calendar.weekday date.toDays ∈ s.daysOfWeek

theorem Tries.allowed {t : LocalTime} {f : Field} (hdate : s.Tries zone t.date)
    (hhour : t.hour ∈ s.hours) (hminute : t.minute ∈ s.minutes) (hsecond : t.second ∈ s.seconds)
    (hf : f ≠ .daysOfWeek) : t.value f ∈ s.allowed f := by
  cases f with
  | seconds => exact hsecond
  | minutes => exact hminute
  | hours => exact hhour
  | daysOfMonth => exact hdate.day
  | months => exact hdate.month
  | daysOfWeek => exact absurd rfl hf
  | years => exact hdate.year

/-! ## The loops of the search -/

theorem filter_fromFloor (bound : Bool) (floor : Nat) (values : List Nat) (p : Nat → Bool) :
    (fromFloor bound floor values).filter p = fromFloor bound floor (values.filter p) := by
  cases bound with
  | false => rfl
  | true => simp only [fromFloor, if_true, List.filter_filter, Bool.and_comm]

theorem finds_attempt {t : LocalTime} {hi : Int} (ht : t.Valid) (hdate : s.Tries zone t.date)
    (hhour : t.hour ∈ s.hours) (hminute : t.minute ∈ s.minutes) (hsecond : t.second ∈ s.seconds)
    (hhi : hi = t.toSeconds + 1) (hahead : start.toSeconds ≤ t.toSeconds) :
    Finds (s.Ends zone start) (outcome Trial.skippedDate Trial.meets zone) t.toSeconds hi
      (s.attempt zone t) := by
  have hofSeconds := LocalTime.ofSeconds_toSeconds ht
  have hallowed (f : Field) (hf : f ≠ .daysOfWeek) :
      (LocalTime.ofSeconds t.toSeconds).value f ∈ s.allowed f :=
    hofSeconds.symm ▸ hdate.allowed hhour hminute hsecond hf
  have hfound (hlast : skips zone t.date = true ∨
      Calendar.weekday t.date.toDays ∈ s.daysOfWeek ∧
        (zone.instantOf? t.toSeconds).isSome = true) :
      Finds (s.Ends zone start) (outcome Trial.skippedDate Trial.meets zone) t.toSeconds hi
        (some (outcome Trial.skippedDate Trial.meets zone t.toSeconds)) :=
    .found ⟨hahead, hallowed, hofSeconds.symm ▸ hlast⟩ (Int.le_refl _)
      (hhi ▸ Int.lt_succ _) fun y hlo hy => absurd hlo (Int.not_le.2 hy)
  unfold attempt
  by_cases hskips : skips zone t.date = true
  · rw [outcome_of_skips (hofSeconds.symm ▸ hskips)] at hfound
    rw [if_pos hskips]
    exact hfound (.inl hskips)
  · rw [outcome_of_not_skips (hofSeconds.symm ▸ hskips)] at hfound
    rw [if_neg hskips]
    have hweekday := hdate.weekday.resolve_left hskips
    cases hinstant : zone.instantOf? t.toSeconds with
    | none =>
        refine .missing fun y hlo hy hends => ?_
        obtain rfl : y = t.toSeconds := by omega
        have hlast := (hofSeconds ▸ hends.last).resolve_left hskips
        rw [hinstant] at hlast
        exact Bool.false_ne_true hlast.2
    | some u =>
        rw [hinstant] at hfound
        dsimp only
        rw [if_pos hweekday]
        exact hfound (.inr ⟨hweekday, rfl⟩)

theorem finds_second (hdate : s.Tries zone date) (hhour : hour ∈ s.hours ∧ hour < 24)
    (hminute : minute ∈ s.minutes ∧ minute < 60) (hsecond : second ∈ s.seconds ∧ second < 60)
    (hbound : Bounds start.toSeconds bound (LocalTime.mk date hour minute second).toSeconds
      (LocalTime.mk date hour minute (second + 1)).toSeconds) :
    Finds (s.Ends zone start) (outcome Trial.skippedDate Trial.meets zone)
      (LocalTime.mk date hour minute second).toSeconds
      (LocalTime.mk date hour minute (second + 1)).toSeconds
      (s.attempt zone ⟨date, hour, minute, second⟩) := by
  have hsucc : (LocalTime.mk date hour minute (second + 1)).toSeconds =
      (LocalTime.mk date hour minute second).toSeconds + 1 := by
    rw [LocalTime.toSeconds_mk, LocalTime.toSeconds_mk]
    omega
  refine finds_attempt (t := ⟨date, hour, minute, second⟩)
    ⟨hdate.valid, hhour.2, hminute.2, hsecond.2⟩ hdate hhour.1 hminute.1 hsecond.1 hsucc ?_
  cases bound with
  | false => exact hbound
  | true =>
      rw [hsucc] at hbound
      exact Int.le_of_lt_add_one hbound.2

theorem finds_minute (hs : s.Proper) (hstart : start.Valid)
    (hdate : s.Tries zone date)
    (hhour : hour ∈ s.hours ∧ hour < 24) (hminute : minute ∈ s.minutes ∧ minute < 60)
    (hbound : Bounds start.toSeconds bound (LocalTime.mk date hour minute 0).toSeconds
      (LocalTime.mk date hour (minute + 1) 0).toSeconds) :
    Finds (s.Ends zone start) (outcome Trial.skippedDate Trial.meets zone)
      (LocalTime.mk date hour minute 0).toSeconds
      (LocalTime.mk date hour (minute + 1) 0).toSeconds
      ((fromFloor bound start.second s.seconds).findSome? fun second =>
        s.attempt zone ⟨date, hour, minute, second⟩) := by
  have hlast {v : Nat} (hv : v ∈ s.seconds) : v < 60 :=
    Nat.lt_succ_of_le (hs.range (f := .seconds) hv).2
  have hfloor (htrue : bound = true) :
      (LocalTime.mk date hour minute start.second).toSeconds ≤ start.toSeconds ∧
        start.toSeconds < (LocalTime.mk date hour minute (start.second + 1)).toSeconds := by
    obtain ⟨hlo, hhi⟩ : _ ∧ _ := htrue ▸ hbound
    obtain ⟨rfl, rfl, rfl⟩ := start.minute_eq hstart hdate.valid hhour.2 hminute.2 hlo hhi
    exact start.second_bounds
  rw [← LocalTime.toSeconds_minute_end] at hbound ⊢
  refine finds_fromFloor (a := fun v => (LocalTime.mk date hour minute v).toSeconds)
    (LocalTime.toSeconds_second_mono date hour minute) (Nat.zero_le 60) (hs.ascending .seconds)
    (fun v hv => ⟨Nat.zero_le v, hlast hv⟩) (fun x hx => hx.ahead) hbound hfloor
    (fun v hv hbound => finds_second hdate hhour hminute ⟨hv, hlast hv⟩ hbound)
    fun v _ hlast hv x hlo hhi hx => ?_
  obtain ⟨t, ht, rfl, hallowed, -⟩ := hx.exists_time
  obtain rfl := t.second_eq ht hdate.valid hhour.2 hminute.2 hlast hlo hhi
  exact hv (hallowed .seconds (by decide))

theorem finds_hour (hs : s.Proper) (hstart : start.Valid) (hdate : s.Tries zone date)
    (hhour : hour ∈ s.hours ∧ hour < 24)
    (hbound : Bounds start.toSeconds bound (LocalTime.mk date hour 0 0).toSeconds
      (LocalTime.mk date (hour + 1) 0 0).toSeconds) :
    Finds (s.Ends zone start) (outcome Trial.skippedDate Trial.meets zone)
      (LocalTime.mk date hour 0 0).toSeconds (LocalTime.mk date (hour + 1) 0 0).toSeconds
      ((fromFloor bound start.minute s.minutes).findSome? fun minute =>
        (fromFloor (bound && minute == start.minute) start.second s.seconds).findSome? fun second =>
          s.attempt zone ⟨date, hour, minute, second⟩) := by
  have hlast {v : Nat} (hv : v ∈ s.minutes) : v < 60 :=
    Nat.lt_succ_of_le (hs.range (f := .minutes) hv).2
  have hfloor (htrue : bound = true) :
      (LocalTime.mk date hour start.minute 0).toSeconds ≤ start.toSeconds ∧
        start.toSeconds < (LocalTime.mk date hour (start.minute + 1) 0).toSeconds := by
    obtain ⟨hlo, hhi⟩ : _ ∧ _ := htrue ▸ hbound
    obtain ⟨rfl, rfl⟩ := start.hour_eq hstart hdate.valid hhour.2 hlo hhi
    exact start.minute_bounds hstart
  rw [← LocalTime.toSeconds_hour_end] at hbound ⊢
  refine finds_fromFloor (a := fun v => (LocalTime.mk date hour v 0).toSeconds)
    (LocalTime.toSeconds_minute_mono date hour) (Nat.zero_le 60) (hs.ascending .minutes)
    (fun v hv => ⟨Nat.zero_le v, hlast hv⟩) (fun x hx => hx.ahead) hbound hfloor
    (fun v hv hbound => finds_minute hs hstart hdate hhour ⟨hv, hlast hv⟩ hbound)
    fun v _ hlast hv x hlo hhi hx => ?_
  obtain ⟨t, ht, rfl, hallowed, -⟩ := hx.exists_time
  obtain ⟨-, -, rfl⟩ := t.minute_eq ht hdate.valid hhour.2 hlast hlo hhi
  exact hv (hallowed .minutes (by decide))

theorem finds_tryDay (hs : s.Proper) (hstart : start.Valid)
    (hdate : s.Tries zone date)
    (hbound : Bounds start.toSeconds bound (LocalTime.mk date 0 0 0).toSeconds
      (LocalTime.mk date 24 0 0).toSeconds) :
    Finds (s.Ends zone start) (outcome Trial.skippedDate Trial.meets zone)
      (LocalTime.mk date 0 0 0).toSeconds (LocalTime.mk date 24 0 0).toSeconds
      (s.tryDay zone start bound date) := by
  have hlast {v : Nat} (hv : v ∈ s.hours) : v < 24 :=
    Nat.lt_succ_of_le (hs.range (f := .hours) hv).2
  have hfloor (htrue : bound = true) :
      (LocalTime.mk date start.hour 0 0).toSeconds ≤ start.toSeconds ∧
        start.toSeconds < (LocalTime.mk date (start.hour + 1) 0 0).toSeconds := by
    obtain ⟨hlo, hhi⟩ : _ ∧ _ := htrue ▸ hbound
    obtain rfl := start.date_eq hstart hdate.valid hlo hhi
    exact start.hour_bounds hstart
  refine finds_fromFloor (a := fun v => (LocalTime.mk date v 0 0).toSeconds)
    (LocalTime.toSeconds_hour_mono date) (Nat.zero_le 24) (hs.ascending .hours)
    (fun v hv => ⟨Nat.zero_le v, hlast hv⟩) (fun x hx => hx.ahead) hbound hfloor
    (fun v hv hbound => finds_hour hs hstart hdate ⟨hv, hlast hv⟩ hbound)
    fun v _ hlast hv x hlo hhi hx => ?_
  obtain ⟨t, ht, rfl, hallowed, -⟩ := hx.exists_time
  obtain ⟨-, rfl⟩ := t.hour_eq ht hdate.valid hlast hlo hhi
  exact hv (hallowed .hours (by decide))

/-- On a day of another weekday no time is tried but the first that belongs to one instant. -/
theorem searchDay_otherWeekday (hskips : skips zone date = false)
    (h : Calendar.weekday date.toDays ∉ s.daysOfWeek) :
    s.searchDay zone start bound date = none := by
  have hattempt (hour minute second : Nat) {trial : Trial}
      (htry : s.attempt zone ⟨date, hour, minute, second⟩ = some trial) :
      trial = .otherWeekday := by
    rw [attempt, if_neg (Bool.not_eq_true _ ▸ hskips)] at htry
    split at htry
    · cases htry
    · rw [if_neg h] at htry
      exact (Option.some.inj htry).symm
  unfold searchDay
  cases htry : s.tryDay zone start bound date with
  | none => rfl
  | some trial =>
      obtain ⟨hour, -, htry⟩ := List.exists_of_findSome?_eq_some htry
      obtain ⟨minute, -, htry⟩ := List.exists_of_findSome?_eq_some htry
      obtain ⟨second, -, htry⟩ := List.exists_of_findSome?_eq_some htry
      rw [hattempt hour minute second htry]

theorem finds_day (hs : s.Proper) (hstart : start.Valid) (hvalid : date.Valid)
    (hday : date.day ∈ s.daysOfMonth) (hmonth : date.month ∈ s.months)
    (hyear : date.year.toNat ∈ s.years)
    (hbound : Bounds start.toSeconds bound (LocalTime.mk date 0 0 0).toSeconds
      (LocalTime.mk date 24 0 0).toSeconds) :
    Finds (s.Ends zone start) (outcome Next.skippedDate Next.at zone)
      (LocalTime.mk date 0 0 0).toSeconds (LocalTime.mk date 24 0 0).toSeconds
      (s.searchDay zone start bound date) := by
  by_cases hweekday : skips zone date = true ∨ Calendar.weekday date.toDays ∈ s.daysOfWeek
  · have htry := finds_tryDay hs hstart ⟨hvalid, hday, hmonth, hyear, hweekday⟩ hbound
    unfold searchDay
    generalize s.tryDay zone start bound date = trial at htry
    cases htry with
    | @found x hx hlo hhi hleast =>
        have hfound : Finds (s.Ends zone start) (outcome Next.skippedDate Next.at zone) _ _
            (some (outcome Next.skippedDate Next.at zone x)) := .found hx hlo hhi hleast
        by_cases hskips : skips zone (LocalTime.ofSeconds x).date = true
        · rw [outcome_of_skips hskips] at hfound ⊢
          exact hfound
        · rw [outcome_of_not_skips hskips] at hfound ⊢
          exact hfound
    | missing h => exact .missing h
  · obtain ⟨hskips, hweekday⟩ := not_or.1 hweekday
    rw [searchDay_otherWeekday (Bool.not_eq_true _ ▸ hskips) hweekday]
    refine .missing fun x hlo hhi hx => ?_
    obtain ⟨t, ht, rfl, -, hlast⟩ := hx.exists_time
    obtain rfl := t.date_eq ht hvalid hlo hhi
    exact hlast.elim hskips hweekday

theorem finds_month (hs : s.Proper) (hstart : start.Valid)
    (hmonth : month ∈ s.months) (hyear : year.toNat ∈ s.years)
    (hbound : Bounds start.toSeconds bound (LocalTime.mk ⟨year, month, 1⟩ 0 0 0).toSeconds
      (LocalTime.mk ⟨year, month + 1, 1⟩ 0 0 0).toSeconds) :
    Finds (s.Ends zone start) (outcome Next.skippedDate Next.at zone)
      (LocalTime.mk ⟨year, month, 1⟩ 0 0 0).toSeconds
      (LocalTime.mk ⟨year, month + 1, 1⟩ 0 0 0).toSeconds
      (s.searchMonth zone start bound year month) := by
  obtain ⟨length, hlength⟩ : ∃ length, length = Calendar.monthLength year month := ⟨_, rfl⟩
  have hmonths : 1 ≤ month ∧ month ≤ 12 := hs.range (f := .months) hmonth
  have hmem {v : Nat} : v ∈ s.daysOfMonth.filter (· ≤ length) ↔ v ∈ s.daysOfMonth ∧ v ≤ length := by
    simp
  have hsame (htrue : bound = true) : start.date.year = year ∧ start.date.month = month ∧
      min start.date.day length = start.date.day := by
    obtain ⟨hlo, hhi⟩ : _ ∧ _ := htrue ▸ hbound
    obtain ⟨rfl, rfl⟩ := start.month_eq hstart hmonths hlo hhi
    exact ⟨rfl, rfl, Nat.min_eq_left (hlength ▸ hstart.date.day.2)⟩
  have hfloor (htrue : bound = true) :
      (LocalTime.mk ⟨year, month, min start.date.day length⟩ 0 0 0).toSeconds ≤ start.toSeconds ∧
        start.toSeconds <
          (LocalTime.mk ⟨year, month, min start.date.day length + 1⟩ 0 0 0).toSeconds := by
    obtain ⟨rfl, rfl, hmin⟩ := hsame htrue
    rw [hmin, ← LocalTime.toSeconds_day_end]
    exact start.date_bounds hstart
  unfold searchMonth
  dsimp only
  rw [← LocalTime.toSeconds_month_end year hmonths] at hbound ⊢
  rw [← hlength] at hbound ⊢
  rw [filter_fromFloor]
  refine finds_fromFloor (a := fun v => (LocalTime.mk ⟨year, month, v⟩ 0 0 0).toSeconds)
    (LocalTime.toSeconds_day_mono year month) (Nat.succ_le_succ (Nat.zero_le length))
    ((hs.ascending .daysOfMonth).filter _)
    (fun v hv => ⟨(hs.range (f := .daysOfMonth) (hmem.1 hv).1).1, Nat.lt_succ_of_le (hmem.1 hv).2⟩)
    (fun x hx => hx.ahead) hbound hfloor (fun v hv hbound => ?_)
    fun v hfirst hlast hv x hlo hhi hx => ?_
  · obtain ⟨hv, hle⟩ := hmem.1 hv
    -- The day of the start is allowed where it bounds the search, so asking for it changes nothing.
    have hcontains : (bound && v == min start.date.day length &&
        s.daysOfMonth.contains start.date.day) = (bound && v == min start.date.day length) := by
      cases hb : bound && v == min start.date.day length with
      | false => rfl
      | true =>
          obtain ⟨htrue, heq⟩ := Bool.and_eq_true_iff.1 hb
          rw [beq_iff_eq, (hsame htrue).2.2] at heq
          simpa [← heq] using hv
    rw [hcontains]
    rw [← LocalTime.toSeconds_day_end] at hbound ⊢
    exact finds_day hs hstart
      ⟨hmonths, (hs.range (f := .daysOfMonth) hv).1, hlength ▸ hle⟩ hv hmonth hyear hbound
  · have hle : v ≤ length := Nat.le_of_lt_succ hlast
    obtain ⟨t, ht, rfl, hallowed, -⟩ := hx.exists_time
    rw [← LocalTime.toSeconds_day_end] at hhi
    have heq := t.date_eq ht ⟨hmonths, hfirst, hlength ▸ hle⟩ hlo hhi
    have hday : t.date.day ∈ s.daysOfMonth := hallowed .daysOfMonth (by decide)
    rw [heq] at hday
    exact hv (hmem.2 ⟨hday, hle⟩)

theorem finds_year (hs : s.Proper) (hstart : start.Valid)
    (hyear : year.toNat ∈ s.years)
    (hbound : Bounds start.toSeconds bound (LocalTime.mk ⟨year, 1, 1⟩ 0 0 0).toSeconds
      (LocalTime.mk ⟨year + 1, 1, 1⟩ 0 0 0).toSeconds) :
    Finds (s.Ends zone start) (outcome Next.skippedDate Next.at zone)
      (LocalTime.mk ⟨year, 1, 1⟩ 0 0 0).toSeconds (LocalTime.mk ⟨year + 1, 1, 1⟩ 0 0 0).toSeconds
      (s.searchYear zone start bound year) := by
  have hrange {v : Nat} (hv : v ∈ s.months) : 1 ≤ v ∧ v < 13 :=
    (hs.range (f := .months) hv).imp_right Nat.lt_succ_of_le
  have hfloor (htrue : bound = true) :
      (LocalTime.mk ⟨year, start.date.month, 1⟩ 0 0 0).toSeconds ≤ start.toSeconds ∧
        start.toSeconds < (LocalTime.mk ⟨year, start.date.month + 1, 1⟩ 0 0 0).toSeconds := by
    obtain ⟨hlo, hhi⟩ : _ ∧ _ := htrue ▸ hbound
    obtain rfl := start.year_eq hstart hlo hhi
    exact start.month_bounds hstart
  rw [← LocalTime.toSeconds_year_end] at hbound ⊢
  refine finds_fromFloor (a := fun v => (LocalTime.mk ⟨year, v, 1⟩ 0 0 0).toSeconds)
    (LocalTime.toSeconds_month_mono year) (by decide) (hs.ascending .months)
    (fun v hv => hrange hv) (fun x hx => hx.ahead) hbound hfloor
    (fun v hv hbound => finds_month hs hstart hv hyear hbound)
    fun v hfirst hlast hv x hlo hhi hx => ?_
  obtain ⟨t, ht, rfl, hallowed, -⟩ := hx.exists_time
  obtain ⟨-, rfl⟩ := t.month_eq ht ⟨hfirst, Nat.le_of_lt_succ hlast⟩ hlo hhi
  exact hv (hallowed .months (by decide))

end Cron.Schedule

end Scheduling
