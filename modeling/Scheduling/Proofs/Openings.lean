import Scheduling.Proofs.Lists
import Scheduling.Proofs.Search
/-!
# Where a search begins

The first allowed year is searched from the month, day and time of day of the start on, also when it
is a later year than that of the start; the years after it are searched as a whole. So the search
passes over nothing from its opening on, which is the start carried to the first allowed year.
-/

namespace Scheduling

theorem Calendar.monthLength_pos (year : Int) {month : Nat} (h : 1 ≤ month ∧ month ≤ 12) :
    1 ≤ Calendar.monthLength year month := by
  have hall : ∀ leap : Bool, ∀ i < 12, 1 ≤ (monthLengths leap).getD i 0 := by decide
  exact hall (isLeap year) (month - 1) (by omega)

namespace Cron.Schedule

variable {s : Schedule} {zone : Zone} {start opening : LocalTime}
  {year : Int} {n : Nat} {later : List Nat}

/-! ## The start in another year -/

/-- The start with another year. In a month that does not have its day this is the last day of the
month, and the beginning of that day if the schedule does not allow the day of the start. -/
def carry (s : Schedule) (start : LocalTime) (year : Int) : LocalTime :=
  let length := Calendar.monthLength year start.date.month
  if start.date.day ≤ length then { start with date := { start.date with year := year } }
  else if start.date.day ∈ s.daysOfMonth then
    { start with date := ⟨year, start.date.month, length⟩ }
  else ⟨⟨year, start.date.month, length⟩, 0, 0, 0⟩

/-- The time from which on the search passes over none that meets the schedule. -/
def opening? (s : Schedule) (start : LocalTime) : Option LocalTime :=
  (s.yearsFrom start.date.year).head?.map (s.carry start)

theorem carry_self (s : Schedule) (h : start.Valid) : s.carry start start.date.year = start :=
  if_pos h.date.day.2

theorem year_carry : (s.carry start year).date.year = year := by
  unfold carry
  dsimp only
  split
  · rfl
  · split <;> rfl

theorem month_carry : (s.carry start year).date.month = start.date.month := by
  unfold carry
  dsimp only
  split
  · rfl
  · split <;> rfl

theorem valid_carry (s : Schedule) (h : start.Valid) (year : Int) : (s.carry start year).Valid := by
  have hlength := Calendar.monthLength_pos year h.date.month
  unfold carry
  dsimp only
  split
  · rename_i hday
    exact ⟨⟨h.date.month, h.date.day.1, hday⟩, h.hour, h.minute, h.second⟩
  · split
    · exact ⟨⟨h.date.month, hlength, Nat.le_refl _⟩, h.hour, h.minute, h.second⟩
    · exact ⟨⟨h.date.month, hlength, Nat.le_refl _⟩, Nat.zero_lt_succ 23, Nat.zero_lt_succ 59,
        Nat.zero_lt_succ 59⟩

theorem le_carry (h : start.Valid) (hyear : start.date.year ≤ year) :
    start.toSeconds ≤ (s.carry start year).toSeconds := by
  obtain rfl | hlt := Int.le_iff_eq_or_lt.1 hyear
  · exact Int.le_of_eq (congrArg LocalTime.toSeconds (carry_self s h).symm)
  · have hbegin := (LocalTime.year_bounds (valid_carry s h year)).1
    rw [year_carry] at hbegin
    have hend := (LocalTime.year_bounds h).2
    have := LocalTime.toSeconds_year_mono (Int.add_one_le_of_lt hlt)
    omega

/-! ## Searching from the carried start -/

theorem fromFloor_zero (bound : Bool) (values : List Nat) : fromFloor bound 0 values = values := by
  cases bound with
  | false => rfl
  | true => exact List.filter_eq_self.2 fun v _ => decide_eq_true (Nat.zero_le v)

/-- The start is of no account once it does not bound the search. -/
theorem searchMonth_unbound (s : Schedule) (zone : Zone) (start start' : LocalTime) (year : Int)
    (month : Nat) : s.searchMonth zone start false year month =
      s.searchMonth zone start' false year month := rfl

theorem searchDay_midnight (s : Schedule) (zone : Zone) (start : LocalTime) (date date' : Date)
    (bound : Bool) : s.searchDay zone ⟨date', 0, 0, 0⟩ bound date =
      s.searchDay zone start false date := by
  have htry : s.tryDay zone ⟨date', 0, 0, 0⟩ bound date = s.tryDay zone start false date := by
    unfold tryDay
    simp only [fromFloor_zero]
    rfl
  rw [searchDay, searchDay, htry]

theorem searchMonth_carry (s : Schedule) (zone : Zone) (start : LocalTime) (year : Int) :
    s.searchMonth zone (s.carry start year) true year start.date.month =
      s.searchMonth zone start true year start.date.month := by
  obtain ⟨length, hlength⟩ : ∃ length, length = Calendar.monthLength year start.date.month :=
    ⟨_, rfl⟩
  unfold carry searchMonth
  dsimp only
  rw [← hlength]
  by_cases hday : start.date.day ≤ length
  · rw [if_pos hday]
    rfl
  · have hmin : min start.date.day length = length := Nat.min_eq_right (Nat.le_of_not_le hday)
    by_cases hallowed : start.date.day ∈ s.daysOfMonth
    · rw [if_neg hday, if_pos hallowed]
      dsimp only
      rw [hmin, Nat.min_self]
      refine findSome?_congr fun day hday' => ?_
      have hmem : day ∈ s.daysOfMonth := by
        rw [fromFloor, if_pos rfl, List.mem_filter, List.mem_filter] at hday'
        exact hday'.1.1
      have hcontains : (true && day == length && s.daysOfMonth.contains length) =
          (true && day == length && s.daysOfMonth.contains start.date.day) := by
        by_cases heq : day = length
        · rw [← heq, List.contains_iff_mem.2 hmem, List.contains_iff_mem.2 hallowed]
        · rw [beq_eq_false_iff_ne.2 heq]
          rfl
      rw [hcontains]
      rfl
    · rw [if_neg hday, if_neg hallowed]
      dsimp only
      rw [hmin, Nat.min_self]
      refine findSome?_congr fun day _ => ?_
      rw [searchDay_midnight s zone start]
      have hmissing : (true && day == length && s.daysOfMonth.contains start.date.day) =
          false := by
        simp [hallowed]
      rw [hmissing]

/-- A year is searched from the start on as it is from the start carried to it. -/
theorem searchYear_carry (s : Schedule) (zone : Zone) (start : LocalTime) (year : Int) :
    s.searchYear zone (s.carry start year) true year = s.searchYear zone start true year := by
  unfold searchYear
  rw [month_carry]
  refine findSome?_congr fun month _ => ?_
  by_cases heq : month = start.date.month
  · subst heq
    simpa using searchMonth_carry s zone start year
  · have hbound : (true && month == start.date.month) = false := by simpa using heq
    rw [hbound]
    exact searchMonth_unbound s zone _ _ year month

/-! ## The years -/

theorem mem_cons_iff_of_filter (h : s.years.filter (n ≤ ·) = n :: later) {v : Nat} :
    v ∈ n :: later ↔ v ∈ s.years ∧ n ≤ v := by
  rw [← h]
  simp

theorem toSeconds_natYear_mono {v w : Nat} (h : v ≤ w) :
    (LocalTime.mk ⟨v, 1, 1⟩ 0 0 0).toSeconds ≤ (LocalTime.mk ⟨w, 1, 1⟩ 0 0 0).toSeconds :=
  LocalTime.toSeconds_year_mono (Int.ofNat_le.2 h)

/-- The years after the first one are searched as a whole. -/
theorem finds_laterYears (zone : Zone) (hs : s.Proper) (hstart : start.Valid)
    (hyears : s.years.filter (n ≤ ·) = n :: later)
    (hbegin : start.toSeconds ≤ (LocalTime.mk ⟨(n + 1 : Nat), 1, 1⟩ 0 0 0).toSeconds) :
    Finds (s.Ends zone start) (outcome Next.skippedDate Next.at zone)
      (LocalTime.mk ⟨(n + 1 : Nat), 1, 1⟩ 0 0 0).toSeconds
      (LocalTime.mk ⟨(Field.years.last + 1 : Nat), 1, 1⟩ 0 0 0).toSeconds
      (later.findSome? fun year : Nat => s.searchYear zone start false year) := by
  have hmem {v : Nat} := mem_cons_iff_of_filter hyears (v := v)
  have hsorted : (n :: later).Pairwise (· < ·) := hyears ▸ (hs.ascending .years).filter _
  obtain ⟨hlater, hsorted⟩ := List.pairwise_cons.1 hsorted
  have hlast {v : Nat} (hv : v ∈ n :: later) : v ≤ Field.years.last :=
    (hs.range (f := .years) (hmem.1 hv).1).2
  refine finds_findSome? (a := fun v => (LocalTime.mk ⟨v, 1, 1⟩ 0 0 0).toSeconds)
    toSeconds_natYear_mono (Nat.succ_le_succ (hlast List.mem_cons_self)) hsorted (fun v hv => ?_)
    (fun v hv => ?_) fun v hge hlt hv x hlo hhi hx => ?_
  · exact ⟨hlater v hv, Nat.lt_succ_of_le (hlast (List.mem_cons_of_mem n hv))⟩
  · have hyear : (v : Int).toNat ∈ s.years := (hmem.1 (List.mem_cons_of_mem n hv)).1
    have hbound := Int.le_trans hbegin (toSeconds_natYear_mono (hlater v hv))
    exact finds_year hs hstart hyear hbound
  · obtain ⟨t, ht, rfl, hallowed, -⟩ := hx.exists_time
    have hyear : t.value .years ∈ s.years := hallowed .years (by decide)
    rw [LocalTime.value, t.year_eq ht hlo hhi, Int.toNat_natCast] at hyear
    obtain rfl | hlater := List.mem_cons.1 (hmem.2 ⟨hyear, Nat.le_of_succ_le hge⟩)
    · exact Nat.lt_irrefl _ hge
    · exact hv hlater

theorem finds_years (zone : Zone) (hs : s.Proper) (hstart : start.Valid)
    (hn : start.date.year = n) (hyears : s.years.filter (n ≤ ·) = n :: later) :
    Finds (s.Ends zone start) (outcome Next.skippedDate Next.at zone)
      (LocalTime.mk ⟨n, 1, 1⟩ 0 0 0).toSeconds
      (LocalTime.mk ⟨Field.years.last + 1, 1, 1⟩ 0 0 0).toSeconds
      ((s.searchYear zone start true n).or
        (later.findSome? fun year : Nat => s.searchYear zone start false year)) := by
  have hmem : n ∈ s.years := ((mem_cons_iff_of_filter hyears).1 List.mem_cons_self).1
  have hlast : n ≤ Field.years.last := (hs.range (f := .years) hmem).2
  have hbounds := start.year_bounds hstart
  rw [hn] at hbounds
  have hhere : Finds _ _ _ _ (s.searchYear zone start true n) := finds_year hs hstart hmem hbounds
  have hrest := finds_laterYears zone hs hstart hyears (Int.le_of_lt hbounds.2)
  exact hhere.append hrest (toSeconds_natYear_mono (Nat.le_succ n))
    (toSeconds_natYear_mono (Nat.succ_le_succ hlast))

/-! ## The whole search -/

theorem yearsFrom_natCast (s : Schedule) (k : Nat) :
    s.yearsFrom k = (s.years.filter (k ≤ ·)).map Int.ofNat := by
  have hle : (fun year : Int => decide ((k : Int) ≤ year)) ∘ Int.ofNat = (k ≤ ·) := by
    funext v
    simp
  rw [yearsFrom, if_neg (Int.not_lt.2 (Int.natCast_nonneg k)), List.filter_map, hle]

theorem exists_of_opening? (h : s.opening? start = some opening) :
    ∃ k n later, start.date.year = (k : Nat) ∧ s.years.filter (k ≤ ·) = n :: later ∧
      opening = s.carry start (n : Nat) := by
  by_cases hneg : start.date.year < 0
  · rw [opening?, yearsFrom, if_pos hneg] at h
    cases h
  · obtain ⟨k, hk⟩ := Int.eq_ofNat_of_zero_le (Int.not_lt.1 hneg)
    rw [opening?, hk, yearsFrom_natCast] at h
    cases hyears : s.years.filter (k ≤ ·) with
    | nil =>
        rw [hyears] at h
        cases h
    | cons n later =>
        rw [hyears] at h
        exact ⟨k, n, later, hk, hyears, (Option.some.inj h).symm⟩

theorem le_opening (hstart : start.Valid) (h : s.opening? start = some opening) :
    start.toSeconds ≤ opening.toSeconds := by
  obtain ⟨k, n, later, hk, hyears, rfl⟩ := exists_of_opening? h
  have hmem : n ∈ s.years.filter (k ≤ ·) := hyears ▸ List.mem_cons_self
  have hle : k ≤ n := by simpa using (List.mem_filter.1 hmem).2
  exact le_carry hstart (hk ▸ Int.ofNat_le.2 hle)

/-- If the year of the start is allowed, the search begins at the start. -/
theorem opening?_eq_start (hs : s.Proper) (hstart : start.Valid)
    (h : start.date.year.toNat ∈ s.years) : s.opening? start = some start := by
  have hfirst : 1970 ≤ start.date.year.toNat := (hs.range (f := .years) h).1
  obtain ⟨k, hk⟩ : ∃ k : Nat, start.date.year = k := ⟨start.date.year.toNat, by omega⟩
  rw [hk, Int.toNat_natCast] at h
  have hsorted : (s.years.filter (k ≤ ·)).Pairwise (· < ·) := (hs.ascending .years).filter _
  have hmem : k ∈ s.years.filter (k ≤ ·) := List.mem_filter.2 ⟨h, decide_eq_true (Nat.le_refl k)⟩
  have hge (v : Nat) (hv : v ∈ s.years.filter (k ≤ ·)) : k ≤ v := by
    simpa using (List.mem_filter.1 hv).2
  obtain ⟨later, hyears⟩ := exists_eq_cons_of_pairwise hsorted hmem hge
  rw [opening?, hk, yearsFrom_natCast, hyears]
  have hself := carry_self s hstart
  rw [hk] at hself
  exact congrArg some hself

theorem searchFrom_of_opening?_eq_none (zone : Zone) (h : s.opening? start = none) :
    s.searchFrom zone start = .never := by
  rw [opening?, Option.map_eq_none_iff, List.head?_eq_none_iff] at h
  rw [searchFrom, h]

/-- The search ends at the first local time from its opening on at which it can end. -/
theorem finds_searchFrom (zone : Zone) (hs : s.Proper) (hstart : start.Valid)
    (h : s.opening? start = some opening) :
    ∃ r, s.searchFrom zone start = r.getD .never ∧
      Finds (s.Ends zone opening) (outcome Next.skippedDate Next.at zone) opening.toSeconds
        (LocalTime.mk ⟨Field.years.last + 1, 1, 1⟩ 0 0 0).toSeconds r := by
  obtain ⟨k, n, later, hk, hyears, rfl⟩ := exists_of_opening? h
  have hvalid := valid_carry s hstart n
  have hfinds := finds_years zone hs hvalid year_carry
    (filter_le_of_filter_le hyears (hs.ascending .years))
  have hbegin := (LocalTime.year_bounds hvalid).1
  rw [searchYear_carry] at hfinds
  rw [year_carry] at hbegin
  refine ⟨_, ?_, hfinds.narrow hbegin fun x hx => hx.ahead⟩
  rw [searchFrom, hk, yearsFrom_natCast, hyears, List.map_cons]
  dsimp only
  rw [List.findSome?_map]
  cases s.searchYear zone start true n <;> rfl

end Cron.Schedule

end Scheduling
