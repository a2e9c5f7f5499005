import Scheduling.Time.Calendar
/-!
# Days and their dates

The days of a year and those of a month follow one another without a gap, so every day has one date
and every second one local time.
-/

namespace Scheduling

/-- Intervals that follow one another leave no gap. -/
theorem exists_block {a : Nat → Int} {first last : Nat} {x : Int} (hfirst : a first ≤ x)
    (hlast : x < a last) (hle : first ≤ last) :
    ∃ v, first ≤ v ∧ v < last ∧ a v ≤ x ∧ x < a (v + 1) := by
  induction hle with
  | refl => exact absurd hlast (Int.not_lt.2 hfirst)
  | @step n hn ih =>
      by_cases hx : x < a n
      · obtain ⟨v, hv, hlt, hblock⟩ := ih hx
        exact ⟨v, hv, Nat.lt_succ_of_lt hlt, hblock⟩
      · exact ⟨n, hn, Nat.lt_succ_self n, Int.not_lt.1 hx, hlast⟩

namespace Calendar

variable {year : Int} {month : Nat} {day : Int}

/-! ## Years -/

theorem isLeap_iff : isLeap year = true ↔ year % 4 = 0 ∧ (year % 100 ≠ 0 ∨ year % 400 = 0) := by
  simp [isLeap]

/-- The number of days of a year. -/
def yearLength (leap : Bool) : Nat := if leap then 366 else 365

theorem daysBeforeYear_eq (year : Int) : daysBeforeYear year =
    365 * (year - 1) + (year - 1) / 4 - (year - 1) / 100 + (year - 1) / 400 - 719162 := rfl

theorem daysBeforeYear_succ (year : Int) :
    daysBeforeYear (year + 1) = daysBeforeYear year + yearLength (isLeap year) := by
  rw [daysBeforeYear_eq, daysBeforeYear_eq, yearLength]
  by_cases hleap : isLeap year = true
  · have h := isLeap_iff.1 hleap
    rw [if_pos hleap]
    omega
  · have h := (not_congr isLeap_iff).1 hleap
    rw [if_neg hleap]
    omega

theorem daysBeforeYear_lt {y z : Int} (h : y < z) : daysBeforeYear y < daysBeforeYear z := by
  rw [daysBeforeYear_eq, daysBeforeYear_eq]
  omega

/-- The days before a year by its place in the cycle of 400 years. -/
theorem daysBeforeYear_cycle (q c f k : Int) (hc : 0 ≤ c ∧ c ≤ 3) (hf : 0 ≤ f ∧ f ≤ 24)
    (hk : 0 ≤ k ∧ k ≤ 3) :
    daysBeforeYear (400 * q + 100 * c + 4 * f + k + 1) =
      146097 * q + 36524 * c + 1461 * f + 365 * k - 719162 := by
  rw [daysBeforeYear_eq]
  omega

theorem isLeap_cycle (q c f k : Int) (hc : 0 ≤ c ∧ c ≤ 3) (hf : 0 ≤ f ∧ f ≤ 24)
    (hk : 0 ≤ k ∧ k ≤ 3) :
    isLeap (400 * q + 100 * c + 4 * f + k + 1) = true ↔ k = 3 ∧ (f ≠ 24 ∨ c = 3) := by
  rw [isLeap_iff]
  omega

/-- The year of a day is the one whose days it is among. -/
theorem daysBeforeYear_yearOfDay (day : Int) :
    daysBeforeYear (yearOfDay day) ≤ day ∧ day < daysBeforeYear (yearOfDay day + 1) := by
  obtain ⟨n, hn⟩ : ∃ n, n = day + 719162 := ⟨_, rfl⟩
  obtain ⟨c, hc⟩ : ∃ c, c = min 3 (n % 146097 / 36524) := ⟨_, rfl⟩
  obtain ⟨f, hf⟩ : ∃ f, f = (n % 146097 - c * 36524) / 1461 := ⟨_, rfl⟩
  obtain ⟨k, hk⟩ : ∃ k, k = min 3 ((n % 146097 - c * 36524) % 1461 / 365) := ⟨_, rfl⟩
  have hyear : yearOfDay day = 400 * (n / 146097) + 100 * c + 4 * f + k + 1 := by
    rw [hk, hf, hc, hn]
    rfl
  have hc' : 0 ≤ c ∧ c ≤ 3 := by omega
  have hf' : 0 ≤ f ∧ f ≤ 24 := by omega
  have hk' : 0 ≤ k ∧ k ≤ 3 := by omega
  have hleap := isLeap_cycle (n / 146097) c f k hc' hf' hk'
  rw [daysBeforeYear_succ, hyear, daysBeforeYear_cycle _ c f k hc' hf' hk']
  refine ⟨by omega, ?_⟩
  by_cases h : k = 3 ∧ (f ≠ 24 ∨ c = 3)
  · rw [yearLength, if_pos (hleap.2 h)]
    omega
  · rw [yearLength, if_neg ((not_congr hleap).2 h)]
    omega

theorem yearOfDay_eq (hstart : daysBeforeYear year ≤ day)
    (hend : day < daysBeforeYear (year + 1)) : yearOfDay day = year := by
  obtain ⟨hfirst, hlast⟩ := daysBeforeYear_yearOfDay day
  obtain hlt | heq | hgt := Int.lt_trichotomy (yearOfDay day) year
  · have hle : yearOfDay day + 1 = year ∨ yearOfDay day + 1 < year := by omega
    obtain heq | hlt := hle
    · rw [heq] at hlast
      omega
    · have := daysBeforeYear_lt hlt
      omega
  · exact heq
  · have hle : year + 1 = yearOfDay day ∨ year + 1 < yearOfDay day := by omega
    obtain heq | hlt := hle
    · rw [← heq] at hfirst
      omega
    · have := daysBeforeYear_lt hlt
      omega

/-! ## Months -/

theorem foldl_add (lengths : List Nat) (n : Nat) :
    lengths.foldl (· + ·) n = n + lengths.foldl (· + ·) 0 := by
  have hassoc : lengths.foldl (· + ·) (n + 0) = n + lengths.foldl (· + ·) 0 := List.foldl_assoc
  exact hassoc

theorem monthOfDay_eq {lengths : List Nat} {i k : Nat} (hi : i < lengths.length)
    (hk : k < lengths[i]) (month : Nat) :
    monthOfDay lengths month ((lengths.take i).foldl (· + ·) 0 + k) = (month + i, k + 1) := by
  induction lengths generalizing i month with
  | nil => cases hi
  | cons length rest ih =>
      cases i with
      | zero =>
          rw [List.take_zero, List.foldl_nil, Nat.zero_add, monthOfDay]
          exact if_pos hk
      | succ i =>
          have hi' : i < rest.length := Nat.lt_of_succ_lt_succ hi
          have hrest : ((length :: rest).take (i + 1)).foldl (· + ·) 0 + k =
              length + ((rest.take i).foldl (· + ·) 0 + k) := by
            rw [List.take_succ_cons, List.foldl_cons, Nat.zero_add, foldl_add, Nat.add_assoc]
          rw [hrest, monthOfDay, if_neg (by omega), Nat.add_sub_cancel_left, ih hi' hk,
            Nat.add_assoc, Nat.add_comm 1 i]

theorem length_monthLengths (leap : Bool) : (monthLengths leap).length = 12 := rfl

theorem monthLength_eq_getElem (h : month - 1 < (monthLengths (isLeap year)).length) :
    monthLength year month = (monthLengths (isLeap year))[month - 1] := by
  rw [monthLength, List.getD_eq_getElem?_getD, List.getElem?_eq_getElem h, Option.getD_some]

theorem daysBeforeMonth_succ (year : Int) (hfirst : 1 ≤ month) (hlast : month ≤ 12) :
    daysBeforeMonth (isLeap year) (month + 1) =
      daysBeforeMonth (isLeap year) month + monthLength year month := by
  have hi : month - 1 < (monthLengths (isLeap year)).length := by
    rw [length_monthLengths]
    omega
  have htake : month + 1 - 1 = month - 1 + 1 := by omega
  rw [daysBeforeMonth, daysBeforeMonth, monthLength_eq_getElem hi, htake,
    List.take_succ_eq_append_getElem hi, List.foldl_append, List.foldl_cons, List.foldl_nil]

theorem daysBeforeMonth_first (leap : Bool) : daysBeforeMonth leap 1 = 0 := rfl

theorem daysBeforeMonth_last (leap : Bool) : daysBeforeMonth leap 13 = yearLength leap := by
  cases leap <;> rfl

theorem daysBeforeMonth_mono (leap : Bool) {v w : Nat} (h : v ≤ w) :
    daysBeforeMonth leap v ≤ daysBeforeMonth leap w := by
  obtain ⟨k, hk⟩ := Nat.le.dest (Nat.sub_le_sub_right h 1)
  have hsplit : daysBeforeMonth leap w = daysBeforeMonth leap v +
      (((monthLengths leap).drop (v - 1)).take k).foldl (· + ·) 0 := by
    rw [daysBeforeMonth, ← hk, List.take_add, List.foldl_append]
    exact foldl_add _ _
  rw [hsplit]
  exact Nat.le_add_right _ _

end Calendar

/-! ## Dates -/

namespace Date

open Calendar

/-- A date that the calendar has. -/
structure Valid (date : Date) : Prop where
  month : 1 ≤ date.month ∧ date.month ≤ 12
  day : 1 ≤ date.day ∧ date.day ≤ monthLength date.year date.month

theorem toDays_mk (year : Int) (month day : Nat) : Date.toDays ⟨year, month, day⟩ =
    daysBeforeYear year + daysBeforeMonth (isLeap year) month + ((day : Int) - 1) := rfl

theorem toDays_bounds {date : Date} (h : date.Valid) :
    daysBeforeYear date.year ≤ date.toDays ∧ date.toDays < daysBeforeYear (date.year + 1) := by
  have hle := daysBeforeMonth_mono (isLeap date.year) (Nat.succ_le_succ h.month.2)
  rw [daysBeforeMonth_last, daysBeforeMonth_succ date.year h.month.1 h.month.2] at hle
  have hday := h.day
  rw [daysBeforeYear_succ, toDays]
  omega

theorem ofDays_toDays {date : Date} (h : date.Valid) : ofDays date.toDays = date := by
  obtain ⟨hstart, hend⟩ := toDays_bounds h
  have hyear : yearOfDay date.toDays = date.year := yearOfDay_eq hstart hend
  obtain ⟨hfirst, hlast⟩ := h.month
  obtain ⟨hday, hlength⟩ := h.day
  have hi : date.month - 1 < (monthLengths (isLeap date.year)).length := by
    rw [length_monthLengths]
    omega
  have hk : date.day - 1 < (monthLengths (isLeap date.year))[date.month - 1] := by
    rw [← monthLength_eq_getElem hi]
    omega
  have hoffset : (date.toDays - daysBeforeYear date.year).toNat =
      ((monthLengths (isLeap date.year)).take (date.month - 1)).foldl (· + ·) 0 +
        (date.day - 1) := by
    rw [← daysBeforeMonth, toDays]
    omega
  have hmonth := monthOfDay_eq hi hk 1
  rw [Nat.add_sub_cancel' hfirst, Nat.sub_add_cancel hday] at hmonth
  simp only [ofDays, hyear, hoffset, hmonth]

theorem eq_of_toDays_eq {date date' : Date} (h : date.Valid) (h' : date'.Valid)
    (heq : date.toDays = date'.toDays) : date = date' := by
  rw [← ofDays_toDays h, heq, ofDays_toDays h']

/-- Every day has a date. -/
theorem exists_date (day : Int) : ∃ date : Date, date.Valid ∧ date.toDays = day := by
  obtain ⟨hstart, hend⟩ := daysBeforeYear_yearOfDay day
  generalize yearOfDay day = year at hstart hend
  rw [daysBeforeYear_succ, ← daysBeforeMonth_last] at hend
  have hfirst : daysBeforeYear year + (daysBeforeMonth (isLeap year) 1 : Nat) ≤ day := by
    rw [daysBeforeMonth_first]
    omega
  obtain ⟨month, hmonth, hlt, hlow, hhigh⟩ := exists_block
    (a := fun month => daysBeforeYear year + daysBeforeMonth (isLeap year) month)
    hfirst hend (by decide)
  have hmonths : 1 ≤ month ∧ month ≤ 12 := ⟨hmonth, Nat.le_of_lt_succ hlt⟩
  rw [daysBeforeMonth_succ year hmonths.1 hmonths.2] at hhigh
  refine ⟨⟨year, month,
    (day - (daysBeforeYear year + daysBeforeMonth (isLeap year) month)).toNat + 1⟩,
    ⟨hmonths, ?_⟩, ?_⟩
  · dsimp only
    omega
  · simp only [toDays]
    omega

theorem toDays_ofDays (day : Int) : (ofDays day).toDays = day := by
  obtain ⟨date, hdate, rfl⟩ := exists_date day
  rw [ofDays_toDays hdate]

theorem valid_ofDays (day : Int) : (ofDays day).Valid := by
  obtain ⟨date, hdate, rfl⟩ := exists_date day
  rw [ofDays_toDays hdate]
  exact hdate

end Date

/-! ## Times of a day -/

namespace LocalTime

/-- A local time that the clock can show. -/
structure Valid (t : LocalTime) : Prop where
  date : t.date.Valid
  hour : t.hour < 24
  minute : t.minute < 60
  second : t.second < 60

theorem ofSeconds_toSeconds {t : LocalTime} (h : t.Valid) : ofSeconds t.toSeconds = t := by
  have hhour := h.hour
  have hminute := h.minute
  have hsecond := h.second
  have hday : t.toSeconds / 86400 = t.date.toDays := by
    rw [toSeconds]
    omega
  have hclock : (t.toSeconds % 86400).toNat = t.hour * 3600 + t.minute * 60 + t.second := by
    rw [toSeconds]
    omega
  simp only [ofSeconds, hday, hclock, Date.ofDays_toDays h.date]
  obtain ⟨date, hour, minute, second⟩ := t
  simp only [LocalTime.mk.injEq, true_and]
  dsimp only at hminute hsecond
  omega

theorem valid_ofSeconds (s : Int) : (ofSeconds s).Valid where
  date := Date.valid_ofDays _
  hour := by
    dsimp only [ofSeconds]
    omega
  minute := Nat.mod_lt _ (by decide)
  second := Nat.mod_lt _ (by decide)

theorem toSeconds_ofSeconds (s : Int) : (ofSeconds s).toSeconds = s := by
  simp only [toSeconds, ofSeconds, Date.toDays_ofDays]
  omega

/-! ### Intervals of years, months, days, hours and minutes -/

theorem toSeconds_mk (date : Date) (hour minute second : Nat) :
    (LocalTime.mk date hour minute second).toSeconds =
      date.toDays * 86400 + (hour * 3600 + minute * 60 + second : Nat) := rfl

theorem toSeconds_second_mono (date : Date) (hour minute : Nat) {v w : Nat} (h : v ≤ w) :
    (LocalTime.mk date hour minute v).toSeconds ≤ (LocalTime.mk date hour minute w).toSeconds := by
  rw [toSeconds_mk, toSeconds_mk]
  omega

theorem toSeconds_minute_mono (date : Date) (hour : Nat) {v w : Nat} (h : v ≤ w) :
    (LocalTime.mk date hour v 0).toSeconds ≤ (LocalTime.mk date hour w 0).toSeconds := by
  rw [toSeconds_mk, toSeconds_mk]
  omega

theorem toSeconds_hour_mono (date : Date) {v w : Nat} (h : v ≤ w) :
    (LocalTime.mk date v 0 0).toSeconds ≤ (LocalTime.mk date w 0 0).toSeconds := by
  rw [toSeconds_mk, toSeconds_mk]
  omega

theorem toSeconds_day_mono (year : Int) (month : Nat) {v w : Nat} (h : v ≤ w) :
    (LocalTime.mk ⟨year, month, v⟩ 0 0 0).toSeconds ≤
      (LocalTime.mk ⟨year, month, w⟩ 0 0 0).toSeconds := by
  rw [toSeconds_mk, toSeconds_mk, Date.toDays_mk, Date.toDays_mk]
  omega

theorem toSeconds_month_mono (year : Int) {v w : Nat} (h : v ≤ w) :
    (LocalTime.mk ⟨year, v, 1⟩ 0 0 0).toSeconds ≤ (LocalTime.mk ⟨year, w, 1⟩ 0 0 0).toSeconds := by
  have hle := Calendar.daysBeforeMonth_mono (Calendar.isLeap year) h
  rw [toSeconds_mk, toSeconds_mk, Date.toDays_mk, Date.toDays_mk]
  omega

theorem toSeconds_year_mono {v w : Int} (h : v ≤ w) :
    (LocalTime.mk ⟨v, 1, 1⟩ 0 0 0).toSeconds ≤ (LocalTime.mk ⟨w, 1, 1⟩ 0 0 0).toSeconds := by
  obtain rfl | hlt := Int.le_iff_eq_or_lt.1 h
  · exact Int.le_refl _
  · have hlt := Calendar.daysBeforeYear_lt hlt
    rw [toSeconds_mk, toSeconds_mk, Date.toDays_mk, Date.toDays_mk,
      Calendar.daysBeforeMonth_first, Calendar.daysBeforeMonth_first]
    omega

theorem toSeconds_minute_end (date : Date) (hour minute : Nat) :
    (LocalTime.mk date hour minute 60).toSeconds =
      (LocalTime.mk date hour (minute + 1) 0).toSeconds := by
  rw [toSeconds_mk, toSeconds_mk]
  omega

theorem toSeconds_hour_end (date : Date) (hour : Nat) :
    (LocalTime.mk date hour 60 0).toSeconds = (LocalTime.mk date (hour + 1) 0 0).toSeconds := by
  rw [toSeconds_mk, toSeconds_mk]
  omega

theorem toSeconds_day_end (year : Int) (month day : Nat) :
    (LocalTime.mk ⟨year, month, day⟩ 24 0 0).toSeconds =
      (LocalTime.mk ⟨year, month, day + 1⟩ 0 0 0).toSeconds := by
  rw [toSeconds_mk, toSeconds_mk, Date.toDays_mk, Date.toDays_mk]
  omega

theorem toSeconds_month_end (year : Int) {month : Nat} (hmonth : 1 ≤ month ∧ month ≤ 12) :
    (LocalTime.mk ⟨year, month, Calendar.monthLength year month + 1⟩ 0 0 0).toSeconds =
      (LocalTime.mk ⟨year, month + 1, 1⟩ 0 0 0).toSeconds := by
  rw [toSeconds_mk, toSeconds_mk, Date.toDays_mk, Date.toDays_mk,
    Calendar.daysBeforeMonth_succ year hmonth.1 hmonth.2]
  omega

theorem toSeconds_year_end (year : Int) :
    (LocalTime.mk ⟨year, 13, 1⟩ 0 0 0).toSeconds =
      (LocalTime.mk ⟨year + 1, 1, 1⟩ 0 0 0).toSeconds := by
  rw [toSeconds_mk, toSeconds_mk, Date.toDays_mk, Date.toDays_mk, Calendar.daysBeforeYear_succ,
    Calendar.daysBeforeMonth_first, Calendar.daysBeforeMonth_last]
  omega

section Intervals

variable {t : LocalTime} {date : Date} {year : Int} {month hour minute second : Nat}

/-- A local time lies in its second, minute, hour, day, month and year. -/
theorem second_bounds (t : LocalTime) :
    (LocalTime.mk t.date t.hour t.minute t.second).toSeconds ≤ t.toSeconds ∧
      t.toSeconds < (LocalTime.mk t.date t.hour t.minute (t.second + 1)).toSeconds := by
  simp only [toSeconds]
  omega

theorem minute_bounds (h : t.Valid) :
    (LocalTime.mk t.date t.hour t.minute 0).toSeconds ≤ t.toSeconds ∧
      t.toSeconds < (LocalTime.mk t.date t.hour (t.minute + 1) 0).toSeconds := by
  have hsecond := h.second
  simp only [toSeconds]
  omega

theorem hour_bounds (h : t.Valid) :
    (LocalTime.mk t.date t.hour 0 0).toSeconds ≤ t.toSeconds ∧
      t.toSeconds < (LocalTime.mk t.date (t.hour + 1) 0 0).toSeconds := by
  have hminute := h.minute
  have hsecond := h.second
  simp only [toSeconds]
  omega

theorem date_bounds (h : t.Valid) :
    (LocalTime.mk t.date 0 0 0).toSeconds ≤ t.toSeconds ∧
      t.toSeconds < (LocalTime.mk t.date 24 0 0).toSeconds := by
  have hhour := h.hour
  have hminute := h.minute
  have hsecond := h.second
  simp only [toSeconds]
  omega

theorem month_bounds (h : t.Valid) :
    (LocalTime.mk ⟨t.date.year, t.date.month, 1⟩ 0 0 0).toSeconds ≤ t.toSeconds ∧
      t.toSeconds < (LocalTime.mk ⟨t.date.year, t.date.month + 1, 1⟩ 0 0 0).toSeconds := by
  have hday := h.date.day
  have hdate := date_bounds h
  rw [toSeconds_day_end] at hdate
  rw [← toSeconds_month_end t.date.year h.date.month]
  exact ⟨Int.le_trans (toSeconds_day_mono _ _ hday.1) hdate.1,
    Int.lt_of_lt_of_le hdate.2 (toSeconds_day_mono _ _ (Nat.succ_le_succ hday.2))⟩

theorem year_bounds (h : t.Valid) :
    (LocalTime.mk ⟨t.date.year, 1, 1⟩ 0 0 0).toSeconds ≤ t.toSeconds ∧
      t.toSeconds < (LocalTime.mk ⟨t.date.year + 1, 1, 1⟩ 0 0 0).toSeconds := by
  have hmonth := h.date.month
  have hbounds := month_bounds h
  rw [← toSeconds_year_end]
  exact ⟨Int.le_trans (toSeconds_month_mono _ hmonth.1) hbounds.1,
    Int.lt_of_lt_of_le hbounds.2 (toSeconds_month_mono _ (Nat.succ_le_succ hmonth.2))⟩

/-! ### What a local time in an interval has in common with it -/


theorem year_eq (h : t.Valid) (hlo : (LocalTime.mk ⟨year, 1, 1⟩ 0 0 0).toSeconds ≤ t.toSeconds)
    (hhi : t.toSeconds < (LocalTime.mk ⟨year + 1, 1, 1⟩ 0 0 0).toSeconds) : t.date.year = year := by
  obtain ⟨hstart, hend⟩ := year_bounds h
  obtain hlt | heq | hgt := Int.lt_trichotomy t.date.year year
  · exact absurd (Int.lt_of_lt_of_le hend (toSeconds_year_mono hlt)) (Int.not_lt.2 hlo)
  · exact heq
  · exact absurd (Int.lt_of_lt_of_le hhi (toSeconds_year_mono hgt)) (Int.not_lt.2 hstart)

theorem month_eq (h : t.Valid) (hmonth : 1 ≤ month ∧ month ≤ 12)
    (hlo : (LocalTime.mk ⟨year, month, 1⟩ 0 0 0).toSeconds ≤ t.toSeconds)
    (hhi : t.toSeconds < (LocalTime.mk ⟨year, month + 1, 1⟩ 0 0 0).toSeconds) :
    t.date.year = year ∧ t.date.month = month := by
  have hyear : t.date.year = year := by
    refine year_eq h (Int.le_trans (toSeconds_month_mono year hmonth.1) hlo) ?_
    rw [← toSeconds_year_end]
    exact Int.lt_of_lt_of_le hhi (toSeconds_month_mono year (Nat.succ_le_succ hmonth.2))
  obtain ⟨hstart, hend⟩ := month_bounds h
  rw [hyear] at hstart hend
  obtain hlt | heq | hgt := Nat.lt_trichotomy t.date.month month
  · exact absurd (Int.lt_of_lt_of_le hend (toSeconds_month_mono year hlt)) (Int.not_lt.2 hlo)
  · exact ⟨hyear, heq⟩
  · exact absurd (Int.lt_of_lt_of_le hhi (toSeconds_month_mono year hgt)) (Int.not_lt.2 hstart)

theorem date_eq (h : t.Valid) (hdate : date.Valid)
    (hlo : (LocalTime.mk date 0 0 0).toSeconds ≤ t.toSeconds)
    (hhi : t.toSeconds < (LocalTime.mk date 24 0 0).toSeconds) : t.date = date := by
  obtain ⟨hstart, hend⟩ := date_bounds h
  simp only [toSeconds_mk] at hlo hhi hstart hend
  exact Date.eq_of_toDays_eq h.date hdate (by omega)

theorem hour_eq (h : t.Valid) (hdate : date.Valid) (hhour : hour < 24)
    (hlo : (LocalTime.mk date hour 0 0).toSeconds ≤ t.toSeconds)
    (hhi : t.toSeconds < (LocalTime.mk date (hour + 1) 0 0).toSeconds) :
    t.date = date ∧ t.hour = hour := by
  have heq : t.date = date := date_eq h hdate
    (Int.le_trans (toSeconds_hour_mono date (Nat.zero_le hour)) hlo)
    (Int.lt_of_lt_of_le hhi (toSeconds_hour_mono date hhour))
  have hminute := h.minute
  have hsecond := h.second
  simp only [toSeconds_mk] at hlo hhi
  rw [toSeconds, heq] at hlo hhi
  exact ⟨heq, by omega⟩

theorem minute_eq (h : t.Valid) (hdate : date.Valid) (hhour : hour < 24) (hminute : minute < 60)
    (hlo : (LocalTime.mk date hour minute 0).toSeconds ≤ t.toSeconds)
    (hhi : t.toSeconds < (LocalTime.mk date hour (minute + 1) 0).toSeconds) :
    t.date = date ∧ t.hour = hour ∧ t.minute = minute := by
  have hend := toSeconds_minute_mono date hour (Nat.succ_le_of_lt hminute)
  rw [toSeconds_hour_end] at hend
  obtain ⟨heq, hsame⟩ := hour_eq h hdate hhour
    (Int.le_trans (toSeconds_minute_mono date hour (Nat.zero_le minute)) hlo)
    (Int.lt_of_lt_of_le hhi hend)
  have hsecond := h.second
  simp only [toSeconds_mk] at hlo hhi
  rw [toSeconds, heq, hsame] at hlo hhi
  exact ⟨heq, hsame, by omega⟩

theorem second_eq (h : t.Valid) (hdate : date.Valid) (hhour : hour < 24) (hminute : minute < 60)
    (hsecond : second < 60) (hlo : (LocalTime.mk date hour minute second).toSeconds ≤ t.toSeconds)
    (hhi : t.toSeconds < (LocalTime.mk date hour minute (second + 1)).toSeconds) :
    t = ⟨date, hour, minute, second⟩ := by
  have heq : t.toSeconds = (LocalTime.mk date hour minute second).toSeconds := by
    simp only [toSeconds_mk] at hlo hhi ⊢
    omega
  rw [← ofSeconds_toSeconds h, heq, ofSeconds_toSeconds ⟨hdate, hhour, hminute, hsecond⟩]

end Intervals

end LocalTime

end Scheduling
