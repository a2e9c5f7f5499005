import Scheduling.Error
/-!
# What schedules allow

The allowed values of each field of a schedule ascend and lie in the range of the field. A local
time meets a schedule if the schedule allows its value of each field.
-/

namespace Scheduling

open Cron

/-- The value of a field that a local time has. -/
def LocalTime.value (t : LocalTime) : Field → Nat
  | .seconds => t.second
  | .minutes => t.minute
  | .hours => t.hour
  | .daysOfMonth => t.date.day
  | .months => t.date.month
  | .daysOfWeek => Calendar.weekday t.date.toDays
  | .years => t.date.year.toNat

namespace Cron

namespace Field

theorem mem_all (f : Field) : f ∈ all := by
  cases f <;> decide

theorem mem_range {f : Field} {v : Nat} : v ∈ f.range ↔ f.first ≤ v ∧ v ≤ f.last := by
  have hle : f.first ≤ f.last := by cases f <;> decide
  rw [range, List.mem_range'_1]
  omega

theorem pairwise_range (f : Field) : f.range.Pairwise (· < ·) := List.pairwise_lt_range'

/-- A list of values of a field, ascending and without repetition. -/
def Selects (f : Field) (values : List Nat) : Prop := ∃ p, values = f.range.filter p

theorem selects_range (f : Field) : f.Selects f.range :=
  ⟨fun _ => true, (List.filter_eq_self.2 fun _ _ => rfl).symm⟩

theorem selects_singleton {f : Field} {v : Nat} (h : v ∈ f.range) : f.Selects [v] := by
  refine ⟨(· == v), ?_⟩
  have hnodup : f.range.Nodup := f.pairwise_range.imp Nat.ne_of_lt
  rw [List.filter_beq, List.Nodup.count hnodup, if_pos h]
  rfl

end Field

namespace Schedule

variable {s : Schedule} {t : LocalTime} {f : Field} {zone : Zone} {u : Int}

/-- Every field of a local time has a value that is allowed. -/
def Meets (s : Schedule) (t : LocalTime) : Prop := ∀ f, t.value f ∈ s.allowed f

instance : Decidable (s.Meets t) :=
  decidable_of_iff (∀ f ∈ Field.all, t.value f ∈ s.allowed f)
    ⟨fun h f => h f f.mem_all, fun h f _ => h f⟩

/-- The local time of a second since 1970-01-01 UTC meets a schedule. -/
def MeetsAt (s : Schedule) (zone : Zone) (u : Int) : Prop :=
  s.Meets (LocalTime.ofSeconds (zone.localSeconds u))

instance : Decidable (s.MeetsAt zone u) := inferInstanceAs (Decidable (s.Meets _))

/-- The allowed values of each field ascend and lie in its range. -/
structure Proper (s : Schedule) : Prop where
  ascending : ∀ f, (s.allowed f).Pairwise (· < ·)
  range : ∀ {f : Field} {v : Nat}, v ∈ s.allowed f → f.first ≤ v ∧ v ≤ f.last

/-! ## Schedules that are read -/

theorem proper_of_selects (h : ∀ f : Field, f.Selects (s.allowed f)) : s.Proper where
  ascending f := by
    obtain ⟨p, hp⟩ := h f
    rw [hp]
    exact f.pairwise_range.filter p
  range {f v} hv := by
    obtain ⟨p, hp⟩ := h f
    rw [hp] at hv
    exact Field.mem_range.1 (List.mem_filter.1 hv).1

theorem selects_of_field? {cs rest : List Char} {values : List Nat}
    (h : field? f cs = some (values, rest)) : f.Selects values := by
  unfold field? at h
  split at h
  · obtain ⟨vs, hvs, hpair⟩ := Option.map_eq_some_iff.1 h
    obtain ⟨ps, -, hps⟩ := Option.map_eq_some_iff.1 hvs
    cases hpair
    exact ⟨_, hps.symm⟩
  · cases h

theorem selects_of_shorthand {word : String × (String → Schedule)} (h : word ∈ shorthands)
    (source : String) (f : Field) : f.Selects ((word.2 source).allowed f) := by
  simp only [shorthands, List.mem_cons, List.not_mem_nil, or_false] at h
  obtain rfl | rfl | rfl | rfl | rfl := h <;> cases f <;>
    first
    | exact Field.selects_range _
    | exact Field.selects_singleton (Field.mem_range.2 (by decide))

/-- A schedule that is read, with what is found out about it by evaluation. -/
theorem exists_of_parse (expression : String) (p : Schedule → Bool)
    (h : (Schedule.parse expression).toOption.any p = true) :
    ∃ s, Schedule.parse expression = .ok s ∧ p s = true := by
  cases hread : Schedule.parse expression with
  | ok s =>
      rw [hread] at h
      exact ⟨s, rfl, h⟩
  | error e =>
      rw [hread] at h
      cases h

/-- What holds of every field that is read, of all years and of the shorthands holds of the fields
of every schedule that is read. -/
theorem allowed_of_parse {P : Field → List Nat → Prop}
    (hfield : ∀ (f : Field) (cs rest : List Char) (values : List Nat),
      field? f cs = some (values, rest) → P f values)
    (hyears : P .years Field.years.range)
    (hshort : ∀ word ∈ shorthands, ∀ (source : String) (f : Field),
      P f ((word.2 source).allowed f))
    {expression : String} (h : parse expression = .ok s) (f : Field) : P f (s.allowed f) := by
  have hyears' {cs : List Char} {values : List Nat} (h : years? cs = some values) :
      P .years values := by
    unfold years? at h
    split at h
    · rename_i hread
      cases h
      exact hfield _ _ _ _ hread
    · cases h
    · split at h
      · cases h
        exact hyears
      · cases h
  unfold parse at h
  split at h
  · rename_i schedule hread
    cases h
    unfold ofExpression? ofNormalized? at hread
    split at hread
    · rename_i hshorthand
      cases hread
      obtain ⟨word, hword, hschedule⟩ := List.exists_of_findSome?_eq_some hshorthand
      dsimp only at hschedule
      split at hschedule
      · cases hschedule
        exact hshort word hword _ f
      · cases hschedule
    · simp only [ofFields?, Option.bind_eq_bind, Option.bind_eq_some_iff, Prod.exists,
        Option.pure_def, Option.some.injEq] at hread
      obtain ⟨seconds, _, hseconds, minutes, _, hminutes, hours, _, hhours, days, _, hdays,
        months, _, hmonths, weekdays, _, hweekdays, years, hread, rfl⟩ := hread
      cases f with
      | seconds => exact hfield _ _ _ _ hseconds
      | minutes => exact hfield _ _ _ _ hminutes
      | hours => exact hfield _ _ _ _ hhours
      | daysOfMonth => exact hfield _ _ _ _ hdays
      | months => exact hfield _ _ _ _ hmonths
      | daysOfWeek => exact hfield _ _ _ _ hweekdays
      | years => exact hyears' hread
  · cases h

/-- A schedule that is read has ascending values in range. -/
theorem proper_of_parse {expression : String} (h : parse expression = .ok s) : s.Proper :=
  proper_of_selects <| allowed_of_parse (P := Field.Selects) (fun _ _ _ _ => selects_of_field?)
    (Field.selects_range _) (fun _ => selects_of_shorthand) h

end Schedule

end Cron

end Scheduling
