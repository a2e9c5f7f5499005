import Mathlib.Data.List.Chain
import Scheduling.Time.Zone.Choice
/-!
# Instants and their local times

Local time runs on with the instants but for its offset changes. If the changes of a zone are far
enough apart, a local time that belongs to one instant only comes in the same order as that instant:
no instant has an earlier local time and comes later.
-/

namespace Scheduling

namespace Zone

variable {offset moment next t u v : Int} {changes rest : List (Int × Int)} {since : Option Int}

/-! ## Changes that are far apart -/

/-- Each change is further from the one before than the sum of their sizes, when `offset` holds
before the first of them. -/
def SpacedAfter (offset : Int) : List (Int × Int) → Prop
  | [] => True
  | (moment, next) :: rest =>
    (∀ c ∈ rest.head?, ((next - offset).natAbs + (c.2 - next).natAbs : Int) < c.1 - moment) ∧
      SpacedAfter next rest

instance decidableSpacedAfter : (offset : Int) → (changes : List (Int × Int)) →
    Decidable (SpacedAfter offset changes)
  | _, [] => .isTrue trivial
  | _, (_, next) :: rest =>
    have := decidableSpacedAfter next rest
    inferInstanceAs (Decidable (_ ∧ _))

/-- The offset changes of a zone are further apart in time than the sum of their sizes. -/
def Spaced (zone : Zone) : Prop := SpacedAfter zone.start zone.changes

instance (zone : Zone) : Decidable zone.Spaced := inferInstanceAs (Decidable (SpacedAfter _ _))

theorem spaced_fixed (offset : Int) : (fixed offset).Spaced := trivial

theorem SpacedAfter.lt_head (h : SpacedAfter offset ((moment, next) :: rest)) {c : Int × Int}
    (hc : c ∈ rest.head?) : moment < c.1 := by
  have := h.1 c hc
  omega

/-- The offset changes of a zone are listed in the order of time. -/
def Ordered (zone : Zone) : Prop := zone.changes.IsChain fun c d => c.1 ≤ d.1

theorem SpacedAfter.isChain (h : SpacedAfter offset changes) :
    changes.IsChain fun c d => c.1 ≤ d.1 := by
  induction changes generalizing offset with
  | nil => exact .nil
  | cons c rest ih =>
      exact List.isChain_cons.2 ⟨fun d hd => Int.le_of_lt (h.lt_head hd), ih h.2⟩

theorem Spaced.ordered {zone : Zone} (h : zone.Spaced) : zone.Ordered := SpacedAfter.isChain h

/-! ## Offsets -/

theorem offsetAfter_of_lt (h : u < moment) :
    offsetAfter offset ((moment, next) :: rest) u = offset :=
  if_pos h

theorem offsetAfter_of_le (h : moment ≤ u) :
    offsetAfter offset ((moment, next) :: rest) u = offsetAfter next rest u :=
  if_neg (Int.not_lt.2 h)

theorem offsetAfter_of_lt_head (h : ∀ c ∈ changes.head?, u < c.1) :
    offsetAfter offset changes u = offset := by
  cases changes with
  | nil => rfl
  | cons c rest => exact offsetAfter_of_lt (h c rfl)

/-! ## The instants of a local time -/

theorem mem_instantsAfter_nil :
    u ∈ instantsAfter since offset [] t ↔ (∀ m ∈ since, m ≤ u) ∧ u + offset = t := by
  have hall : since.all (· ≤ t - offset) = true ↔ ∀ m ∈ since, m ≤ t - offset := by
    simp [Option.all_eq_true]
  have heq : u + offset = t ↔ u = t - offset := by omega
  rw [instantsAfter, heq]
  split
  · rename_i h
    rw [List.mem_singleton]
    exact ⟨fun hu => ⟨hu ▸ hall.1 h, hu⟩, And.right⟩
  · rename_i h
    exact ⟨fun hu => absurd hu List.not_mem_nil, fun hu => absurd (hu.2 ▸ hu.1) (mt hall.2 h)⟩

theorem mem_instantsAfter_cons : u ∈ instantsAfter since offset ((moment, next) :: rest) t ↔
    ((∀ m ∈ since, m ≤ u) ∧ u < moment ∧ u + offset = t) ∨
      u ∈ instantsAfter (some moment) next rest t := by
  have hhere : (since.all (· ≤ t - offset) && t - offset < moment) = true ↔
      (∀ m ∈ since, m ≤ t - offset) ∧ t - offset < moment := by
    simp [Option.all_eq_true]
  have heq : u + offset = t ↔ u = t - offset := by omega
  rw [instantsAfter, heq]
  split
  · rename_i h
    rw [List.mem_cons]
    refine or_congr_left ⟨fun hu => ?_, fun hu => hu.2.2⟩
    exact ⟨hu ▸ (hhere.1 h).1, hu ▸ (hhere.1 h).2, hu⟩
  · rename_i h
    refine ⟨.inr, fun hu => hu.resolve_left fun hu => h (hhere.2 ?_)⟩
    exact hu.2.2 ▸ ⟨hu.1, hu.2.1⟩

/-- The instants listed for a local time are those that have it. -/
theorem mem_instantsAfter (h : changes.IsChain fun c d => c.1 ≤ d.1)
    (hsince : ∀ m ∈ since, ∀ c ∈ changes.head?, m ≤ c.1) :
    u ∈ instantsAfter since offset changes t ↔
      (∀ m ∈ since, m ≤ u) ∧ u + offsetAfter offset changes u = t := by
  induction changes generalizing since offset with
  | nil => exact mem_instantsAfter_nil
  | cons c rest ih =>
      obtain ⟨moment, next⟩ := c
      obtain ⟨hhead, hrest⟩ := List.isChain_cons.1 h
      have hlater : u ∈ instantsAfter (some moment) next rest t ↔
          moment ≤ u ∧ u + offsetAfter next rest u = t := by
        rw [ih hrest fun m hm c hc => Option.some.inj hm ▸ hhead c hc]
        exact and_congr_left' ⟨fun hu => hu moment rfl, fun hu m hm => Option.some.inj hm ▸ hu⟩
      rw [mem_instantsAfter_cons, hlater]
      by_cases hlt : u < moment
      · rw [offsetAfter_of_lt hlt]
        refine ⟨fun hu => ?_, fun hu => .inl ⟨hu.1, hlt, hu.2⟩⟩
        obtain hu | hu := hu
        · exact ⟨hu.1, hu.2.2⟩
        · exact absurd hu.1 (Int.not_le.2 hlt)
      · have hle : moment ≤ u := Int.not_lt.1 hlt
        rw [offsetAfter_of_le hle]
        refine ⟨fun hu => ?_, fun hu => .inr ⟨hle, hu.2⟩⟩
        obtain hu | hu := hu
        · exact absurd hu.2.1 hlt
        · exact ⟨fun m hm => Int.le_trans (hsince m hm _ rfl) hu.1, hu.2⟩

variable {zone : Zone}

theorem mem_instantsOf (h : zone.Ordered) : u ∈ zone.instantsOf t ↔ zone.localSeconds u = t := by
  have hnone : ∀ m ∈ (none : Option Int), ∀ c ∈ zone.changes.head?, m ≤ c.1 := by simp
  rw [instantsOf, mem_instantsAfter h hnone]
  exact and_iff_right (by simp)

theorem instantOf?_eq_some (h : zone.instantOf? t = some u) : zone.instantsOf t = [u] := by
  unfold instantOf? at h
  split at h
  · rename_i hinstants
    rw [hinstants, Option.some.inj h]
  · cases h

/-- The instant of a local time that has exactly one. -/
theorem Ordered.localSeconds_eq_iff (hzone : zone.Ordered) (h : zone.instantOf? t = some u) :
    zone.localSeconds v = t ↔ v = u := by
  rw [← mem_instantsOf hzone, instantOf?_eq_some h, List.mem_singleton]

theorem localSeconds_eq_iff_of_instantOf? (hzone : zone.Spaced) (h : zone.instantOf? t = some u) :
    zone.localSeconds v = t ↔ v = u :=
  hzone.ordered.localSeconds_eq_iff h

/-! ## The order of local times -/

/-- From the second change on, local time is later than it was before the first one. -/
theorem lt_localAfter (h : SpacedAfter offset ((moment, next) :: rest))
    (hu : ∃ c ∈ rest.head?, c.1 ≤ u) : moment + offset < u + offsetAfter next rest u := by
  induction rest generalizing offset moment next with
  | nil => simp at hu
  | cons c rest ih =>
      obtain ⟨moment', next'⟩ := c
      obtain ⟨c, hc, hu⟩ := hu
      obtain rfl : (moment', next') = c := Option.some.inj hc
      have hgap := h.1 _ rfl
      rw [offsetAfter_of_le hu]
      by_cases hthird : ∃ c ∈ rest.head?, c.1 ≤ u
      · have := ih h.2 hthird
        omega
      · rw [offsetAfter_of_lt_head fun c hc => Int.not_le.1 fun hle => hthird ⟨c, hc, hle⟩]
        dsimp only at hgap hu
        omega

/-- If a later instant does not have a later local time, the local time of the earlier one comes
again. -/
theorem exists_later_of_le (h : SpacedAfter offset changes) (hlt : u < v)
    (hle : v + offsetAfter offset changes v ≤ u + offsetAfter offset changes u) :
    ∃ w, u < w ∧ w + offsetAfter offset changes w = u + offsetAfter offset changes u := by
  induction changes generalizing offset with
  | nil =>
      rw [offsetAfter, offsetAfter] at hle
      omega
  | cons c rest ih =>
      obtain ⟨moment, next⟩ := c
      by_cases hu : u < moment
      · rw [offsetAfter_of_lt hu] at hle ⊢
        by_cases hv : v < moment
        · rw [offsetAfter_of_lt hv] at hle
          omega
        · have hv' : moment ≤ v := Int.not_lt.1 hv
          rw [offsetAfter_of_le hv'] at hle
          have hfirst : ∀ c ∈ rest.head?, v < c.1 := fun c hc => Int.not_le.1 fun hv => by
            have := lt_localAfter h ⟨c, hc, hv⟩
            omega
          rw [offsetAfter_of_lt_head hfirst] at hle
          -- The clock was set back by `offset - next`, and the same reading comes that much later.
          have hsecond : ∀ c ∈ rest.head?, u + (offset - next) < c.1 := fun c hc => by
            have := h.1 c hc
            omega
          refine ⟨u + (offset - next), by omega, ?_⟩
          rw [offsetAfter_of_le (by omega), offsetAfter_of_lt_head hsecond]
          omega
      · have hu' : moment ≤ u := Int.not_lt.1 hu
        have hv' : moment ≤ v := by omega
        rw [offsetAfter_of_le hu', offsetAfter_of_le hv'] at hle
        obtain ⟨w, hw, heq⟩ := ih h.2 hle
        refine ⟨w, hw, ?_⟩
        rw [offsetAfter_of_le hu', offsetAfter_of_le (by omega), heq]

/-- Among a local time that has one instant only and any other, the order is that of the
instants. -/
theorem le_of_localSeconds_le (hzone : zone.Spaced) (h : zone.instantOf? t = some u)
    (hle : zone.localSeconds v ≤ t) : v ≤ u := by
  have hu : zone.localSeconds u = t := (localSeconds_eq_iff_of_instantOf? hzone h).2 rfl
  refine Int.not_lt.1 fun hlt => ?_
  rw [← hu] at hle
  obtain ⟨w, hw, heq⟩ := exists_later_of_le hzone hlt hle
  have hsame : zone.localSeconds w = t := hu ▸ heq
  have := (localSeconds_eq_iff_of_instantOf? hzone h).1 hsame
  omega

/-! ## The zones on record -/

theorem spaced_of_ofHoursWest? {name : List Char} {zone : Zone}
    (h : ofHoursWest? name = some zone) : zone.Spaced := by
  unfold ofHoursWest? at h
  split at h
  · split at h
    · split at h
      · cases h
        exact spaced_fixed _
      · split at h
        · cases h
          exact spaced_fixed _
        · cases h
    · cases h
  · cases h

theorem spaced_of_recorded? {name : String} {zone : Zone} (h : recorded? name = some zone) :
    zone.Spaced := by
  unfold recorded? at h
  split at h
  case h_14 => exact spaced_of_ofHoursWest? h
  all_goals
    cases h
    first | exact spaced_fixed _ | decide +kernel

/-- The changes of every zone on record are far apart. -/
theorem spaced_recorded (name : String) : (recorded name).Spaced := by
  unfold recorded
  cases h : recorded? name with
  | none => exact spaced_fixed 0
  | some zone => exact spaced_of_recorded? h

end Zone

end Scheduling
