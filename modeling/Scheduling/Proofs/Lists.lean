/-!
# Facts about lists

Numbers in ascending order, searches that agree on the elements of a list, and lists that are read
element by element.
-/

namespace Scheduling

section Elements

variable {α β : Type} {f g : α → Option β} {xs : List α} {ys : List β}

/-- Searches that agree on the elements of a list find the same in it. -/
theorem findSome?_congr (h : ∀ x ∈ xs, f x = g x) : xs.findSome? f = xs.findSome? g := by
  induction xs with
  | nil => rfl
  | cons x xs ih =>
      rw [List.findSome?_cons, List.findSome?_cons, h x List.mem_cons_self,
        ih fun y hy => h y (List.mem_cons_of_mem x hy)]

/-- A list that can be read has a reading of each of its elements, and no others. -/
theorem mem_of_mapM (h : xs.mapM f = some ys) :
    (∀ x ∈ xs, ∃ y ∈ ys, f x = some y) ∧ ∀ y ∈ ys, ∃ x ∈ xs, f x = some y := by
  induction xs generalizing ys with
  | nil =>
      obtain rfl : [] = ys := Option.some.inj h
      exact ⟨fun x hx => absurd hx List.not_mem_nil, fun y hy => absurd hy List.not_mem_nil⟩
  | cons x xs ih =>
      simp only [List.mapM_cons, Option.bind_eq_bind, Option.bind_eq_some_iff, Option.pure_def,
        Option.some.injEq] at h
      obtain ⟨y, hy, ys, hys, rfl⟩ := h
      obtain ⟨hto, hfrom⟩ := ih hys
      refine ⟨fun x' hx' => ?_, fun y' hy' => ?_⟩
      · obtain rfl | hx' := List.mem_cons.1 hx'
        · exact ⟨y, List.mem_cons_self, hy⟩
        · obtain ⟨y', hy', hread⟩ := hto x' hx'
          exact ⟨y', List.mem_cons_of_mem y hy', hread⟩
      · obtain rfl | hy' := List.mem_cons.1 hy'
        · exact ⟨x, List.mem_cons_self, hy⟩
        · obtain ⟨x', hx', hread⟩ := hfrom y' hy'
          exact ⟨x', List.mem_cons_of_mem x hx', hread⟩

/-- A list is read if each of its elements is. -/
theorem mapM_eq_some_map {g : α → β} (h : ∀ x ∈ xs, f x = some (g x)) :
    xs.mapM f = some (xs.map g) := by
  induction xs with
  | nil => rfl
  | cons x xs ih =>
      rw [List.mapM_cons, h x List.mem_cons_self, ih fun y hy => h y (List.mem_cons_of_mem x hy)]
      rfl

end Elements

section Ascending

variable {n k : Nat} {values later : List Nat}

/-- The least of some ascending numbers is the first of them. -/
theorem exists_eq_cons_of_pairwise (hsorted : values.Pairwise (· < ·)) (hmem : n ∈ values)
    (hleast : ∀ v ∈ values, n ≤ v) : ∃ later, values = n :: later := by
  cases values with
  | nil => cases hmem
  | cons v later =>
      obtain rfl | hlater := List.mem_cons.1 hmem
      · exact ⟨later, rfl⟩
      · have hlt := (List.pairwise_cons.1 hsorted).1 n hlater
        exact absurd (hleast v List.mem_cons_self) (Nat.not_le.2 hlt)

theorem eq_singleton_of_pairwise (hsorted : values.Pairwise (· < ·))
    (hmem : ∀ v, v ∈ values ↔ v = n) : values = [n] := by
  obtain ⟨later, rfl⟩ := exists_eq_cons_of_pairwise hsorted ((hmem n).2 rfl)
    fun v hv => Nat.le_of_eq ((hmem v).1 hv).symm
  cases later with
  | nil => rfl
  | cons v later =>
      have hv : v ∈ n :: v :: later := List.mem_cons_of_mem n List.mem_cons_self
      have hlt := (List.pairwise_cons.1 hsorted).1 v List.mem_cons_self
      exact absurd ((hmem v).1 hv) (Nat.ne_of_gt hlt)

/-- Nothing lies between a bound and the least number that keeps to it. -/
theorem filter_le_of_filter_le (h : values.filter (k ≤ ·) = n :: later)
    (hsorted : values.Pairwise (· < ·)) : values.filter (n ≤ ·) = n :: later := by
  have hk : k ≤ n := by
    have hmem : n ∈ values.filter (k ≤ ·) := h ▸ List.mem_cons_self
    simpa using (List.mem_filter.1 hmem).2
  have htwice : values.filter (n ≤ ·) = (values.filter (k ≤ ·)).filter (n ≤ ·) := by
    rw [List.filter_filter]
    refine List.filter_congr fun v _ => ?_
    by_cases hv : n ≤ v
    · simp [hv, Nat.le_trans hk hv]
    · simp [hv]
  have hpairwise := hsorted.filter (k ≤ ·)
  rw [h] at hpairwise
  rw [htwice, h]
  refine List.filter_eq_self.2 fun v hv => decide_eq_true ?_
  obtain rfl | hv := List.mem_cons.1 hv
  · exact Nat.le_refl _
  · exact Nat.le_of_lt ((List.pairwise_cons.1 hpairwise).1 v hv)

end Ascending

end Scheduling
