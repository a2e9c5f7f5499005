import Scheduling.Plan
/-!
# What queues give out

A queue gives out the least of its entries, whatever the order is at that moment. A pop of an empty
blocking queue waits from the wake-ups it has seen; as long as there is no other the queue stays
empty, so no pop ever sleeps over an entry.
-/

namespace Scheduling

namespace Queue

variable {α : Type}

/-! ## The least entry -/

theorem least?_eq_none_iff {order : α → α → Ordering} {l : List α} :
    least? order l = none ↔ l = [] := by
  cases l with
  | nil => simp [least?]
  | cons a rest =>
      refine ⟨fun h => ?_, fun h => by cases h⟩
      unfold least? at h
      split at h
      · cases h
      · split at h <;> cases h

theorem mem_of_least? {order : α → α → Ordering} {l : List α} {a : α}
    (h : least? order l = some a) : a ∈ l := by
  induction l generalizing a with
  | nil => cases h
  | cons b rest ih =>
      unfold least? at h
      split at h
      · cases h
        exact List.mem_cons_self
      · rename_i c hc
        split at h
        · cases h
          exact List.mem_cons_of_mem _ (ih hc)
        · cases h
          exact List.mem_cons_self

theorem isLE_of_least? {order : α → α → Ordering} [Std.TransCmp order] {l : List α} {a b : α}
    (h : least? order l = some a) (hb : b ∈ l) : (order a b).isLE = true := by
  induction l generalizing a b with
  | nil => cases h
  | cons c rest ih =>
      unfold least? at h
      split at h
      · rename_i hrest
        rw [least?_eq_none_iff] at hrest
        cases h
        rw [hrest, List.mem_singleton] at hb
        rw [hb]
        exact Std.ReflCmp.isLE_rfl
      · rename_i d hd
        split at h
        · rename_i hlt
          cases h
          obtain rfl | hb := List.mem_cons.1 hb
          · exact Ordering.isLE_of_eq_lt (beq_iff_eq.1 hlt)
          · exact ih hd hb
        · rename_i hge
          cases h
          have hcd : (order c d).isLE = true := by
            have hswap : order c d = (order d c).swap := Std.OrientedCmp.eq_swap
            rw [hswap]
            cases hdc : order d c <;> simp_all
          obtain rfl | hb := List.mem_cons.1 hb
          · exact Std.ReflCmp.isLE_rfl
          · exact Std.TransCmp.isLE_trans hcd (ih hd hb)

/-! ## Wake-ups -/

/-- The second queue comes after the first: unless the pops were woken it has no other keys. -/
structure Later (q q' : Queue α) : Prop where
  blocking : q'.blocking = q.blocking
  wakeups : q.wakeups ≤ q'.wakeups
  quiet : q'.wakeups = q.wakeups → ∀ k, q.entries.get? k = none → q'.entries.get? k = none

theorem Later.refl (q : Queue α) : q.Later q :=
  ⟨rfl, Nat.le_refl _, fun _ _ h => h⟩

theorem Later.trans {q q' q'' : Queue α} (h : q.Later q') (h' : q'.Later q'') : q.Later q'' where
  blocking := h'.blocking.trans h.blocking
  wakeups := Nat.le_trans h.wakeups h'.wakeups
  quiet heq k hk := by
    have hle := h.wakeups
    have hle' := h'.wakeups
    exact h'.quiet (by omega) k (h.quiet (by omega) k hk)

theorem later_reset (q : Queue α) : q.Later q.reset :=
  ⟨rfl, Nat.le_succ _, fun _ _ _ => rfl⟩

theorem later_erase (q : Queue α) (k : String) :
    q.Later { q with entries := q.entries.erase k } where
  blocking := rfl
  wakeups := Nat.le_refl _
  quiet _ k' hk' := by
    dsimp only
    rw [Registry.get?_erase, hk', ite_self]

/-! ## Operations -/

variable [Prioritized α]

theorem mem_of_takeFirst {q q' : Queue α} {order : α → α → Ordering} {a : α}
    (h : q.takeFirst order = some (a, q')) :
    a ∈ q.entries.values ∧ q' = { q with entries := q.entries.erase (key a) } := by
  obtain ⟨b, hb, heq⟩ := Option.map_eq_some_iff.1 h
  cases heq
  exact ⟨mem_of_least? hb, rfl⟩

/-- The entry that is taken out is the least. -/
theorem isLE_of_takeFirst {q q' : Queue α} {order : α → α → Ordering} [Std.TransCmp order]
    {a b : α} (h : q.takeFirst order = some (a, q')) (hb : b ∈ q.entries.values) :
    (order a b).isLE = true := by
  obtain ⟨c, hc, heq⟩ := Option.map_eq_some_iff.1 h
  cases heq
  exact isLE_of_least? hc hb

theorem get?_of_takeFirst_eq_none {q : Queue α} {order : α → α → Ordering}
    (h : q.takeFirst order = none) (k : String) : q.entries.get? k = none := by
  have hleast : least? order q.entries.values = none := by simpa [takeFirst] using h
  have hnil : q.entries.values = [] := least?_eq_none_iff.1 hleast
  refine Option.eq_none_iff_forall_ne_some.2 fun a ha => ?_
  have hmem : a ∈ q.entries.values := Registry.mem_values_iff.2 ⟨k, ha⟩
  rw [hnil] at hmem
  cases hmem

theorem tryPop_of_takeFirst {q q' : Queue α} {order : α → α → Ordering} {a : α}
    (h : q.takeFirst order = some (a, q')) : q.tryPop order = (.ok a, q') := by
  rw [tryPop, h]

theorem tryPop_of_takeFirst_eq_none {q : Queue α} {order : α → α → Ordering}
    (h : q.takeFirst order = none) : q.tryPop order = (.error emptyError, q) := by
  rw [tryPop, h]

/-- The queue is empty after some pushes only if it was before and nothing was pushed. -/
theorem size_foldl_push_eq_zero_iff {q : Queue α} {items : List α} :
    (items.foldl (fun q a => q.push [a]) q).size = 0 ↔ q.size = 0 ∧ items = [] := by
  induction items generalizing q with
  | nil => simp
  | cons a items ih =>
      have hpush : (q.push [a]).size ≠ 0 := by
        intro hzero
        have hempty : q.entries.insert (key a) a = Registry.empty :=
          Registry.size_eq_zero_iff.1 hzero
        have hget := Registry.eq_empty_iff.1 hempty (key a)
        rw [Registry.get?_insert, if_pos rfl] at hget
        cases hget
      rw [List.foldl_cons, ih]
      simp [hpush]

theorem later_push (q : Queue α) (items : List α) : q.Later (q.push items) where
  blocking := rfl
  wakeups := by
    unfold push
    dsimp only
    split <;> omega
  quiet heq k hk := by
    unfold push at heq ⊢
    dsimp only at heq ⊢
    split at heq
    · rename_i hnil
      rw [List.isEmpty_iff.1 hnil]
      exact hk
    · omega

/-- A pop that goes on ends with the least entry, or finds none: then it waits on a blocking queue
and fails on any other. -/
inductive PopMove (q : Queue α) (order : α → α → Ordering) : PopResult α → Queue α → Prop
  | takes {a : α} {q' : Queue α} (h : q.takeFirst order = some (a, q')) :
      PopMove q order (.ended (.ok a)) q'
  | waits (h : q.takeFirst order = none) (hblocking : q.blocking = true) :
      PopMove q order (.waits (.waiting q.wakeups)) q
  | fails (h : q.takeFirst order = none) (hblocking : q.blocking = false) :
      PopMove q order (.ended (.error emptyError)) q

/-- A pop that ends gives the answer of one that never waits. -/
theorem PopMove.tryPop_eq {q q' : Queue α} {order : α → α → Ordering} {answer : Except Error α}
    (h : q.PopMove order (.ended answer) q') : q.tryPop order = (answer, q') := by
  cases h with
  | takes htake => exact tryPop_of_takeFirst htake
  | fails htake => exact tryPop_of_takeFirst_eq_none htake

theorem popMove_of_pop {q q' : Queue α} {order : α → α → Ordering} {point : PopPoint}
    {result : PopResult α} (h : q.pop order point = some (result, q')) :
    q.PopMove order result q' := by
  unfold pop at h
  split at h
  · split at h
    · rename_i htake
      cases h
      exact .takes htake
    · rename_i htake
      split at h
      · rename_i hblocking
        cases h
        exact .waits htake hblocking
      · rename_i hblocking
        cases h
        exact .fails htake (by simpa using hblocking)
  · cases h

/-- Only a pop that can go on goes on. -/
theorem canPop_of_pop_eq_some {q q' : Queue α} {order : α → α → Ordering} {point : PopPoint}
    {result : PopResult α} (h : q.pop order point = some (result, q')) :
    q.canPop point = true := by
  unfold pop at h
  split at h
  · assumption
  · cases h

omit [Prioritized α] in
theorem eq_waiting_of_not_canPop {q : Queue α} {point : PopPoint}
    (h : ¬ q.canPop point = true) : point = .waiting q.wakeups := by
  cases point with
  | fresh => simp [canPop] at h
  | waiting wakeups =>
      have heq : q.wakeups = wakeups := by simpa [canPop] using h
      rw [heq]

/-- A pop that cannot go on waits for a wake-up. -/
theorem eq_waiting_of_pop_eq_none {q : Queue α} {order : α → α → Ordering} {point : PopPoint}
    (h : q.pop order point = none) : point = .waiting q.wakeups := by
  unfold pop at h
  split at h
  · split at h
    · cases h
    · split at h <;> cases h
  · exact eq_waiting_of_not_canPop ‹_›

/-! ## Keys -/

/-- Every entry stands under its own key. -/
def Keyed (q : Queue α) : Prop := ∀ (k : String) (a : α), q.entries.get? k = some a → key a = k

theorem keyed_of_empty {q : Queue α} (h : q.entries = Registry.empty) : q.Keyed := by
  intro k a ha
  rw [h] at ha
  cases ha

theorem Keyed.push {q : Queue α} (h : q.Keyed) (items : List α) : (q.push items).Keyed := by
  unfold Keyed Queue.push
  dsimp only
  generalize hes : q.entries = es
  replace h : ∀ (k : String) (a : α), es.get? k = some a → key a = k := hes ▸ h
  clear hes
  induction items generalizing es with
  | nil => exact h
  | cons b items ih =>
      refine ih _ fun k a ha => ?_
      rw [Registry.get?_insert] at ha
      split at ha
      · rename_i hk
        cases ha
        exact hk.symm
      · exact h k a ha

theorem Keyed.erase {q : Queue α} (h : q.Keyed) (k : String) :
    Keyed { q with entries := q.entries.erase k } := by
  intro k' a ha
  dsimp only at ha
  rw [Registry.get?_erase] at ha
  split at ha
  · cases ha
  · exact h k' a ha

theorem Keyed.of_takeFirst {q q' : Queue α} {order : α → α → Ordering} {a : α} (h : q.Keyed)
    (htake : q.takeFirst order = some (a, q')) : q'.Keyed := by
  rw [(mem_of_takeFirst htake).2]
  exact h.erase (key a)

theorem Keyed.of_tryPop {q : Queue α} (h : q.Keyed) (order : α → α → Ordering) :
    (q.tryPop order).2.Keyed := by
  cases htake : q.takeFirst order with
  | none =>
      rw [tryPop_of_takeFirst_eq_none htake]
      exact h
  | some made =>
      rw [tryPop_of_takeFirst htake]
      exact h.of_takeFirst htake

end Queue

/-! ## The order of dispatch -/

/-- An order in which entries are given out: only entries of the same key are in the same place. -/
class DispatchOrder {α : Type} [Prioritized α] (order : α → α → Ordering) : Prop
    extends Std.TransCmp order where
  key_eq_of_eq {a b : α} (h : order a b = .eq) : key a = key b

/-- Of two entries of different keys one comes before the other. -/
theorem DispatchOrder.lt_of_isLE {α : Type} [Prioritized α] {order : α → α → Ordering}
    [DispatchOrder order] {a b : α} (h : (order a b).isLE = true) (hkey : key a ≠ key b) :
    order a b = .lt := by
  cases hab : order a b with
  | lt => rfl
  | eq => exact absurd (key_eq_of_eq hab) hkey
  | gt => simp [hab] at h

namespace Plan

theorem order_eq_compareLex (phase : TaskId → Nat) :
    order phase =
      compareLex (compareOn fun p => phase p.task)
        (compareLex (compareOn Plan.priority)
          (compareLex (compareOn fun p => p.createdAt.nanos) (compareOn Plan.key))) := rfl

/-- Only plans of the same key are in the same place. -/
theorem key_eq_of_order_eq {phase : TaskId → Nat} {a b : Plan} (h : order phase a b = .eq) :
    a.key = b.key := by
  simp only [order, Ordering.then_eq_eq] at h
  exact Std.LawfulEqCmp.eq_of_compare h.2.2.2

instance (phase : TaskId → Nat) : DispatchOrder (order phase) where
  toTransCmp := by
    rw [order_eq_compareLex]
    infer_instance
  key_eq_of_eq := key_eq_of_order_eq

end Plan

end Scheduling
