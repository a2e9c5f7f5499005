import Mathlib.Data.Finmap
import Scheduling.Proofs.ByteOrder
import Scheduling.Proofs.Queues
import Scheduling.Queue.Waiting
/-!
# What a queue holds

A queue holds a finite map from keys to entries, and a map has no order. Whatever is asked of a
queue is answered by its map alone: by look-ups, and by the one entry that comes before all others.
So the answers depend neither on the order in which entries were pushed nor on the one in which the
queue goes through them, and a queue that is emptied gives out its entries in the order in which it
lists them.
-/

namespace Scheduling

/-- An entry with another priority is otherwise the same. -/
class LawfulPrioritized (α : Type) [Prioritized α] : Prop where
  key_withPriority (a : α) (p : Int) : key (withPriority a p) = key a
  priority_withPriority (a : α) (p : Int) : priority (withPriority a p) = p

instance : LawfulPrioritized Ticket := ⟨fun _ _ => rfl, fun _ _ => rfl⟩

instance : LawfulPrioritized Plan := ⟨fun _ _ => rfl, fun _ _ => rfl⟩

/-! ## The order by priority -/

section Order

variable {α : Type} [Prioritized α] {a b : α}

theorem byPriority_eq_compareLex :
    (byPriority : α → α → Ordering) = compareLex (compareOn priority) (compareOn key) := rfl

/-- Only entries of the same key are in the same place. -/
theorem key_eq_of_byPriority_eq (h : byPriority a b = .eq) : key a = key b := by
  simp only [byPriority, Ordering.then_eq_eq] at h
  exact Std.LawfulEqCmp.eq_of_compare h.2

instance : DispatchOrder (byPriority : α → α → Ordering) where
  toTransCmp := by
    rw [byPriority_eq_compareLex]
    infer_instance
  key_eq_of_eq := key_eq_of_byPriority_eq

variable (a b) in
/-- An entry comes before another: its priority is the lower number, or the priorities are the same
and its key has the smaller bytes. -/
def Precedes : Prop :=
  priority a < priority b ∨ priority a = priority b ∧ bytes (key a) < bytes (key b)

theorem byPriority_eq_lt_iff : byPriority a b = .lt ↔ Precedes a b := by
  unfold Precedes byPriority
  rw [Ordering.then_eq_lt, Std.compare_eq_lt, Std.compare_eq_iff_eq, compare_eq_lt_iff]

theorem byPriority_eq_swap (a b : α) : byPriority a b = (byPriority b a).swap :=
  Std.OrientedCmp.eq_swap

theorem Precedes.asymm (h : Precedes a b) : ¬ Precedes b a := by
  rw [← byPriority_eq_lt_iff] at h ⊢
  rw [byPriority_eq_swap, h]
  exact Ordering.noConfusion

theorem precedes_of_isLE (h : (byPriority a b).isLE = true) (hkey : key a ≠ key b) :
    Precedes a b := by
  rw [← byPriority_eq_lt_iff]
  exact DispatchOrder.lt_of_isLE h hkey

end Order

namespace Queue

variable {α : Type}

/-! ## The map of a queue -/

/-- Entries by their keys, in no order. -/
abbrev Contents (α : Type) := Finmap fun _ : String => α

/-- The map that a queue holds. -/
def contents (q : Queue α) : Contents α :=
  (q.entries.entries.map fun e => (⟨e.1, e.2⟩ : Sigma fun _ : String => α)).toFinmap

@[simp] theorem lookup_contents (q : Queue α) (k : String) :
    q.contents.lookup k = q.entries.get? k := by
  unfold contents Registry.get?
  rw [Finmap.dlookup_list_toFinmap]
  generalize q.entries.entries = es
  induction es with
  | nil => rfl
  | cons e es ih =>
      by_cases hk : e.1 = k
      · subst hk
        simp [Registry.find]
      · rw [List.map_cons, List.dlookup_cons_ne _ _ fun h => hk h.symm, ih]
        simp [Registry.find, hk]

theorem contents_eq_iff {q q' : Queue α} :
    q'.contents = q.contents ↔ ∀ k, q'.entries.get? k = q.entries.get? k := by
  simp only [← lookup_contents]
  exact ⟨fun h k => h ▸ rfl, Finmap.ext_lookup⟩

theorem card_keys_contents (q : Queue α) : q.contents.keys.card = q.size := by
  have hkeys : q.contents.keys = q.entries.keys.toFinset := by
    ext k
    rw [Finmap.mem_keys, ← Finmap.lookup_isSome, lookup_contents, List.mem_toFinset,
      ← Registry.contains_iff_mem_keys]
    rfl
  have hcard := List.toFinset_card_of_nodup q.entries.nodup_keys
  rw [List.length_map] at hcard
  rw [hkeys]
  exact hcard

theorem contents_eq_empty_iff {q : Queue α} : q.contents = ∅ ↔ q.entries = Registry.empty := by
  rw [Registry.eq_empty_iff]
  simp only [← lookup_contents]
  exact ⟨fun h k => by rw [h, Finmap.lookup_empty],
    fun h => Finmap.ext_lookup fun k => by rw [h, Finmap.lookup_empty]⟩

theorem contents_erase (q : Queue α) (k : String) :
    contents { q with entries := q.entries.erase k } = q.contents.erase k := by
  refine Finmap.ext_lookup fun k' => ?_
  rw [lookup_contents, Registry.get?_erase]
  by_cases hk : k' = k
  · rw [if_pos hk, hk, Finmap.lookup_erase]
  · rw [if_neg hk, Finmap.lookup_erase_ne hk, lookup_contents]

theorem contents_modify {q : Queue α} {k : String} {a : α} (ha : q.entries.get? k = some a)
    (f : α → α) :
    contents { q with entries := q.entries.modify k f } = q.contents.insert k (f a) := by
  refine Finmap.ext_lookup fun k' => ?_
  rw [lookup_contents, Registry.get?_modify]
  by_cases hk : k' = k
  · rw [if_pos hk, hk, ha, Finmap.lookup_insert]
    rfl
  · rw [if_neg hk, Finmap.lookup_insert_of_ne _ hk, lookup_contents]

/-- The same entries, which are gone through in another order. -/
structure Rearranges (q q' : Queue α) : Prop where
  entries : q'.entries.entries.Perm q.entries.entries
  blocking : q'.blocking = q.blocking

theorem Rearranges.refl (q : Queue α) : q.Rearranges q := ⟨.refl _, rfl⟩

theorem Rearranges.contents {q q' : Queue α} (h : q.Rearranges q') :
    q'.contents = q.contents := by
  refine contents_eq_iff.2 fun k => Option.ext fun a => ?_
  rw [Registry.get?_eq_some_iff, Registry.get?_eq_some_iff]
  exact h.entries.mem_iff

/-! ## Questions and answers -/

/-- What can be asked of a queue. -/
inductive Operation (α : Type)
  | push (items : List α)
  | tryPop
  /-- Look at the queue once for an entry. -/
  | pop
  | remove (item : α)
  | removeKey (k : String)
  | update (item : α)
  | reset
  | items
  | contains (k : String)
  | size

/-- What a queue answers. -/
inductive Answer (α : Type)
  | done
  | entry (result : Except Error α)
  /-- There is no entry yet. -/
  | waits
  | told (present : Bool)
  | updated (result : Except Error Unit)
  | listed (items : List α)
  | counted (n : Nat)

variable [Prioritized α]

/-- Asks a queue whose order is that by priority. -/
def perform (q : Queue α) : Operation α → Answer α × Queue α
  | .push items => (.done, q.push items)
  | .tryPop => (.entry (q.tryPop byPriority).1, (q.tryPop byPriority).2)
  | .pop =>
    match q.pop byPriority .fresh with
    | some (.ended result, q) => (.entry result, q)
    | some (.waits _, q) => (.waits, q)
    | none => (.waits, q)
  | .remove item => (.told (q.removeKey (key item)).1, (q.removeKey (key item)).2)
  | .removeKey k => (.told (q.removeKey k).1, (q.removeKey k).2)
  | .update item => (.updated (q.update item).1, (q.update item).2)
  | .reset => (.done, q.reset)
  | .items => (.listed (q.items byPriority), q)
  | .contains k => (.told (q.contains k), q)
  | .size => (.counted q.size, q)

/-- The last entry of a batch with a key. -/
def lastWith (k : String) (items : List α) : Option α :=
  items.reverse.find? fun a => key a == k

/-- An entry of a map that comes before all others. -/
def Contents.Least (m : Contents α) (a : α) : Prop :=
  m.lookup (key a) = some a ∧
    ∀ (k : String) (b : α), m.lookup k = some b → k ≠ key a → Precedes a b

/-- What a finite map answers, and what becomes of it. -/
inductive Contents.Answers (blocking : Bool) (m : Contents α) :
    Operation α → Answer α → Contents α → Prop
  /-- The last entry of the batch for a key takes the place of the one that was there. -/
  | push {items : List α} {m' : Contents α}
      (h : ∀ k, m'.lookup k = (lastWith k items).or (m.lookup k)) :
      Answers blocking m (.push items) .done m'
  | tryPop {a : α} (h : m.Least a) :
      Answers blocking m .tryPop (.entry (.ok a)) (m.erase (key a))
  | tryPopNone (h : m = ∅) : Answers blocking m .tryPop (.entry (.error emptyError)) m
  | pop {a : α} (h : m.Least a) : Answers blocking m .pop (.entry (.ok a)) (m.erase (key a))
  | popNone (h : m = ∅) (hblocking : blocking = false) :
      Answers blocking m .pop (.entry (.error emptyError)) m
  | popWaits (h : m = ∅) (hblocking : blocking = true) : Answers blocking m .pop .waits m
  | remove (item : α) :
      Answers blocking m (.remove item) (.told (m.lookup (key item)).isSome) (m.erase (key item))
  | removeKey (k : String) :
      Answers blocking m (.removeKey k) (.told (m.lookup k).isSome) (m.erase k)
  /-- The entry of the key gets the priority and is otherwise as it was. -/
  | update {item a b : α} (ha : m.lookup (key item) = some a)
      (hb : b = withPriority a (priority item)) (hkey : key b = key a)
      (hpriority : priority b = priority item) :
      Answers blocking m (.update item) (.updated (.ok ())) (m.insert (key item) b)
  | updateNone {item : α} (h : m.lookup (key item) = none) :
      Answers blocking m (.update item)
        (.updated (.error (.notFound ("queue key `" ++ key item ++ "`")))) m
  | reset : Answers blocking m .reset .done ∅
  /-- All entries are listed, each before those that come after it. -/
  | items {l : List α} (hsorted : l.Pairwise Precedes)
      (hmem : ∀ a, a ∈ l ↔ m.lookup (key a) = some a) : Answers blocking m .items (.listed l) m
  | contains (k : String) : Answers blocking m (.contains k) (.told (m.lookup k).isSome) m
  | size : Answers blocking m .size (.counted m.keys.card) m

/-- What a queue is asked one after the other and answers; before each question its entries may come
into another order. -/
inductive Performs : Queue α → List (Operation α) → List (Answer α) → Queue α → Prop
  | nil (q : Queue α) : Performs q [] [] q
  | cons {q q' r : Queue α} {op : Operation α} {ops : List (Operation α)}
      {answers : List (Answer α)} (hq : q.Rearranges q')
      (h : Performs (q'.perform op).2 ops answers r) :
      Performs q (op :: ops) ((q'.perform op).1 :: answers) r

/-- What a finite map is asked one after the other and answers. -/
inductive Contents.Runs (blocking : Bool) :
    Contents α → List (Operation α) → List (Answer α) → Contents α → Prop
  | nil (m : Contents α) : Runs blocking m [] [] m
  | cons {m m' n : Contents α} {op : Operation α} {answer : Answer α} {ops : List (Operation α)}
      {answers : List (Answer α)} (ha : m.Answers blocking op answer m')
      (h : Runs blocking m' ops answers n) : Runs blocking m (op :: ops) (answer :: answers) n

/-! ## A map answers in one way only -/

theorem Contents.Least.unique {m : Contents α} {a b : α} (ha : m.Least a) (hb : m.Least b) :
    a = b := by
  by_cases hkey : key a = key b
  · have hlookup := ha.1
    rw [hkey, hb.1] at hlookup
    exact (Option.some.inj hlookup).symm
  · have hlt := ha.2 _ b hb.1 fun h => hkey h.symm
    exact absurd (hb.2 _ a ha.1 hkey) hlt.asymm

/-- An empty map has no entry. -/
theorem Contents.Least.ne_empty {m : Contents α} {a : α} (ha : m.Least a) : m ≠ ∅ := by
  rintro rfl
  have hlookup := ha.1
  rw [Finmap.lookup_empty] at hlookup
  cases hlookup

/-- The entries of a map can be listed in one way only. -/
theorem Contents.list_unique {m : Contents α} {l l' : List α}
    (hsorted : l.Pairwise Precedes)
    (hsorted' : l'.Pairwise Precedes)
    (hmem : ∀ a, a ∈ l ↔ m.lookup (key a) = some a)
    (hmem' : ∀ a, a ∈ l' ↔ m.lookup (key a) = some a) : l = l' := by
  have hnodup {l : List α} (h : l.Pairwise Precedes) : l.Nodup := by
    refine h.imp fun {a b} hlt heq => ?_
    subst heq
    exact hlt.asymm hlt
  have hperm : l.Perm l' :=
    (List.perm_ext_iff_of_nodup (hnodup hsorted) (hnodup hsorted')).2 fun a =>
      (hmem a).trans (hmem' a).symm
  exact hperm.eq_of_pairwise
    (fun a b _ _ hab hba => absurd hba hab.asymm) hsorted hsorted'

theorem Contents.Answers.unique {blocking : Bool} {m m₁ m₂ : Contents α} {op : Operation α}
    {answer₁ answer₂ : Answer α} (h₁ : m.Answers blocking op answer₁ m₁)
    (h₂ : m.Answers blocking op answer₂ m₂) : answer₁ = answer₂ ∧ m₁ = m₂ := by
  cases h₁ with
  | push h =>
      cases h₂ with
      | push h' => exact ⟨rfl, Finmap.ext_lookup fun k => (h k).trans (h' k).symm⟩
  | tryPop h =>
      cases h₂ with
      | tryPop h' =>
          obtain rfl := h.unique h'
          exact ⟨rfl, rfl⟩
      | tryPopNone h' => exact absurd h' h.ne_empty
  | tryPopNone h =>
      cases h₂ with
      | tryPop h' => exact absurd h h'.ne_empty
      | tryPopNone => exact ⟨rfl, rfl⟩
  | pop h =>
      cases h₂ with
      | pop h' =>
          obtain rfl := h.unique h'
          exact ⟨rfl, rfl⟩
      | popNone h' | popWaits h' => exact absurd h' h.ne_empty
  | popNone h hblocking =>
      cases h₂ with
      | pop h' => exact absurd h h'.ne_empty
      | popNone => exact ⟨rfl, rfl⟩
      | popWaits _ hblocking' => cases hblocking.symm.trans hblocking'
  | popWaits h hblocking =>
      cases h₂ with
      | pop h' => exact absurd h h'.ne_empty
      | popNone _ hblocking' => cases hblocking.symm.trans hblocking'
      | popWaits => exact ⟨rfl, rfl⟩
  | update ha hb =>
      cases h₂ with
      | update ha' hb' =>
          obtain rfl := Option.some.inj (ha.symm.trans ha')
          exact ⟨rfl, by rw [hb, hb']⟩
      | updateNone h' => cases ha.symm.trans h'
  | updateNone h =>
      cases h₂ with
      | update ha' => cases h.symm.trans ha'
      | updateNone => exact ⟨rfl, rfl⟩
  | items hsorted hmem =>
      cases h₂ with
      | items hsorted' hmem' =>
          rw [list_unique hsorted hsorted' hmem hmem']
          exact ⟨rfl, rfl⟩
  | remove | removeKey | reset | contains | size =>
      cases h₂
      exact ⟨rfl, rfl⟩

theorem Contents.Runs.unique {blocking : Bool} {m n₁ n₂ : Contents α} {ops : List (Operation α)}
    {answers₁ answers₂ : List (Answer α)} (h₁ : m.Runs blocking ops answers₁ n₁)
    (h₂ : m.Runs blocking ops answers₂ n₂) : answers₁ = answers₂ ∧ n₁ = n₂ := by
  induction h₁ generalizing answers₂ n₂ with
  | nil m =>
      cases h₂
      exact ⟨rfl, rfl⟩
  | cons ha _ ih =>
      cases h₂ with
      | cons ha' h' =>
          obtain ⟨rfl, rfl⟩ := ha.unique ha'
          obtain ⟨rfl, rfl⟩ := ih h'
          exact ⟨rfl, rfl⟩

/-! ## A queue answers as its map does -/

theorem update_of_contains {q : Queue α} {item : α} (h : q.contains (key item) = true) :
    q.update item =
      (.ok (),
        { q with
          entries := q.entries.modify (key item) fun a => withPriority a (priority item) }) :=
  if_pos h

theorem update_of_not_contains {q : Queue α} {item : α} (h : ¬ q.contains (key item) = true) :
    q.update item = (.error (.notFound ("queue key `" ++ key item ++ "`")), q) := if_neg h

theorem get?_foldl_insert (items : List α) (es : Registry String α) (k : String) :
    (items.foldl (fun es a => es.insert (key a) a) es).get? k =
      (lastWith k items).or (es.get? k) := by
  induction items generalizing es with
  | nil => rfl
  | cons a items ih =>
      rw [List.foldl_cons, ih, Registry.get?_insert]
      simp only [lastWith, List.reverse_cons, List.find?_append, Option.or_assoc]
      by_cases hk : key a = k
      · simp [hk]
      · have hk' : ¬ k = key a := fun h => hk h.symm
        simp [hk, hk']

theorem lookup_contents_push (q : Queue α) (items : List α) (k : String) :
    (q.push items).contents.lookup k = (lastWith k items).or (q.contents.lookup k) := by
  rw [lookup_contents, lookup_contents]
  exact get?_foldl_insert items q.entries k

theorem Keyed.rearranges {q q' : Queue α} (h : q.Keyed) (hq : q.Rearranges q') : q'.Keyed := by
  intro k a ha
  rw [contents_eq_iff.1 hq.contents] at ha
  exact h k a ha

/-- The entries have the keys under which they stand. -/
theorem Keyed.map_values {q : Queue α} (h : q.Keyed) :
    q.entries.values.map key = q.entries.keys := by
  unfold Registry.values Registry.keys
  rw [List.map_map]
  exact List.map_congr_left fun e he => h e.1 e.2 (Registry.get?_eq_some_iff.2 he)

theorem Keyed.mem_values_iff {q : Queue α} (h : q.Keyed) (a : α) :
    a ∈ q.entries.values ↔ q.contents.lookup (key a) = some a := by
  rw [Registry.mem_values_iff, lookup_contents]
  refine ⟨?_, fun ha => ⟨_, ha⟩⟩
  rintro ⟨k, ha⟩
  rw [h k a ha]
  exact ha

omit [Prioritized α] in
theorem items_perm (q : Queue α) (order : α → α → Ordering) :
    (q.items order).Perm q.entries.values :=
  List.mergeSort_perm _ _

theorem Keyed.nodup_map_items {q : Queue α} (h : q.Keyed) (order : α → α → Ordering) :
    ((q.items order).map key).Nodup := by
  have hperm := (q.items_perm order).map key
  rw [h.map_values] at hperm
  exact hperm.nodup_iff.2 q.entries.nodup_keys

/-- A queue lists its entries in order. -/
theorem Keyed.pairwise_items {q : Queue α} (h : q.Keyed) (order : α → α → Ordering)
    [DispatchOrder order] : (q.items order).Pairwise fun a b => order a b = .lt := by
  have hle {a b : α} : (order a b != .gt) = (order a b).isLE := by
    cases order a b <;> rfl
  have hsorted : (q.items order).Pairwise fun a b => order a b != .gt :=
    List.pairwise_mergeSort
      (fun a b c hab hbc => by
        rw [hle] at hab hbc ⊢
        exact Std.TransCmp.isLE_trans hab hbc)
      (fun a b => by
        have hswap : order b a = (order a b).swap := Std.OrientedCmp.eq_swap
        rw [hle, hle, hswap]
        cases order a b <;> rfl)
      q.entries.values
  have hkeys : (q.items order).Pairwise fun a b => key a ≠ key b :=
    List.pairwise_map.1 (h.nodup_map_items order)
  refine (hsorted.and hkeys).imp fun {a b} hab => ?_
  exact DispatchOrder.lt_of_isLE (hle ▸ hab.1) hab.2

theorem Keyed.pairwise_precedes {q : Queue α} (h : q.Keyed) :
    (q.items byPriority).Pairwise Precedes :=
  (h.pairwise_items byPriority).imp byPriority_eq_lt_iff.1

theorem Keyed.least_of_takeFirst {q q' : Queue α} {a : α} (h : q.Keyed)
    (htake : q.takeFirst byPriority = some (a, q')) :
    q.contents.Least a ∧ q'.contents = q.contents.erase (key a) ∧ q'.blocking = q.blocking := by
  obtain ⟨hmem, rfl⟩ := mem_of_takeFirst htake
  refine ⟨⟨(h.mem_values_iff a).1 hmem, fun k b hb hk => ?_⟩, contents_erase q _, rfl⟩
  rw [lookup_contents] at hb
  have hle := isLE_of_takeFirst htake (Registry.mem_values_iff.2 ⟨k, hb⟩)
  exact precedes_of_isLE hle fun heq => hk ((h k b hb).symm.trans heq.symm)

theorem contents_of_takeFirst_eq_none {q : Queue α}
    (htake : q.takeFirst byPriority = none) : q.contents = ∅ :=
  Finmap.ext_lookup fun k => by
    rw [lookup_contents, get?_of_takeFirst_eq_none htake, Finmap.lookup_empty]

/-- A fresh pop looks at the queue. -/
theorem pop_fresh (q : Queue α) (order : α → α → Ordering) :
    ∃ result q', q.pop order .fresh = some (result, q') ∧ q.PopMove order result q' := by
  cases hpop : q.pop order .fresh with
  | none => cases eq_waiting_of_pop_eq_none hpop
  | some made => exact ⟨made.1, made.2, rfl, popMove_of_pop hpop⟩

section Lawful

variable [LawfulPrioritized α]

/-- Each question is answered as the map of the queue answers it. -/
theorem Keyed.answers {q : Queue α} (h : q.Keyed) (op : Operation α) :
    q.contents.Answers q.blocking op (q.perform op).1 (q.perform op).2.contents := by
  cases op with
  | push items => exact .push (lookup_contents_push q items)
  | tryPop =>
      dsimp only [perform, tryPop]
      cases htake : q.takeFirst byPriority with
      | none => exact .tryPopNone (contents_of_takeFirst_eq_none htake)
      | some made =>
          obtain ⟨hleast, hcontents, -⟩ := h.least_of_takeFirst htake
          dsimp only
          rw [hcontents]
          exact .tryPop hleast
  | pop =>
      obtain ⟨result, q', hpop, hmove⟩ := pop_fresh q byPriority
      simp only [perform, hpop]
      cases hmove with
      | takes htake =>
          obtain ⟨hleast, hcontents, -⟩ := h.least_of_takeFirst htake
          dsimp only
          rw [hcontents]
          exact .pop hleast
      | waits htake hblocking => exact .popWaits (contents_of_takeFirst_eq_none htake) hblocking
      | fails htake hblocking => exact .popNone (contents_of_takeFirst_eq_none htake) hblocking
  | remove item =>
      have hanswer : q.contents.Answers q.blocking (.remove item) _ _ := .remove item
      rw [lookup_contents, ← contents_erase] at hanswer
      exact hanswer
  | removeKey k =>
      have hanswer : q.contents.Answers q.blocking (.removeKey k) _ _ := .removeKey k
      rw [lookup_contents, ← contents_erase] at hanswer
      exact hanswer
  | update item =>
      dsimp only [perform]
      by_cases hc : q.contains (key item) = true
      · obtain ⟨a, ha⟩ := Option.isSome_iff_exists.1 hc
        rw [update_of_contains hc, contents_modify ha]
        exact .update ((lookup_contents q _).trans ha) rfl
          (LawfulPrioritized.key_withPriority _ _) (LawfulPrioritized.priority_withPriority _ _)
      · rw [update_of_not_contains hc]
        exact .updateNone ((lookup_contents q _).trans (Option.not_isSome_iff_eq_none.1 hc))
  | reset => exact .reset
  | items =>
      refine .items h.pairwise_precedes fun a => ?_
      rw [← h.mem_values_iff a]
      exact (q.items_perm byPriority).mem_iff
  | contains k =>
      have hanswer : q.contents.Answers q.blocking (.contains k) _ _ := .contains k
      rw [lookup_contents] at hanswer
      exact hanswer
  | size =>
      have hanswer : q.contents.Answers q.blocking .size _ _ := .size
      rw [card_keys_contents] at hanswer
      exact hanswer

/-- Every entry goes on to stand under its own key, and the queue goes on to wait or not. -/
theorem Keyed.perform {q : Queue α} (h : q.Keyed) (op : Operation α) :
    (q.perform op).2.Keyed ∧ (q.perform op).2.blocking = q.blocking := by
  cases op with
  | push items => exact ⟨h.push items, rfl⟩
  | tryPop =>
      dsimp only [Queue.perform, tryPop]
      cases htake : q.takeFirst byPriority with
      | none => exact ⟨h, rfl⟩
      | some made =>
          obtain ⟨-, hmade⟩ := mem_of_takeFirst htake
          dsimp only
          rw [hmade]
          exact ⟨h.erase _, rfl⟩
  | pop =>
      obtain ⟨result, q', hpop, hmove⟩ := pop_fresh q byPriority
      simp only [Queue.perform, hpop]
      cases hmove with
      | takes htake =>
          obtain ⟨-, rfl⟩ := mem_of_takeFirst htake
          exact ⟨h.erase _, rfl⟩
      | waits | fails => exact ⟨h, rfl⟩
  | remove item => exact ⟨h.erase _, rfl⟩
  | removeKey k => exact ⟨h.erase k, rfl⟩
  | update item =>
      dsimp only [Queue.perform, update]
      split
      · refine ⟨fun k a ha => ?_, rfl⟩
        dsimp only at ha
        rw [Registry.get?_modify] at ha
        split at ha
        · obtain ⟨b, hb, rfl⟩ := Option.map_eq_some_iff.1 ha
          rw [LawfulPrioritized.key_withPriority]
          exact h k b hb
        · exact h k a ha
      · exact ⟨h, rfl⟩
  | reset => exact ⟨keyed_of_empty rfl, rfl⟩
  | items | contains | size => exact ⟨h, rfl⟩

theorem Performs.runs {q r : Queue α} {ops : List (Operation α)} {answers : List (Answer α)}
    (h : q.Performs ops answers r) (hq : q.Keyed) :
    q.contents.Runs q.blocking ops answers r.contents ∧ r.Keyed ∧ r.blocking = q.blocking := by
  induction h with
  | nil q => exact ⟨.nil _, hq, rfl⟩
  | @cons q q' r op ops answers hrearranged _ ih =>
      have hq' := hq.rearranges hrearranged
      obtain ⟨hkeyed, hblocking⟩ := hq'.perform op
      obtain ⟨hruns, hr, hlast⟩ := ih hkeyed
      rw [hblocking] at hruns hlast
      have hanswers := hq'.answers op
      rw [hrearranged.contents, hrearranged.blocking] at hanswers
      rw [hrearranged.blocking] at hruns hlast
      exact ⟨.cons hanswers hruns, hr, hlast⟩

end Lawful

theorem performs_total (q : Queue α) (ops : List (Operation α)) :
    ∃ (answers : List (Answer α)) (r : Queue α), q.Performs ops answers r := by
  induction ops generalizing q with
  | nil => exact ⟨[], q, .nil q⟩
  | cons op ops ih =>
      obtain ⟨answers, r, h⟩ := ih (q.perform op).2
      exact ⟨_, r, .cons (.refl q) h⟩

/-- A map that is emptied gives out its entries in the order in which they are listed. -/
theorem Contents.runs_replicate_tryPop (blocking : Bool) {m : Contents α} {l : List α}
    (hsorted : l.Pairwise Precedes)
    (hmem : ∀ a, a ∈ l ↔ m.lookup (key a) = some a)
    (hkeyed : ∀ (k : String) (a : α), m.lookup k = some a → key a = k) :
    m.Runs blocking (List.replicate l.length .tryPop) (l.map fun a => .entry (.ok a)) ∅ := by
  induction l generalizing m with
  | nil =>
      have hempty : m = ∅ := by
        refine Finmap.ext_lookup fun k => Option.eq_none_iff_forall_ne_some.2 fun a ha => ?_
        have hnil : a ∈ ([] : List α) := (hmem a).2 ((hkeyed k a ha).symm ▸ ha)
        cases hnil
      rw [hempty]
      exact .nil _
  | cons a l ih =>
      obtain ⟨hfirst, hrest⟩ := List.pairwise_cons.1 hsorted
      have hleast : m.Least a := by
        refine ⟨(hmem a).1 List.mem_cons_self, fun k b hb hk => ?_⟩
        have hbmem : b ∈ a :: l := (hmem b).2 ((hkeyed k b hb).symm ▸ hb)
        obtain rfl | hbmem := List.mem_cons.1 hbmem
        · exact absurd (hkeyed k b hb).symm hk
        · exact hfirst b hbmem
      refine .cons (.tryPop hleast) (ih hrest (fun b => ?_) fun k b hb => ?_)
      · by_cases hkey : key b = key a
        · rw [hkey, Finmap.lookup_erase]
          refine iff_of_false (fun hb => ?_) nofun
          have hb' := (hmem b).1 (List.mem_cons_of_mem a hb)
          rw [hkey, hleast.1] at hb'
          obtain rfl := Option.some.inj hb'
          exact (hfirst a hb).asymm (hfirst a hb)
        · rw [Finmap.lookup_erase_ne hkey, ← hmem b, List.mem_cons]
          refine ⟨.inr, fun hb => hb.resolve_left ?_⟩
          rintro rfl
          exact hkey rfl
      · by_cases hk : k = key a
        · rw [hk, Finmap.lookup_erase] at hb
          cases hb
        · rw [Finmap.lookup_erase_ne hk] at hb
          exact hkeyed k b hb

theorem mem_of_lastWith {k : String} {items : List α} {a : α} (h : lastWith k items = some a) :
    a ∈ items ∧ key a = k :=
  ⟨List.mem_reverse.1 (List.mem_of_find?_eq_some h),
    by simpa only [beq_iff_eq] using List.find?_some (p := fun a => key a == k) h⟩

theorem lastWith_eq_some_iff {k : String} {items : List α} {a : α}
    (hnodup : (items.map key).Nodup) : lastWith k items = some a ↔ a ∈ items ∧ key a = k := by
  refine ⟨mem_of_lastWith, fun h => ?_⟩
  cases hb : lastWith k items with
  | none =>
      have hnone := List.find?_eq_none.1 hb a (List.mem_reverse.2 h.1)
      simp [h.2] at hnone
  | some b =>
      obtain ⟨hmem, hkey⟩ := mem_of_lastWith hb
      rw [List.inj_on_of_nodup_map hnodup hmem h.1 (hkey.trans h.2.symm)]

/-- Entries of different keys can be pushed in any order. -/
theorem contents_push_perm (q : Queue α) {xs ys : List α} (h : xs.Perm ys)
    (hnodup : (xs.map key).Nodup) : (q.push ys).contents = (q.push xs).contents := by
  have hlast (k : String) : lastWith k ys = lastWith k xs := by
    refine Option.ext fun a => ?_
    rw [lastWith_eq_some_iff hnodup, lastWith_eq_some_iff ((h.map key).nodup_iff.1 hnodup),
      h.mem_iff]
  refine Finmap.ext_lookup fun k => ?_
  rw [lookup_contents_push, lookup_contents_push, hlast]

/-- Whatever a queue is asked from its beginning on, in whatever order it goes through its entries,
it answers as a finite map does, and a map answers in one way only: the last entry pushed for a key
stands, an update changes nothing but a priority, and a pop gives out the one entry that comes
before all others. So no key stands twice, queues with the same map cannot be told apart, entries of
different keys may be pushed in any order, and emptying a queue gives out what it lists. -/
theorem performs_map [LawfulPrioritized α] (blocking : Bool) (ops : List (Operation α)) :
    (∃ (answers : List (Answer α)) (q : Queue α), (create blocking).Performs ops answers q) ∧
      ∀ (answers : List (Answer α)) (q : Queue α), (create blocking).Performs ops answers q →
        Contents.Runs blocking ∅ ops answers q.contents ∧
          ((q.items byPriority).map key).Nodup ∧
          (∀ (q' r r' : Queue α) (later : List (Operation α))
            (answers' answers'' : List (Answer α)),
            q'.contents = q.contents → q'.blocking = q.blocking → q.Performs later answers' r →
              q'.Performs later answers'' r' → answers'' = answers' ∧ r'.contents = r.contents) ∧
          (∀ xs ys : List α, xs.Perm ys → (xs.map key).Nodup →
            (q.push ys).contents = (q.push xs).contents) ∧
          ∀ (drained : List (Answer α)) (r : Queue α),
            q.Performs (List.replicate q.size .tryPop) drained r →
              drained = (q.items byPriority).map (fun a => .entry (.ok a)) ∧ r.contents = ∅ := by
  refine ⟨performs_total _ ops, fun answers q h => ?_⟩
  obtain ⟨hruns, hkeyed, -⟩ := h.runs (keyed_of_empty rfl)
  have hempty : (create blocking : Queue α).contents = ∅ := contents_eq_empty_iff.2 rfl
  rw [hempty] at hruns
  refine ⟨hruns, hkeyed.nodup_map_items byPriority,
    fun q' r r' later answers' answers'' hsame hblocking h h' => ?_,
    fun xs ys hperm hnodup => contents_push_perm q hperm hnodup, fun drained r h => ?_⟩
  · have hkeyed' : q'.Keyed := fun k a ha => hkeyed k a ((contents_eq_iff.1 hsame k).symm.trans ha)
    obtain ⟨hleft, -⟩ := h.runs hkeyed
    obtain ⟨hright, -⟩ := h'.runs hkeyed'
    rw [hsame, hblocking] at hright
    exact hright.unique hleft
  · obtain ⟨hdrained, -⟩ := h.runs hkeyed
    have hlength : (q.items byPriority).length = q.size := by
      unfold items
      rw [List.length_mergeSort, Registry.values, List.length_map]
      rfl
    have hlist := Contents.runs_replicate_tryPop q.blocking hkeyed.pairwise_precedes
      (fun a => (q.items_perm byPriority).mem_iff.trans (hkeyed.mem_values_iff a))
      fun k a ha => hkeyed k a ((lookup_contents q k).symm.trans ha)
    rw [hlength] at hlist
    exact hdrained.unique hlist

/-- A batch with a repeated key, then updates of a key that is there and of one that is not. -/
def batchedOperations : List (Operation Ticket) :=
  [.push [⟨"b", 2⟩, ⟨"a", 2⟩, ⟨"b", 0⟩], .update ⟨"a", -1⟩, .update ⟨"c", 3⟩, .tryPop, .pop, .pop]

/-- What is in the queue before the first pop, in another order. -/
def rearrangedTickets : Queue Ticket :=
  ⟨⟨[("a", ⟨"a", -1⟩), ("b", ⟨"b", 0⟩)], by decide⟩, false, 0⟩

theorem performs_map_batchedRun :
    ∃ (answers : List (Answer Ticket)) (q : Queue Ticket),
      (create false).Performs batchedOperations answers q ∧
        answers = [.done, .updated (.ok ()), .updated (.error (.notFound "queue key `c`")),
          .entry (.ok ⟨"a", -1⟩), .entry (.ok ⟨"b", 0⟩), .entry (.error emptyError)] ∧
        Contents.Runs false ∅ batchedOperations answers q.contents := by
  have hruns : (create false).Performs batchedOperations _ _ :=
    .cons (.refl _) <| .cons (.refl _) <| .cons (.refl _) <|
      .cons (show Rearranges _ rearrangedTickets from ⟨.swap _ _ _, rfl⟩) <|
      .cons (.refl _) <| .cons (.refl _) <| .nil _
  exact ⟨_, _, hruns, rfl, ((performs_map false batchedOperations).2 _ _ hruns).1⟩

end Queue

end Scheduling
