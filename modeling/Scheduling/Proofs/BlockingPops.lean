import Mathlib.Data.List.Perm.Subperm
import Scheduling.Proofs.QueueContents
/-!
# Pops that wait

On a blocking queue any number of pops wait at once, and those that were woken look at the queue
again in any order. A pop that waits for the next wake-up has seen the queue empty, and nothing was
pushed since: so none sleeps while there is an entry. Each turn of a pop takes one entry or finds
none, so the turns between two operations give out the first entries of the queue in order, one for
each pop, until there are no more pops or no more entries.
-/

namespace Scheduling

namespace Registry

variable {κ α : Type} [DecidableEq κ]

/-- A registry in which one key has a value and all other keys are as in another. -/
theorem perm_cons_erase {r r' : Registry κ α} {k : κ} {v : α}
    (h : ∀ k', r'.get? k' = if k' = k then some v else r.get? k') :
    r'.entries.Perm ((k, v) :: (r.erase k).entries) := by
  have hnew : (k, v) ∉ (r.erase k).entries := by
    intro hmem
    have hget := get?_eq_some_iff.2 hmem
    rw [get?_erase, if_pos rfl] at hget
    cases hget
  refine (List.perm_ext_iff_of_nodup r'.nodup_keys.of_map
    (List.nodup_cons.2 ⟨hnew, (r.erase k).nodup_keys.of_map⟩)).2 fun e => ?_
  obtain ⟨k', v'⟩ := e
  rw [List.mem_cons, ← get?_eq_some_iff, ← get?_eq_some_iff, h, get?_erase]
  by_cases hk : k' = k
  · simp [hk, eq_comm]
  · simp [hk]

theorem perm_of_get?_eq_some {r : Registry κ α} {k : κ} {v : α} (h : r.get? k = some v) :
    r.entries.Perm ((k, v) :: (r.erase k).entries) :=
  perm_cons_erase fun k' => by
    split
    · rename_i hk
      rw [hk, h]
    · rfl

theorem values_erase_sublist (r : Registry κ α) (k : κ) :
    (r.erase k).values.Sublist r.values :=
  List.filter_sublist.map _

/-- A value that is inserted takes the place of at most one other. -/
theorem subperm_values_insert (r : Registry κ α) (k : κ) (v : α) :
    (r.insert k v).values.Subperm (v :: r.values) := by
  have hperm : (r.insert k v).values.Perm (v :: (r.erase k).values) :=
    (perm_cons_erase fun k' => r.get?_insert k k' v).map Prod.snd
  exact ⟨_, hperm.symm, (r.values_erase_sublist k).cons_cons v⟩

omit [DecidableEq κ] in
theorem map_values_modify [DecidableEq κ] {β : Type} {mark : α → β} {f : α → α}
    (h : ∀ a, mark (f a) = mark a) (r : Registry κ α) (k : κ) :
    (r.modify k f).values.map mark = r.values.map mark := by
  unfold values modify modifyEntry
  rw [List.map_map, List.map_map, List.map_map]
  refine List.map_congr_left fun e _ => ?_
  simp only [Function.comp_apply]
  split
  · exact h e.2
  · rfl

end Registry

namespace Queue

variable {α : Type}

theorem later_modify (q : Queue α) (k : String) (f : α → α) :
    q.Later { q with entries := q.entries.modify k f } where
  blocking := rfl
  wakeups := Nat.le_refl _
  quiet _ k' hk' := by
    dsimp only
    rw [Registry.get?_modify, hk', Option.map_none, ite_self]

variable [Prioritized α]

theorem Keyed.perm_values_of_takeFirst {q q' : Queue α} (h : q.Keyed)
    {order : α → α → Ordering} {a : α} (htake : q.takeFirst order = some (a, q')) :
    q.entries.values.Perm (a :: q'.entries.values) := by
  obtain ⟨hmem, rfl⟩ := mem_of_takeFirst htake
  have hget : q.entries.get? (key a) = some a := by
    rw [← lookup_contents]
    exact (h.mem_values_iff a).1 hmem
  exact (Registry.perm_of_get?_eq_some hget).map Prod.snd

/-- A queue that is not empty lists first what it gives out next. -/
theorem Keyed.items_of_takeFirst {q q' : Queue α} (h : q.Keyed) {order : α → α → Ordering}
    [DispatchOrder order] {a : α} (htake : q.takeFirst order = some (a, q')) :
    q.items order = a :: q'.items order := by
  have hperm : (q.items order).Perm (a :: q'.items order) := by
    refine (q.items_perm order).trans ((h.perm_values_of_takeFirst htake).trans ?_)
    exact (q'.items_perm order).symm.cons a
  have hsorted : (a :: q'.items order).Pairwise fun a b => order a b = .lt := by
    refine List.pairwise_cons.2 ⟨fun b hb => ?_, (h.of_takeFirst htake).pairwise_items order⟩
    have hb' : b ∈ q.entries.values :=
      (q.items_perm order).mem_iff.1 (hperm.mem_iff.2 (List.mem_cons_of_mem a hb))
    have hnodup := (hperm.map key).nodup_iff.1 (h.nodup_map_items order)
    refine DispatchOrder.lt_of_isLE (isLE_of_takeFirst htake hb') fun hkey => ?_
    refine (List.nodup_cons.1 hnodup).1 ?_
    exact List.mem_map.2 ⟨b, hb, hkey.symm⟩
  refine hperm.eq_of_pairwise (fun b c _ _ hbc hcb => ?_) (h.pairwise_items order) hsorted
  have hswap : order b c = (order c b).swap := Std.OrientedCmp.eq_swap
  rw [hbc, hcb] at hswap
  cases hswap

omit [Prioritized α] in
theorem length_items (q : Queue α) (order : α → α → Ordering) :
    (q.items order).length = q.size := by
  rw [(q.items_perm order).length_eq]
  exact List.length_map _

/-- What a push leaves in the queue was there or is pushed, and nothing of it stands twice. -/
theorem subperm_values_push (q : Queue α) (items : List α) :
    (q.push items).entries.values.Subperm (q.entries.values ++ items) := by
  unfold push
  dsimp only
  generalize q.entries = es
  induction items generalizing es with
  | nil =>
      rw [List.append_nil]
      exact .refl _
  | cons a items ih =>
      have hinsert := (List.subperm_append_right items).2 (es.subperm_values_insert (key a) a)
      refine (ih (es.insert (key a) a)).trans (hinsert.trans ?_)
      have hmiddle : (es.values ++ a :: items).Perm (a :: (es.values ++ items)) := List.perm_middle
      exact hmiddle.symm.subperm

end Queue

namespace WaitingQueue

variable {α : Type} [Prioritized α]

/-! ## Turns of waiting pops -/

/-- One of the pops gets its turn: it ends with a result, or waits on. -/
inductive Polls (order : α → α → Ordering) (w : WaitingQueue α) :
    List (Except Error α) → WaitingQueue α → Prop
  | ends {before after : List PopPoint} {point : PopPoint} {result : Except Error α} {q : Queue α}
      (hwaiting : w.waiting = before ++ point :: after)
      (h : w.queue.pop order point = some (.ended result, q)) :
      Polls order w [result] ⟨q, before ++ after⟩
  | waits {before after : List PopPoint} {point point' : PopPoint} {q : Queue α}
      (hwaiting : w.waiting = before ++ point :: after)
      (h : w.queue.pop order point = some (.waits point', q)) :
      Polls order w [] ⟨q, before ++ point' :: after⟩

/-- A number of turns, which may come to the pops in any order, with the results of those that
end. -/
inductive Turns (order : α → α → Ordering) :
    WaitingQueue α → Nat → List (Except Error α) → WaitingQueue α → Prop
  | nil (w : WaitingQueue α) : Turns order w 0 [] w
  | cons {w w' w'' : WaitingQueue α} {n : Nat} {results results' : List (Except Error α)}
      (h : w.Polls order results w') (hrest : Turns order w' n results' w'') :
      Turns order w (n + 1) (results ++ results') w''

/-- How many of the pops can go on. -/
def ready (w : WaitingQueue α) : Nat := w.waiting.countP w.queue.canPop

/-- No pop can go on. -/
def Settled (w : WaitingQueue α) : Prop := w.ready = 0

/-! ## Histories -/

/-- What happens to a queue on which pops wait, with the entries that are pushed and the results
that are given out. -/
inductive Happens : WaitingQueue α → List α → List (Except Error α) → WaitingQueue α → Prop
  | push (w : WaitingQueue α) (items : List α) :
      Happens w items [] { w with queue := w.queue.push items }
  | ask (w : WaitingQueue α) : Happens w [] [] w.ask
  | tryPop (w : WaitingQueue α) (order : α → α → Ordering) :
      Happens w [] [(w.queue.tryPop order).1] { w with queue := (w.queue.tryPop order).2 }
  | removeKey (w : WaitingQueue α) (k : String) :
      Happens w [] [] { w with queue := (w.queue.removeKey k).2 }
  | update (w : WaitingQueue α) (item : α) :
      Happens w [] [] { w with queue := (w.queue.update item).2 }
  | reset (w : WaitingQueue α) : Happens w [] [] { w with queue := w.queue.reset }
  /-- A pop gets its turn, in whatever order the entries are at that moment. -/
  | poll {w w' : WaitingQueue α} {order : α → α → Ordering} {results : List (Except Error α)}
      (h : w.Polls order results w') : Happens w [] results w'

/-- The blocking queues that come about from an empty one on which no pop waits, with all entries
that were pushed and all results that were given out. -/
inductive Reached : List α → List (Except Error α) → WaitingQueue α → Prop
  | create : Reached [] [] (create true)
  | step {pushed items : List α} {given results : List (Except Error α)} {w w' : WaitingQueue α}
      (h : Reached pushed given w) (hstep : w.Happens items results w') :
      Reached (pushed ++ items) (given ++ results) w'

/-- The entries among some results. -/
def entriesOf (results : List (Except Error α)) : List α := results.filterMap Except.toOption

/-! ## No pop sleeps over an entry -/

/-- No pop waits for the next wake-up while there is an entry. -/
structure Awake (w : WaitingQueue α) : Prop where
  blocking : w.queue.blocking = true
  keyed : w.queue.Keyed
  seen : ∀ wakeups, .waiting wakeups ∈ w.waiting → wakeups ≤ w.queue.wakeups
  quiet : .waiting w.queue.wakeups ∈ w.waiting → w.queue.entries = Registry.empty

theorem awake_create : (create true : WaitingQueue α).Awake where
  blocking := rfl
  keyed := Queue.keyed_of_empty rfl
  seen _ h := by cases h
  quiet h := by cases h

/-- What is done to the queue itself wakes the pops or brings no new keys. -/
theorem Awake.of_later {q q' : Queue α} {points : List PopPoint} (h : Awake ⟨q, points⟩)
    (hlater : q.Later q') (hkeyed : q'.Keyed) : Awake ⟨q', points⟩ where
  blocking := hlater.blocking.trans h.blocking
  keyed := hkeyed
  seen wakeups hmem := Nat.le_trans (h.seen wakeups hmem) hlater.wakeups
  quiet hmem := by
    have hsame : q'.wakeups = q.wakeups :=
      Nat.le_antisymm (h.seen _ hmem) hlater.wakeups
    have hempty : q.entries = Registry.empty := h.quiet (hsame ▸ hmem)
    refine Registry.eq_empty_iff.2 fun k => hlater.quiet hsame k ?_
    rw [hempty, Registry.get?_empty]

/-- Fewer pops wait. -/
theorem Awake.of_subset {q : Queue α} {points points' : List PopPoint} (h : Awake ⟨q, points⟩)
    (hsub : points' ⊆ points) : Awake ⟨q, points'⟩ where
  blocking := h.blocking
  keyed := h.keyed
  seen wakeups hmem := h.seen wakeups (hsub hmem)
  quiet hmem := h.quiet (hsub hmem)

/-- A turn takes an entry out and ends a pop, or finds the queue empty and lets it wait. -/
inductive Polled (order : α → α → Ordering) (w : WaitingQueue α) :
    List (Except Error α) → WaitingQueue α → Prop
  | takes {before after : List PopPoint} {point : PopPoint} {a : α} {q : Queue α}
      (hwaiting : w.waiting = before ++ point :: after) (hready : w.queue.canPop point = true)
      (htake : w.queue.takeFirst order = some (a, q)) :
      Polled order w [.ok a] ⟨q, before ++ after⟩
  | waits {before after : List PopPoint} {point : PopPoint}
      (hwaiting : w.waiting = before ++ point :: after) (hready : w.queue.canPop point = true)
      (htake : w.queue.takeFirst order = none) :
      Polled order w [] ⟨w.queue, before ++ .waiting w.queue.wakeups :: after⟩

section

variable {order : α → α → Ordering} {w w' : WaitingQueue α} {n : Nat} {items : List α}
  {results : List (Except Error α)}

theorem Awake.polled (h : w.Awake) (hpoll : w.Polls order results w') :
    w.Polled order results w' := by
  cases hpoll with
  | ends hwaiting hpop =>
      have hready := Queue.canPop_of_pop_eq_some hpop
      cases Queue.popMove_of_pop hpop with
      | takes htake => exact .takes hwaiting hready htake
      | fails _ hblocking =>
          rw [h.blocking] at hblocking
          cases hblocking
  | waits hwaiting hpop =>
      have hready := Queue.canPop_of_pop_eq_some hpop
      cases Queue.popMove_of_pop hpop with
      | waits htake => exact .waits hwaiting hready htake

theorem Awake.of_polled (h : w.Awake) (hpoll : w.Polled order results w') : w'.Awake := by
  cases hpoll with
  | @takes before after point a q hwaiting hready htake =>
      obtain ⟨-, rfl⟩ := Queue.mem_of_takeFirst htake
      have hall : Awake ⟨w.queue, w.waiting⟩ := h
      have hfewer : Awake ⟨w.queue, before ++ after⟩ := by
        refine hall.of_subset ?_
        rw [hwaiting]
        exact ((List.sublist_cons_self point after).append_left before).subset
      exact hfewer.of_later (Queue.later_erase _ _) (h.keyed.erase _)
  | @waits before after point hwaiting hready htake =>
      have hold (wakeups : Nat)
          (hmem : .waiting wakeups ∈ before ++ .waiting w.queue.wakeups :: after) :
          .waiting wakeups ∈ w.waiting ∨ wakeups = w.queue.wakeups := by
        rw [hwaiting]
        simp only [List.mem_append, List.mem_cons, PopPoint.waiting.injEq] at hmem ⊢
        tauto
      have hempty : w.queue.entries = Registry.empty :=
        Registry.eq_empty_iff.2 (Queue.get?_of_takeFirst_eq_none htake)
      exact
        { blocking := h.blocking
          keyed := h.keyed
          seen := fun wakeups hmem =>
            (hold wakeups hmem).elim (h.seen wakeups) Nat.le_of_eq
          quiet := fun _ => hempty }

/-- The queue gives an entry another priority or does not have it. -/
theorem later_update (q : Queue α) (item : α) : q.Later (q.update item).2 := by
  unfold Queue.update
  split
  · exact q.later_modify _ _
  · exact .refl q

theorem later_tryPop (q : Queue α) (order : α → α → Ordering) :
    q.Later (q.tryPop order).2 := by
  unfold Queue.tryPop
  cases htake : q.takeFirst order with
  | none => exact .refl q
  | some made =>
      obtain ⟨-, hmade⟩ := Queue.mem_of_takeFirst htake
      dsimp only
      rw [hmade]
      exact q.later_erase _

theorem Awake.of_happens [LawfulPrioritized α] (h : w.Awake)
    (hstep : w.Happens items results w') : w'.Awake := by
  cases hstep with
  | push => exact h.of_later (w.queue.later_push items) (h.keyed.push items)
  | ask =>
      have hold (wakeups : Nat) (hmem : .waiting wakeups ∈ w.ask.waiting) :
          .waiting wakeups ∈ w.waiting := by
        simpa [ask] using hmem
      exact ⟨h.blocking, h.keyed, fun wakeups hmem => h.seen wakeups (hold wakeups hmem),
        fun hmem => h.quiet (hold _ hmem)⟩
  | tryPop order => exact h.of_later (later_tryPop w.queue order) (h.keyed.of_tryPop order)
  | removeKey k => exact h.of_later (w.queue.later_erase k) (h.keyed.erase k)
  | update item =>
      exact h.of_later (later_update w.queue item) (h.keyed.perform (.update item)).1
  | reset => exact h.of_later w.queue.later_reset (Queue.keyed_of_empty rfl)
  | poll hpoll => exact h.of_polled (h.polled hpoll)

theorem Reached.awake [LawfulPrioritized α] {pushed : List α} {given : List (Except Error α)}
    (h : Reached pushed given w) : w.Awake := by
  induction h with
  | create => exact awake_create
  | step _ hstep ih => exact ih.of_happens hstep

/-! ## What the turns give out -/

theorem Polled.ready (h : w.Polled order results w') : w'.ready + 1 = w.ready := by
  unfold WaitingQueue.ready
  cases h with
  | takes hwaiting hready htake =>
      obtain ⟨-, rfl⟩ := Queue.mem_of_takeFirst htake
      rw [hwaiting, List.countP_append, List.countP_append, List.countP_cons_of_pos hready]
      rfl
  | waits hwaiting hready =>
      have hblocked : ¬ w.queue.canPop (.waiting w.queue.wakeups) = true := by simp [Queue.canPop]
      rw [hwaiting, List.countP_append, List.countP_append, List.countP_cons_of_pos hready,
        List.countP_cons_of_neg hblocked]
      rfl

/-- What a number of turns does: each takes one pop that can go on, and together they give out the
first entries in order, each to a pop that ends. -/
structure Delivers (order : α → α → Ordering) (w : WaitingQueue α) (n : Nat)
    (results : List (Except Error α)) (w' : WaitingQueue α) : Prop where
  awake : w'.Awake
  ready : n + w'.ready = w.ready
  pops : results.length + w'.waiting.length = w.waiting.length
  entries : ∃ taken, results = taken.map .ok ∧
    w.queue.items order = taken ++ w'.queue.items order

theorem Awake.delivers_one [DispatchOrder order] (h : w.Awake)
    (hpoll : w.Polled order results w') : w.Delivers order 1 results w' := by
  refine ⟨h.of_polled hpoll, Nat.add_comm 1 _ ▸ hpoll.ready, ?_, ?_⟩
  · cases hpoll with
    | takes hwaiting | waits hwaiting =>
        rw [hwaiting]
        simp only [List.length_append, List.length_cons, List.length_nil]
        omega
  · cases hpoll with
    | @takes _ _ _ a _ _ _ htake => exact ⟨[a], rfl, h.keyed.items_of_takeFirst htake⟩
    | waits => exact ⟨[], rfl, rfl⟩

theorem Delivers.trans {w'' : WaitingQueue α} {n' : Nat} {results' : List (Except Error α)}
    (h : w.Delivers order n results w') (h' : w'.Delivers order n' results' w'') :
    w.Delivers order (n + n') (results ++ results') w'' := by
  obtain ⟨taken, hresults, hitems⟩ := h.entries
  obtain ⟨taken', hresults', hitems'⟩ := h'.entries
  have hready := h.ready
  have hready' := h'.ready
  have hpops := h.pops
  have hpops' := h'.pops
  refine ⟨h'.awake, by omega, ?_, taken ++ taken', ?_, ?_⟩
  · rw [List.length_append]
    omega
  · rw [hresults, hresults', List.map_append]
  · rw [hitems, hitems', List.append_assoc]

theorem Awake.delivers [DispatchOrder order] (h : w.Awake)
    (hturns : w.Turns order n results w') : w.Delivers order n results w' := by
  induction hturns with
  | nil w => exact ⟨h, Nat.zero_add _, Nat.zero_add _, [], rfl, rfl⟩
  | @cons w w' w'' n results results' hpoll _ ih =>
      have hone := h.delivers_one (h.polled hpoll)
      rw [Nat.add_comm n 1]
      exact hone.trans (ih hone.awake)

/-- When no pop can go on, pops are left only on the empty queue. -/
theorem Awake.entries_of_settled (h : w.Awake) (hsettled : w.Settled) (hw : w.waiting ≠ []) :
    w.queue.entries = Registry.empty := by
  obtain ⟨point, points, hpoints⟩ := List.exists_cons_of_ne_nil hw
  have hmem : point ∈ w.waiting := by
    rw [hpoints]
    exact List.mem_cons_self
  have hpoint : ¬ w.queue.canPop point = true := List.countP_eq_zero.1 hsettled point hmem
  rw [Queue.eq_waiting_of_not_canPop hpoint] at hmem
  exact h.quiet hmem

/-- Turns until no pop can go on give out as many entries as there are, at most one for each pop. -/
theorem Delivers.settled [DispatchOrder order] (h : w.Delivers order n results w')
    (hsettled : w'.Settled) :
    let served := min w.waiting.length w.queue.size
    results = ((w.queue.items order).take served).map .ok ∧
      w'.queue.items order = (w.queue.items order).drop served ∧
      w'.waiting.length = w.waiting.length - served := by
  obtain ⟨taken, hresults, hitems⟩ := h.entries
  have hpops := h.pops
  have hsize : w.queue.size = results.length + w'.queue.size := by
    rw [← w.queue.length_items order, hitems, List.length_append, w'.queue.length_items order,
      hresults, List.length_map]
  have hleft : w'.waiting = [] ∨ w'.queue.size = 0 := by
    by_cases hw : w'.waiting = []
    · exact .inl hw
    · exact .inr (Registry.size_eq_zero_iff.2 (h.awake.entries_of_settled hsettled hw))
  have hserved : min w.waiting.length w.queue.size = taken.length := by
    have hlength : results.length = taken.length := by
      rw [hresults, List.length_map]
    rw [← hlength]
    obtain hw | hq := hleft
    · rw [hw, List.length_nil] at hpops
      omega
    · omega
  dsimp only
  rw [hserved, hitems, List.take_left, List.drop_left]
  refine ⟨hresults, rfl, ?_⟩
  rw [hresults, List.length_map] at hpops
  omega

/-! ## Giving all pops their turn -/

/-- The pops get their turn one after the other. -/
theorem turns_serve (order : α → α → Ordering) (q : Queue α) (points before : List PopPoint) :
    ∃ n, Turns order ⟨q, before ++ points⟩ n (serve order q points).1
      ⟨(serve order q points).2.queue, before ++ (serve order q points).2.waiting⟩ := by
  induction points generalizing q before with
  | nil => exact ⟨0, .nil _⟩
  | cons point rest ih =>
      unfold serve
      split
      · obtain ⟨n, hn⟩ := ih q (before ++ [point])
        simp only [List.append_assoc, List.cons_append, List.nil_append] at hn
        exact ⟨n, hn⟩
      · rename_i result q' hpop
        obtain ⟨n, hn⟩ := ih q' before
        exact ⟨n + 1, .cons (.ends rfl hpop) hn⟩
      · rename_i point' q' hpop
        obtain ⟨n, hn⟩ := ih q' (before ++ [point'])
        simp only [List.append_assoc, List.cons_append, List.nil_append] at hn
        exact ⟨n + 1, .cons (.waits rfl hpop) hn⟩

/-- On a blocking queue all pops that are left wait for the next wake-up. -/
theorem serve_waiting (order : α → α → Ordering) {q : Queue α} (hq : q.blocking = true)
    (points : List PopPoint) :
    (serve order q points).2.queue.wakeups = q.wakeups ∧
      ∀ point ∈ (serve order q points).2.waiting, point = .waiting q.wakeups := by
  induction points generalizing q with
  | nil => exact ⟨rfl, fun point h => by cases h⟩
  | cons point rest ih =>
      unfold serve
      split
      · rename_i hpop
        obtain ⟨hwakeups, hpoints⟩ := ih hq
        refine ⟨hwakeups, fun p hp => ?_⟩
        obtain rfl | hp := List.mem_cons.1 hp
        · exact Queue.eq_waiting_of_pop_eq_none hpop
        · exact hpoints p hp
      · rename_i result q' hpop
        cases Queue.popMove_of_pop hpop with
        | takes htake =>
            obtain ⟨-, rfl⟩ := Queue.mem_of_takeFirst htake
            exact ih hq
        | fails _ hblocking =>
            rw [hq] at hblocking
            cases hblocking
      · rename_i point' q' hpop
        cases Queue.popMove_of_pop hpop with
        | waits =>
            obtain ⟨hwakeups, hpoints⟩ := ih hq
            refine ⟨hwakeups, fun p hp => ?_⟩
            obtain rfl | hp := List.mem_cons.1 hp
            · rfl
            · exact hpoints p hp

theorem Awake.settled_settle (h : w.Awake) (order : α → α → Ordering) :
    (w.settle order).2.Settled := by
  obtain ⟨hwakeups, hpoints⟩ := serve_waiting order h.blocking w.waiting
  refine List.countP_eq_zero.2 fun point hpoint => ?_
  rw [hpoints point hpoint]
  unfold Queue.canPop settle
  rw [hwakeups]
  simp

/-! ## No entry is given out twice -/

/-- What is given out and what is left was there or is pushed. -/
theorem Awake.subperm_of_happens {β : Type} {mark : α → β}
    (hmark : ∀ a p, mark (withPriority a p) = mark a) (h : w.Awake)
    (hstep : w.Happens items results w') :
    ((entriesOf results ++ w'.queue.entries.values).map mark).Subperm
      ((w.queue.entries.values ++ items).map mark) := by
  cases hstep with
  | push =>
      obtain ⟨l, hperm, hsub⟩ := w.queue.subperm_values_push items
      exact ⟨l.map mark, hperm.map mark, hsub.map mark⟩
  | ask =>
      rw [List.append_nil]
      exact .refl _
  | tryPop order =>
      rw [List.append_nil]
      unfold Queue.tryPop
      cases htake : w.queue.takeFirst order with
      | none => exact .refl _
      | some made => exact ((h.keyed.perm_values_of_takeFirst htake).map mark).symm.subperm
  | removeKey k =>
      rw [List.append_nil]
      exact ((w.queue.entries.values_erase_sublist k).map mark).subperm
  | update item =>
      rw [List.append_nil]
      unfold Queue.update
      split
      · have hvalues := Registry.map_values_modify (fun a => hmark a (priority item))
          w.queue.entries (key item)
        exact (List.Perm.of_eq hvalues).subperm
      · exact .refl _
  | reset => exact List.nil_subperm
  | poll hpoll =>
      rw [List.append_nil]
      cases h.polled hpoll with
      | takes _ _ htake => exact ((h.keyed.perm_values_of_takeFirst htake).map mark).symm.subperm
      | waits => exact .refl _

omit [Prioritized α] in
theorem entriesOf_append (xs ys : List (Except Error α)) :
    entriesOf (xs ++ ys) = entriesOf xs ++ entriesOf ys :=
  List.filterMap_append

/-- What was given out and what is queued was pushed, each at most as often as it was pushed. -/
theorem Reached.subperm [LawfulPrioritized α] {β : Type} {mark : α → β}
    (hmark : ∀ a p, mark (withPriority a p) = mark a) {pushed : List α}
    {given : List (Except Error α)} (h : Reached pushed given w) :
    ((entriesOf given ++ w.queue.entries.values).map mark).Subperm (pushed.map mark) := by
  induction h with
  | create => exact .refl _
  | @step pushed items given results w w' h hstep ih =>
      have hone := h.awake.subperm_of_happens hmark hstep
      rw [entriesOf_append]
      have hadded := (List.subperm_append_left ((entriesOf given).map mark)).2 hone
      have hbefore := (List.subperm_append_right (items.map mark)).2 ih
      simp only [List.map_append, List.append_assoc] at hadded hbefore ⊢
      exact hadded.trans hbefore

theorem Reached.turns {pushed : List α} {given : List (Except Error α)}
    (h : Reached pushed given w) (hturns : w.Turns order n results w') :
    Reached pushed (given ++ results) w' := by
  induction hturns generalizing given with
  | nil =>
      rw [List.append_nil]
      exact h
  | cons hpoll _ ih =>
      have hstep := h.step (.poll hpoll)
      rw [List.append_nil] at hstep
      rw [← List.append_assoc]
      exact ih hstep

theorem Reached.push {pushed : List α} {given : List (Except Error α)}
    (h : Reached pushed given w) (items : List α) :
    Reached (pushed ++ items) given { w with queue := w.queue.push items } := by
  have hstep := h.step (.push w items)
  rw [List.append_nil] at hstep
  exact hstep

/-! ## Pops neither miss nor duplicate -/

/-- Whatever turns the pops get, each gets at most one until none can go on; then the first entries
in order are given out, to as many pops. Giving all pops their turn, oldest first, is one way. -/
structure Fulfils (order : α → α → Ordering) (w : WaitingQueue α) (served : Nat) : Prop where
  bounded {n : Nat} {results : List (Except Error α)} {w' : WaitingQueue α}
    (h : w.Turns order n results w') : n ≤ w.waiting.length
  goesOn {n : Nat} {results : List (Except Error α)} {w' : WaitingQueue α}
    (h : w.Turns order n results w') :
    ∃ n' results' w'', w'.Turns order n' results' w'' ∧ w''.Settled
  settled {n : Nat} {results : List (Except Error α)} {w' : WaitingQueue α}
    (h : w.Turns order n results w') (hsettled : w'.Settled) :
    results = ((w.queue.items order).take served).map .ok ∧
      w'.queue.items order = (w.queue.items order).drop served ∧
      w'.waiting.length = w.waiting.length - served
  settle : ∃ n, w.Turns order n (w.settle order).1 (w.settle order).2 ∧ (w.settle order).2.Settled

theorem Awake.turns_settle (h : w.Awake) (order : α → α → Ordering) :
    ∃ n, w.Turns order n (w.settle order).1 (w.settle order).2 ∧
      (w.settle order).2.Settled := by
  obtain ⟨n, hn⟩ := turns_serve order w.queue w.waiting []
  exact ⟨n, hn, h.settled_settle order⟩

theorem Awake.fulfils [DispatchOrder order] (h : w.Awake) :
    w.Fulfils order (min w.waiting.length w.queue.size) where
  bounded hturns := by
    have hready := (h.delivers hturns).ready
    have hle : w.ready ≤ w.waiting.length := List.countP_le_length
    omega
  goesOn hturns := by
    obtain ⟨n, hn⟩ := (h.delivers hturns).awake.turns_settle order
    exact ⟨n, _, _, hn⟩
  settled hturns hsettled := (h.delivers hturns).settled hsettled
  settle := h.turns_settle order

/-- A reset wakes all pops. -/
theorem Awake.canPop_reset (h : w.Awake) {point : PopPoint} (hpoint : point ∈ w.waiting) :
    w.queue.reset.canPop point = true := by
  cases point with
  | fresh => rfl
  | waiting wakeups =>
      have hle := h.seen wakeups hpoint
      have hne : w.queue.wakeups + 1 ≠ wakeups := by omega
      simpa [Queue.canPop, Queue.reset] using hne

/-- Whatever was done to a blocking queue, with any number of pops waiting and in whatever order
they got their turns: once none of them can go on, some are left only if the queue is empty. After a
push the pops get the first entries in order, one entry each as long as there are any, and a reset
wakes all pops and ends none. Nothing is given out more often than it was pushed, no matter by what
entries are told apart. -/
theorem blocking_pops [LawfulPrioritized α] {pushed : List α} {given : List (Except Error α)}
    (h : Reached pushed given w) :
    (w.Settled → w.waiting ≠ [] → w.queue.isEmpty = true) ∧
      (∀ (order : α → α → Ordering) [DispatchOrder order] (items : List α),
        Fulfils order { w with queue := w.queue.push items }
          (min w.waiting.length (w.queue.push items).size)) ∧
      (∀ point ∈ w.waiting, w.queue.reset.canPop point = true) ∧
      (∀ (order : α → α → Ordering) [DispatchOrder order],
        Fulfils order { w with queue := w.queue.reset } 0) ∧
      ∀ (β : Type) (mark : α → β), (∀ a p, mark (withPriority a p) = mark a) →
        ((entriesOf given ++ w.queue.entries.values).map mark).Subperm (pushed.map mark) := by
  refine ⟨fun hsettled hw => ?_, fun order _ items => ?_, fun point => h.awake.canPop_reset,
    fun order _ => ?_, fun β mark hmark => h.subperm hmark⟩
  · unfold Queue.isEmpty
    rw [h.awake.entries_of_settled hsettled hw]
    rfl
  · exact (h.push items).awake.fulfils
  · have hawake : Awake { w with queue := w.queue.reset } := h.awake.of_happens (.reset w)
    have hempty : w.queue.reset.size = 0 := rfl
    rw [← Nat.min_zero w.waiting.length, ← hempty]
    exact hawake.fulfils

end

/-- Three pops that found the queue empty. -/
def threeBlocked : WaitingQueue Ticket :=
  ⟨Queue.create true, [.waiting 0, .waiting 0, .waiting 0]⟩

theorem reached_threeBlocked : Reached [] [] threeBlocked := by
  have hasked : Reached [] [] ⟨(Queue.create true : Queue Ticket), [.fresh, .fresh, .fresh]⟩ :=
    ((Reached.create.step (.ask _)).step (.ask _)).step (.ask _)
  obtain ⟨n, hn, -⟩ := hasked.awake.turns_settle byPriority
  exact hasked.turns hn

/-- A batch of which one entry takes the place of another serves two of the three pops. -/
theorem blocking_pops_threeBlocked :
    Reached [] [] threeBlocked ∧
      ∀ (n : Nat) (results : List (Except Error Ticket)) (w : WaitingQueue Ticket),
        Turns byPriority
          { threeBlocked with queue := threeBlocked.queue.push [⟨"b", 2⟩, ⟨"a", 1⟩, ⟨"b", 0⟩] }
          n results w → w.Settled →
            results = [.ok ⟨"b", 0⟩, .ok ⟨"a", 1⟩] ∧ w.waiting.length = 1 := by
  refine ⟨reached_threeBlocked, fun n results w hturns hsettled => ?_⟩
  have hfulfils := (blocking_pops reached_threeBlocked).2.1 byPriority
    [⟨"b", 2⟩, ⟨"a", 1⟩, ⟨"b", 0⟩]
  obtain ⟨m, hm, hmsettled⟩ := hfulfils.settle
  obtain ⟨hresults, -, hlength⟩ := hfulfils.settled hturns hsettled
  obtain ⟨hsame, -, -⟩ := hfulfils.settled hm hmsettled
  exact ⟨hresults.trans hsame.symm, hlength⟩

end WaitingQueue

end Scheduling
