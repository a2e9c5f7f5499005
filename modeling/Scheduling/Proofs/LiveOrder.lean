import Mathlib.Data.Set.Function
import Mathlib.Order.Defs.Unbundled
import Scheduling.Proofs.BlockingPops
import Scheduling.Proofs.Histories
import Scheduling.Proofs.QueueAccess
/-!
# Plans in the order of their live tasks

The order in which a queue gives out its plans is read off the states of their tasks at the moment
it is asked, and those change while the plans are queued. In any fixed states it is a total order of
the plans of different keys, so whatever happened before, there is one plan that is first at the
moment of a pop. What came into a queue has left it in one of three ways or is still in it, and as
long as no task changes its state the pops give out what the queue lists.
-/

namespace Scheduling

/-! ## The order in fixed states -/

namespace Plan

variable {states : TaskId → State} {a b : Plan}

/-- The order of dispatch while the tasks are in some states. -/
def orderIn (states : TaskId → State) : Plan → Plan → Ordering :=
  order fun t => (states t).phase

variable (states a b) in
/-- A plan comes before another while the tasks are in some states: its task has got less far, or
its priority is the lower number, or its task is older, or its key has the smaller bytes; each of
these counts only if the plans agree in those before. -/
def Before : Prop :=
  (states a.task).phase < (states b.task).phase ∨ (states a.task).phase = (states b.task).phase ∧
    (a.priority < b.priority ∨ a.priority = b.priority ∧
      (a.createdAt.nanos < b.createdAt.nanos ∨ a.createdAt.nanos = b.createdAt.nanos ∧
        bytes a.key < bytes b.key))

theorem orderIn_eq_lt_iff : orderIn states a b = .lt ↔ a.Before states b := by
  unfold orderIn order Before
  rw [Ordering.then_eq_lt, Ordering.then_eq_lt, Ordering.then_eq_lt, compare_eq_lt_iff]
  simp only [Std.compare_eq_lt, Std.compare_eq_iff_eq]

instance : DispatchOrder (orderIn states) :=
  inferInstanceAs (DispatchOrder (order fun t => (states t).phase))

theorem orderIn_eq_gt_iff : orderIn states a b = .gt ↔ b.Before states a := by
  rw [← orderIn_eq_lt_iff, Std.OrientedCmp.gt_iff_lt]

/-- Plans of different keys are in a strict total order. -/
theorem isStrictTotalOrder_orderIn (states : TaskId → State) {plans : Set Plan}
    (h : plans.InjOn Plan.key) :
    IsStrictTotalOrder plans fun a b => orderIn states a b = .lt where
  irrefl a ha := by
    have hself : orderIn states (a : Plan) a = .eq := Std.ReflCmp.compare_self
    rw [hself] at ha
    cases ha
  trans _ _ _ := Std.TransCmp.lt_trans
  trichotomous a b hab hba := by
    refine Subtype.ext (h a.2 b.2 ?_)
    cases heq : orderIn states (a : Plan) b with
    | lt => exact absurd heq hab
    | eq => exact key_eq_of_order_eq heq
    | gt => exact absurd (Std.OrientedCmp.gt_iff_lt.1 heq) hba

/-- A plan but for its priority. -/
def bare (p : Plan) : Plan := { p with priority := 0 }

end Plan

namespace System

theorem planOrder_eq (y : System) : y.planOrder = Plan.orderIn y.state := rfl

end System

namespace Queue

/-! ## What a pop gives -/

section

variable {α : Type} [Prioritized α]

/-- An entry that comes before all others of a queue. -/
def First (q : Queue α) (order : α → α → Ordering) (a : α) : Prop :=
  a ∈ q.entries.values ∧ ∀ b ∈ q.entries.values, b ≠ a → order a b = .lt

/-- What a pop gives: the one entry that comes before all others, or an error if there is no
entry. -/
inductive Gives (q : Queue α) (order : α → α → Ordering) : Except Error α → Prop
  | first {a : α} (h : ∀ b, q.First order b ↔ b = a) : Gives q order (.ok a)
  | empty (h : q.isEmpty = true) : Gives q order (.error emptyError)

variable {q q' : Queue α} {order : α → α → Ordering}

omit [Prioritized α] in
theorem isEmpty_iff : q.isEmpty = true ↔ q.entries.values = [] := by
  unfold isEmpty Registry.isEmpty Registry.values
  rw [List.isEmpty_iff, List.map_eq_nil_iff]

theorem isEmpty_of_takeFirst_eq_none (h : q.takeFirst order = none) : q.isEmpty = true :=
  isEmpty_iff.2 (least?_eq_none_iff.1 (Option.map_eq_none_iff.1 h))

variable [DispatchOrder order]

/-- Only one entry comes before all others. -/
theorem First.unique {a b : α} (ha : q.First order a) (hb : q.First order b) : a = b := by
  by_contra hne
  have hab : order a b = .lt := ha.2 b hb.1 fun h => hne h.symm
  have hba : order b a = .lt := hb.2 a ha.1 hne
  have hswap : order a b = (order b a).swap := Std.OrientedCmp.eq_swap
  rw [hab, hba] at hswap
  cases hswap

theorem Keyed.first_of_takeFirst {a : α} (h : q.Keyed)
    (htake : q.takeFirst order = some (a, q')) : q.First order a := by
  have ha := (mem_of_takeFirst htake).1
  refine ⟨ha, fun b hb hne => ?_⟩
  refine DispatchOrder.lt_of_isLE (isLE_of_takeFirst htake hb) fun hkey => hne ?_
  have hlookup := (h.mem_values_iff b).1 hb
  rw [← hkey, (h.mem_values_iff a).1 ha] at hlookup
  exact (Option.some.inj hlookup).symm

theorem Keyed.gives_tryPop (h : q.Keyed) : q.Gives order (q.tryPop order).1 := by
  cases htake : q.takeFirst order with
  | none =>
      rw [tryPop_of_takeFirst_eq_none htake]
      exact .empty (isEmpty_of_takeFirst_eq_none htake)
  | some made =>
      rw [tryPop_of_takeFirst htake]
      have hfirst := h.first_of_takeFirst htake
      refine .first fun b => ⟨fun hb => hb.unique hfirst, ?_⟩
      rintro rfl
      exact hfirst

end

/-! ## Pops of plans -/

/-- The answer of the pop that ends with an access. -/
def Access.answers : Access → List (Except Error Plan)
  | .pop answer => [answer]
  | _ => []

/-- The plans among some answers. -/
def plansOf (answers : List (Except Error Plan)) : List Plan := answers.filterMap Except.toOption

theorem plansOf_append (xs ys : List (Except Error Plan)) :
    plansOf (xs ++ ys) = plansOf xs ++ plansOf ys :=
  List.filterMap_append

/-- While plans are only popped, a queue lists those that are given out before those that are
left. -/
theorem Serves.items_eq {q q' : Queue Plan} {order : Plan → Plan → Ordering} [DispatchOrder order]
    {access : Access} (h : q.Serves order access q') (hq : q.Keyed)
    (hpops : access = .none ∨ ∃ answer, access = .pop answer) :
    q.items order = plansOf access.answers ++ q'.items order := by
  obtain rfl | ⟨answer, rfl⟩ := hpops
  · cases h
    rfl
  · cases h
    cases htake : q.takeFirst order with
    | none =>
        rw [tryPop_of_takeFirst_eq_none htake]
        rfl
    | some made =>
        rw [tryPop_of_takeFirst htake]
        exact hq.items_of_takeFirst htake

/-! ## What comes into a queue and leaves it -/

/-- How a plan leaves a queue. -/
inductive Exit
  | popped
  /-- Another plan of its key was pushed. -/
  | replaced
  | removed
deriving DecidableEq

/-- A plan comes into a queue or leaves it. -/
inductive Passage
  | enters (plan : Plan)
  | leaves (plan : Plan) (exit : Exit)
deriving DecidableEq

namespace Passage

def entering? : Passage → Option Plan
  | enters p => some p
  | leaves _ _ => none

def leaving? : Passage → Option Plan
  | enters _ => none
  | leaves p _ => some p

def popped? : Passage → Option Plan
  | leaves p .popped => some p
  | _ => none

end Passage

/-- The plans of a key that came into a queue. -/
def entered (k : String) (seen : List Passage) : List Plan :=
  (seen.filterMap Passage.entering?).filter (·.key = k)

/-- The plans of a key that left a queue. -/
def left (k : String) (seen : List Passage) : List Plan :=
  (seen.filterMap Passage.leaving?).filter (·.key = k)

/-- The plan of a key leaves, if there is one. -/
def leaving (es : Registry String Plan) (k : String) (exit : Exit) : List Passage :=
  (es.get? k).toList.map (.leaves · exit)

/-- Plans are pushed one after the other, each in place of the one of its key. -/
def pushPassages (es : Registry String Plan) : List Plan → List Passage
  | [] => []
  | p :: plans => leaving es p.key .replaced ++ .enters p :: pushPassages (es.insert p.key p) plans

/-- What comes into a queue and what leaves it when it is accessed. -/
def Access.passages (q : Queue Plan) : Access → List Passage
  | .push plans => pushPassages q.entries plans
  | .pop (.ok p) => [.leaves p .popped]
  | .remove k => leaving q.entries k .removed
  | .none | .pop (.error _) | .update _ => []

variable {q q' : Queue Plan} {order : Plan → Plan → Ordering} {access : Access}
  {seen seen' : List Passage} {es es' es'' : Registry String Plan} {k : String}

theorem entered_append : entered k (seen ++ seen') = entered k seen ++ entered k seen' := by
  unfold entered
  rw [List.filterMap_append, List.filter_append]

theorem left_append : left k (seen ++ seen') = left k seen ++ left k seen' := by
  unfold left
  rw [List.filterMap_append, List.filter_append]

/-- The plans of each key leave in the order in which they come: those that were there and those
that came are those that left and the one that is still there. -/
def Accounts (es : Registry String Plan) (seen : List Passage)
    (es' : Registry String Plan) : Prop :=
  ∀ k, ((es.get? k).toList ++ entered k seen).map Plan.bare =
    (left k seen ++ (es'.get? k).toList).map Plan.bare

theorem Accounts.append (h : Accounts es seen es') (h' : Accounts es' seen' es'') :
    Accounts es (seen ++ seen') es'' := by
  intro k
  have hk := h k
  have hk' := h' k
  simp only [List.map_append] at hk hk' ⊢
  rw [entered_append, left_append, List.map_append, List.map_append, ← List.append_assoc, hk,
    List.append_assoc, hk', List.append_assoc]

/-- Nothing comes or leaves, and a plan may get another priority. -/
theorem accounts_of_bare_eq
    (h : ∀ k, (es'.get? k).map Plan.bare = (es.get? k).map Plan.bare) : Accounts es [] es' := by
  intro k
  have hk := congrArg Option.toList (h k)
  rw [Option.toList_map, Option.toList_map] at hk
  simp only [entered, left, List.filterMap_nil, List.filter_nil, List.append_nil, List.nil_append]
  exact hk.symm

/-- A plan comes under a key that is free. -/
theorem accounts_enters {p : Plan} (hfree : es.get? p.key = none)
    (h : ∀ k, es'.get? k = if k = p.key then some p else es.get? k) :
    Accounts es [.enters p] es' := by
  intro k
  rw [h]
  by_cases hk : k = p.key
  · subst hk
    simp [hfree, entered, left, Passage.entering?, Passage.leaving?]
  · have hne : ¬ p.key = k := fun heq => hk heq.symm
    simp [hk, hne, entered, left, Passage.entering?, Passage.leaving?]

theorem accounts_leaving (hes : ∀ (k : String) (p : Plan), es.get? k = some p → p.key = k)
    (k : String) (exit : Exit) : Accounts es (leaving es k exit) (es.erase k) := by
  intro k'
  rw [Registry.get?_erase]
  unfold leaving
  cases hp : es.get? k with
  | none =>
      by_cases hk : k' = k
      · subst hk
        simp [hp, entered, left]
      · simp [hk, entered, left]
  | some p =>
      have hkey := hes k p hp
      by_cases hk : k' = k
      · subst hk
        simp [hp, hkey, entered, left, Passage.entering?, Passage.leaving?]
      · have hne : ¬ k = k' := fun heq => hk heq.symm
        simp [hk, hkey, hne, entered, left, Passage.entering?, Passage.leaving?]

theorem accounts_push (hes : ∀ (k : String) (p : Plan), es.get? k = some p → p.key = k)
    (plans : List Plan) :
    Accounts es (pushPassages es plans) (plans.foldl (fun es p => es.insert p.key p) es) := by
  induction plans generalizing es with
  | nil => exact accounts_of_bare_eq fun _ => rfl
  | cons p plans ih =>
      have hfree : (es.erase p.key).get? p.key = none := by rw [Registry.get?_erase, if_pos rfl]
      have henters : Accounts (es.erase p.key) [.enters p] (es.insert p.key p) := by
        refine accounts_enters hfree fun k => ?_
        rw [Registry.get?_insert, Registry.get?_erase]
        split <;> rfl
      have hkeyed (k : String) (a : Plan) (ha : (es.insert p.key p).get? k = some a) :
          a.key = k := by
        rw [Registry.get?_insert] at ha
        split at ha
        · rename_i hk
          cases ha
          exact hk.symm
        · exact hes k a ha
      exact (accounts_leaving hes p.key .replaced).append (henters.append (ih hkeyed))

theorem popped_leaving (es : Registry String Plan) (k : String) (exit : Exit)
    (h : exit ≠ .popped) : (leaving es k exit).filterMap Passage.popped? = [] := by
  refine List.filterMap_eq_nil_iff.2 fun passage hpassage => ?_
  obtain ⟨p, -, rfl⟩ := List.mem_map.1 hpassage
  cases exit with
  | popped => exact absurd rfl h
  | replaced | removed => rfl

theorem popped_pushPassages (es : Registry String Plan) (plans : List Plan) :
    (pushPassages es plans).filterMap Passage.popped? = [] := by
  induction plans generalizing es with
  | nil => rfl
  | cons p plans ih =>
      rw [pushPassages, List.filterMap_append, popped_leaving es p.key .replaced (by decide),
        List.nil_append]
      exact ih _

/-- The plans that leave because they are popped are those that are given out. -/
theorem Access.popped_passages (access : Access) (q : Queue Plan) :
    (access.passages q).filterMap Passage.popped? = plansOf access.answers := by
  cases access with
  | push plans => exact popped_pushPassages q.entries plans
  | pop answer => cases answer <;> rfl
  | remove k => exact popped_leaving q.entries k .removed (by decide)
  | none | update => rfl

/-- Whatever is done to a queue, its plans are accounted for. -/
theorem Serves.accounts (h : q.Serves order access q') (hq : q.Keyed) :
    Accounts q.entries (access.passages q) q'.entries := by
  cases h with
  | none => exact accounts_of_bare_eq fun _ => rfl
  | push plans => exact accounts_push hq plans
  | pop =>
      cases htake : q.takeFirst order with
      | none =>
          rw [tryPop_of_takeFirst_eq_none htake]
          exact accounts_of_bare_eq fun _ => rfl
      | some made =>
          obtain ⟨p, rest⟩ := made
          obtain ⟨hmem, hrest⟩ := mem_of_takeFirst htake
          have hget : q.entries.get? p.key = some p := by
            rw [← lookup_contents]
            exact (hq.mem_values_iff p).1 hmem
          have hleaves := accounts_leaving hq p.key .popped
          rw [leaving, hget] at hleaves
          rw [tryPop_of_takeFirst htake, hrest]
          exact hleaves
  | update plan =>
      refine accounts_of_bare_eq fun k => ?_
      unfold Queue.update
      split
      · dsimp only
        rw [Registry.get?_modify]
        split
        · rename_i hk
          rw [hk, Option.map_map]
          rfl
        · rfl
      · rfl
  | remove k => exact accounts_leaving hq k .removed

end Queue

/-- Whether a step pushes plans to the queue `i`, updates one of them or removes one. -/
def Step.alters (i : QueueId) : Step → Bool
  | .request (.push k _) | .request (.update k _) | .request (.removeQueued k _) => k == i
  | _ => false

namespace System

variable {y z : System} {a : Step} {i : QueueId} {q q' : Queue Plan} {steps : List Step}
  {seen : List Queue.Passage}

/-! ## Every run -/

/-- The answer of a pop of the queue `i` that ends in a step, with the system at that moment. -/
def seeAnswer (i : QueueId) (y : System) (a : Step) (z : System) :
    List (System × Except Error Plan) :=
  (y.access i a z).answers.map fun answer => (y, answer)

theorem map_snd_seeAnswer (i : QueueId) (y : System) (a : Step) (z : System) :
    (seeAnswer i y a z).map Prod.snd = (y.access i a z).answers := by
  unfold seeAnswer
  rw [List.map_map]
  exact List.map_id _

/-- The answers of the pops of the queue `i` that end in a run. -/
def answers (i : QueueId) (y : System) (steps : List Step) : List (System × Except Error Plan) :=
  y.observe (fun _ _ => true) (seeAnswer i) steps

/-- What comes into the queue `i` and what leaves it in a step. -/
def seePassages (i : QueueId) (y : System) (a : Step) (z : System) : List Queue.Passage :=
  (y.queues[i]?.map (y.access i a z).passages).getD []

/-- What comes into the queue `i` and what leaves it in a run. -/
def passages (i : QueueId) (y : System) (steps : List Step) : List Queue.Passage :=
  y.observe (fun _ _ => true) (seePassages i) steps

/-- What is in the queue `i` is what came into it and has not left it, each plan under its key. -/
structure AccountsFor (i : QueueId) (y : System) (seen : List Queue.Passage) : Prop where
  absent : y.queues[i]? = none → seen = []
  keyed : ∀ q, y.queues[i]? = some q → q.Keyed
  accounts : ∀ q, y.queues[i]? = some q → Queue.Accounts Registry.empty seen q.entries

theorem accountsFor_create (i : QueueId) (origin : Int) : AccountsFor i (create origin) [] where
  absent _ := rfl
  keyed q hq := by simp [create] at hq
  accounts q hq := by simp [create] at hq

theorem AccountsFor.step (hy : AccountsFor i y seen) (h : y.step? a = some z) :
    AccountsFor i z (seen ++ seePassages i y a z) := by
  unfold seePassages
  cases hq : y.queues[i]? with
  | none =>
      obtain ⟨-, hnew⟩ := access_of_absent h hq
      have hseen : seen ++ ([] : List Queue.Passage) = [] := by rw [hy.absent hq, List.append_nil]
      rw [Option.map_none, Option.getD_none, hseen]
      refine ⟨fun _ => rfl, fun q hz => Queue.keyed_of_empty (hnew q hz), fun q hz => ?_⟩
      rw [hnew q hz]
      exact Queue.accounts_of_bare_eq fun _ => rfl
  | some q =>
      obtain ⟨q', hz, hserves⟩ := serves_of_step h hq
      have hkeyed := hy.keyed q hq
      have haccounts := (hy.accounts q hq).append (hserves.accounts hkeyed)
      refine ⟨fun hnone => ?_, fun r hr => ?_, fun r hr => ?_⟩
      · rw [hz] at hnone
        cases hnone
      · obtain rfl := Option.some.inj (hz.symm.trans hr)
        exact hserves.keyed hkeyed
      · obtain rfl := Option.some.inj (hz.symm.trans hr)
        exact haccounts

theorem AccountsFor.run (h : AccountsFor i y seen) (steps : List Step) :
    AccountsFor i (y.run (fun _ _ => true) steps) (seen ++ y.passages i steps) :=
  observe_induction (fun _ _ _ _ _ hz hy => hy.step hz) h steps

theorem popped_seePassages (h : y.step? a = some z) (i : QueueId) :
    (seePassages i y a z).filterMap Queue.Passage.popped? =
      Queue.plansOf ((seeAnswer i y a z).map Prod.snd) := by
  rw [map_snd_seeAnswer]
  unfold seePassages
  cases hq : y.queues[i]? with
  | none =>
      rw [(access_of_absent h hq).1]
      rfl
  | some q => exact Queue.Access.popped_passages _ q

theorem popped_passages (i : QueueId) (y : System) (steps : List Step) :
    (y.passages i steps).filterMap Queue.Passage.popped? =
      Queue.plansOf ((y.answers i steps).map Prod.snd) := by
  induction steps generalizing y with
  | nil => rfl
  | cons a steps ih =>
      unfold passages answers at ih ⊢
      cases hnext : y.next? (fun _ _ => true) a with
      | none =>
          rw [observe_cons_of_none hnext, observe_cons_of_none hnext]
          exact ih y
      | some z =>
          rw [observe_cons_of_some hnext, observe_cons_of_some hnext, List.filterMap_append,
            List.map_append, Queue.plansOf_append, ih z,
            popped_seePassages (next?_eq_some_iff.1 hnext).2]

/-- Each pop that ends gives the plan that is first at that moment. -/
theorem gives_of_mem_answers {x : System × Except Error Plan} {origin : Int}
    (hx : x ∈ (create origin).answers i steps) :
    ∃ q, x.1.queues[i]? = some q ∧ q.Gives (Plan.orderIn x.1.state) x.2 := by
  obtain ⟨past, rest, a, z, -, hz, hx⟩ := exists_of_mem_observe hx
  have hstep := (next?_eq_some_iff.1 hz).2
  have hpast := (accountsFor_create i origin).run past
  generalize (create origin).run (fun _ _ => true) past = y at hx hstep hpast
  unfold seeAnswer at hx
  cases hq : y.queues[i]? with
  | none =>
      rw [(access_of_absent hstep hq).1] at hx
      cases hx
  | some q =>
      obtain ⟨q', -, hserves⟩ := serves_of_step hstep hq
      cases haccess : y.access i a z with
      | pop answer =>
          rw [haccess] at hx hserves
          obtain rfl := List.mem_singleton.1 hx
          cases hserves
          exact ⟨q, hq, (hpast.keyed q hq).gives_tryPop⟩
      | _ =>
          rw [haccess] at hx
          cases hx

/-! ## Runs in which no task changes its state -/

/-- No task changes its state in a run, and the plans of the queue `i` are only popped. -/
structure Undisturbed (i : QueueId) (y : System) (steps : List Step) : Prop where
  states : ∀ past, past <+: steps → (y.run (fun _ _ => true) past).state = y.state
  alters : ∀ a ∈ steps, a.alters i = false

theorem Undisturbed.of_none (h : Undisturbed i y (a :: steps))
    (hnext : y.next? (fun _ _ => true) a = none) : Undisturbed i y steps where
  states past hpast := by
    rw [← h.states (a :: past) ((List.prefix_cons_inj a).2 hpast), run_cons_of_none hnext]
  alters b hb := h.alters b (List.mem_cons_of_mem a hb)

theorem Undisturbed.of_some (h : Undisturbed i y (a :: steps))
    (hnext : y.next? (fun _ _ => true) a = some z) :
    z.state = y.state ∧ Undisturbed i z steps := by
  have hstates (past : List Step) (hpast : past <+: steps) :
      (z.run (fun _ _ => true) past).state = y.state := by
    rw [← h.states (a :: past) ((List.prefix_cons_inj a).2 hpast), run_cons_of_some hnext]
  have hsame : z.state = y.state := hstates [] List.nil_prefix
  exact ⟨hsame, fun past hpast => (hstates past hpast).trans hsame.symm,
    fun b hb => h.alters b (List.mem_cons_of_mem a hb)⟩

theorem access_of_alters_eq_false (h : a.alters i = false) (y z : System) :
    y.access i a z = .none ∨ ∃ answer, y.access i a z = .pop answer := by
  have hother {access : Queue.Access} {k : QueueId} (h : (k == i) = false) :
      (if k = i then access else .none) = .none := if_neg (ne_of_beq_false h)
  have hpop (answer : Except Error Plan) (k : QueueId) :
      (if k = i then Queue.Access.pop answer else .none) = .none ∨
        ∃ answer', (if k = i then Queue.Access.pop answer else .none) = .pop answer' := by
    split
    · exact .inr ⟨answer, rfl⟩
    · exact .inl rfl
  unfold access
  split
  · exact .inl (hother h)
  · split
    · exact hpop _ _
    · exact .inl rfl
  · exact .inl (hother h)
  · exact .inl (hother h)
  · split
    · exact hpop _ _
    · exact .inl rfl
  · exact .inl rfl

/-- While no task changes its state and plans are only popped, they are given out as they are
listed. -/
theorem items_of_undisturbed (hq : y.queues[i]? = some q) (hkeyed : q.Keyed)
    (h : Undisturbed i y steps) (hq' : (y.run (fun _ _ => true) steps).queues[i]? = some q') :
    q.items (Plan.orderIn y.state) =
      Queue.plansOf ((y.answers i steps).map Prod.snd) ++ q'.items (Plan.orderIn y.state) := by
  induction steps generalizing y q with
  | nil =>
      obtain rfl := Option.some.inj (hq.symm.trans hq')
      rfl
  | cons a steps ih =>
      cases hnext : y.next? (fun _ _ => true) a with
      | none =>
          rw [run_cons_of_none hnext] at hq'
          rw [answers, observe_cons_of_none hnext]
          exact ih hq hkeyed (h.of_none hnext) hq'
      | some z =>
          rw [run_cons_of_some hnext] at hq'
          rw [answers, observe_cons_of_some hnext]
          obtain ⟨r, hr, hserves⟩ := serves_of_step (next?_eq_some_iff.1 hnext).2 hq
          obtain ⟨hsame, hlater⟩ := h.of_some hnext
          have hrest := ih hr (hserves.keyed hkeyed) hlater hq'
          have hpops := access_of_alters_eq_false (h.alters a List.mem_cons_self) y z
          rw [planOrder_eq] at hserves
          rw [hsame] at hrest
          rw [hserves.items_eq hkeyed hpops, hrest, List.map_append, map_snd_seeAnswer,
            Queue.plansOf_append, List.append_assoc]
          rfl

/-- A pop that is asked for is answered at once, and changes nothing but the queue. -/
theorem exists_step_tryPop (hq : y.queues[i]? = some q) :
    ∃ z, y.next? (fun _ _ => true) (.request (.tryPop i)) = some z ∧ z.state = y.state ∧
      z.queues[i]? = some (q.tryPop (Plan.orderIn y.state)).2 ∧
      seeAnswer i y (.request (.tryPop i)) z = [(y, (q.tryPop (Plan.orderIn y.state)).1)] := by
  have hlt : i < y.queues.size := (Array.getElem?_eq_some_iff.1 hq).1
  have haccepts : y.accepts (.tryPop i) = true := decide_eq_true hlt
  refine ⟨y.carryOut (.tryPop i), next?_eq_some_iff.2 ⟨rfl, step_request_iff.2 ⟨haccepts, rfl⟩⟩,
    rfl, ?_, ?_⟩
  · have hmodify : (y.carryOut (.tryPop i)).queues =
        y.queues.modify i fun q => (q.tryPop y.planOrder).2 := rfl
    rw [hmodify, Array.getElem?_modify, if_pos rfl, hq]
    rfl
  · simp only [seeAnswer, access, hq, if_pos]
    rfl

/-- As many pops as there are plans, one after the other, give them out as they are listed. -/
theorem drain (hq : y.queues[i]? = some q) (hkeyed : q.Keyed) :
    (y.answers i (List.replicate q.size (.request (.tryPop i)))).map Prod.snd =
        (q.items (Plan.orderIn y.state)).map .ok ∧
      ∃ q', (y.run (fun _ _ => true)
        (List.replicate q.size (.request (.tryPop i)))).queues[i]? = some q' ∧
          q'.isEmpty = true := by
  generalize hn : q.size = n
  induction n generalizing y q with
  | zero =>
      have hnil := List.length_eq_zero_iff.1 ((q.length_items (Plan.orderIn y.state)).trans hn)
      rw [hnil]
      exact ⟨rfl, q, hq, List.isEmpty_iff_length_eq_zero.2 hn⟩
  | succ n ih =>
      obtain ⟨z, hnext, hsame, hz, hanswer⟩ := exists_step_tryPop hq
      cases htake : q.takeFirst (Plan.orderIn y.state) with
      | none =>
          have hempty := Queue.isEmpty_of_takeFirst_eq_none htake
          rw [Queue.isEmpty, Registry.isEmpty, List.isEmpty_iff_length_eq_zero] at hempty
          exact absurd (hn.symm.trans hempty) (Nat.succ_ne_zero n)
      | some made =>
          obtain ⟨p, r⟩ := made
          rw [Queue.tryPop_of_takeFirst htake] at hz hanswer
          have hitems := hkeyed.items_of_takeFirst htake
          have hr : r.size = n := by
            have hlength := congrArg List.length hitems
            rw [List.length_cons, Queue.length_items, Queue.length_items, hn] at hlength
            exact (Nat.succ.inj hlength).symm
          obtain ⟨hrest, hend⟩ := ih hz (hkeyed.of_takeFirst htake) hr
          rw [List.replicate_succ, answers, observe_cons_of_some hnext, run_cons_of_some hnext,
            hanswer, hitems]
          rw [hsame] at hrest
          exact ⟨congrArg (Except.ok p :: ·) hrest, hend⟩

/-- While no task changes its state, pops of the queue `i` give out what it lists: whatever else
happens meanwhile, and all of it if there are as many pops as plans. -/
structure DrainsAsListed (i : QueueId) (y : System) (q : Queue Plan) : Prop where
  undisturbed : ∀ (later : List Step) (q' : Queue Plan), Undisturbed i y later →
    (y.run (fun _ _ => true) later).queues[i]? = some q' →
      q.items (Plan.orderIn y.state) =
        Queue.plansOf ((y.answers i later).map Prod.snd) ++ q'.items (Plan.orderIn y.state)
  drain : (y.answers i (List.replicate q.size (.request (.tryPop i)))).map Prod.snd =
      (q.items (Plan.orderIn y.state)).map .ok ∧
    ∃ q', (y.run (fun _ _ => true)
      (List.replicate q.size (.request (.tryPop i)))).queues[i]? = some q' ∧ q'.isEmpty = true

/-- In any fixed states of the tasks the order of dispatch goes by state, priority, time of creation
and key, takes only plans of the same key for equal and is a strict total order on plans of
different keys. Whatever happens to the tasks and to a queue, each pop gives the one plan of the
queue that is first in the states of that moment; each plan that came into the queue was popped,
replaced or removed or is still there; and from then on, as long as no task changes its state, pops
give out what the queue lists. -/
theorem pops_in_live_order (origin : Int) (steps : List Step) (i : QueueId) :
    (∀ states : TaskId → State,
      (∀ a b : Plan, (Plan.orderIn states a b = .lt ↔ a.Before states b) ∧
        (Plan.orderIn states a b = .gt ↔ b.Before states a) ∧
        (Plan.orderIn states a b = .eq → a.key = b.key)) ∧
      ∀ plans : Set Plan, plans.InjOn Plan.key →
        IsStrictTotalOrder plans fun a b => Plan.orderIn states a b = .lt) ∧
    (∀ x ∈ (create origin).answers i steps,
      ∃ q, x.1.queues[i]? = some q ∧ q.Gives (Plan.orderIn x.1.state) x.2) ∧
    ((create origin).passages i steps).filterMap Queue.Passage.popped? =
      Queue.plansOf (((create origin).answers i steps).map Prod.snd) ∧
    ∀ q, ((create origin).run (fun _ _ => true) steps).queues[i]? = some q →
      Queue.Accounts Registry.empty ((create origin).passages i steps) q.entries ∧
      DrainsAsListed i ((create origin).run (fun _ _ => true) steps) q := by
  refine ⟨fun states => ⟨fun a b => ?_, fun plans => Plan.isStrictTotalOrder_orderIn states⟩,
    fun x => gives_of_mem_answers, popped_passages i (create origin) steps, fun q hq => ?_⟩
  · exact ⟨Plan.orderIn_eq_lt_iff, Plan.orderIn_eq_gt_iff, Plan.key_eq_of_order_eq⟩
  · have haccounts := (accountsFor_create i origin).run steps
    have hkeyed := haccounts.keyed q hq
    exact ⟨haccounts.accounts q hq,
      fun later q' => items_of_undisturbed hq hkeyed, drain hq hkeyed⟩

/-- A plan of the task with a number and an identifier. -/
def planOf (t : TaskId) (id : String) (priority : Int) : Plan :=
  ⟨t, id, ⟨0⟩, 0, none, priority, false, none⟩

/-- Of three queued plans the one with the lowest number is behind once its task has been started,
and so is another that gets the lowest number later; one is replaced and one is removed. -/
def interleavedSteps : List Step :=
  [.request .newContext, .request (.newTask "a" [] fun _ => []),
    .request (.newTask "b" [] fun _ => []), .request (.newTask "c" [] fun _ => []),
    .request (.newQueue false),
    .request (.push 0 [planOf 2 "c" 1, planOf 0 "a" (-1), planOf 1 "b" 0]),
    .request (.startTask 0 0), .request (.tryPop 0), .request (.update 0 (planOf 2 "c" (-5))),
    .move (.run 0) 0, .move (.run 0) 0, .move (.run 0) 0,
    .request (.push 0 [planOf 1 "b" 5, planOf 1 "b" 7]), .request (.startTask 2 0),
    .request (.tryPop 0), .request (.removeQueued 0 "a")]

/-- What is left of the three plans is given out next. -/
theorem pops_in_live_order_interleavedSteps :
    (create 0).passages 0 interleavedSteps =
        [.enters (planOf 2 "c" 1), .enters (planOf 0 "a" (-1)), .enters (planOf 1 "b" 0),
          .leaves (planOf 1 "b" 0) .popped, .enters (planOf 1 "b" 5),
          .leaves (planOf 1 "b" 5) .replaced, .enters (planOf 1 "b" 7),
          .leaves (planOf 1 "b" 7) .popped, .leaves (planOf 0 "a" (-1)) .removed] ∧
      (((create 0).run (fun _ _ => true) interleavedSteps).answers 0
        [.request (.tryPop 0)]).map Prod.snd = [.ok (planOf 2 "c" (-5))] := by
  refine ⟨by decide +kernel, ?_⟩
  have hentries : (((create 0).run (fun _ _ => true) interleavedSteps).queues[0]?.map fun q =>
      q.entries.entries) = some [("c", planOf 2 "c" (-5))] := by decide +kernel
  obtain ⟨q, hq, hentry⟩ := Option.map_eq_some_iff.1 hentries
  obtain ⟨-, hdrains⟩ := (pops_in_live_order 0 interleavedSteps 0).2.2.2 q hq
  have hdrain := hdrains.drain.1
  rw [Queue.size, Registry.size, Queue.items, Registry.values, hentry, List.map_singleton,
    List.mergeSort_singleton] at hdrain
  exact hdrain

end System

end Scheduling
