import Scheduling.Proofs.Frames
import Scheduling.Proofs.QueueContents
import Scheduling.Proofs.TableChanges
/-!
# What a step does to a queue

`serves_of_step` says once what a step of a system can do to each of its standalone queues: plans
are pushed, a pop ends with an answer, a plan gets another priority or is taken out by its key, or
the queue stays as it is. A pop that had to wait ends as one does that never waits.
-/

namespace Scheduling

/-- What is done to a queue of plans in a step. -/
inductive Queue.Access
  | none
  | push (plans : List Plan)
  /-- A pop ends with an answer. -/
  | pop (answer : Except Error Plan)
  | update (plan : Plan)
  | remove (key : String)

namespace Queue

variable {q q' : Queue Plan} {order : Plan → Plan → Ordering} {access : Access}

/-- What an access makes of a queue whose plans stand in an order at that moment. -/
inductive Serves (order : Plan → Plan → Ordering) (q : Queue Plan) : Access → Queue Plan → Prop
  | none : Serves order q .none q
  | push (plans : List Plan) : Serves order q (.push plans) (q.push plans)
  | pop : Serves order q (.pop (q.tryPop order).1) (q.tryPop order).2
  | update (plan : Plan) : Serves order q (.update plan) (q.update plan).2
  | remove (key : String) : Serves order q (.remove key) (q.removeKey key).2

theorem Serves.keyed (h : q.Serves order access q') (hq : q.Keyed) : q'.Keyed := by
  cases h with
  | none => exact hq
  | push plans => exact hq.push plans
  | pop => exact hq.of_tryPop order
  | update plan => exact (hq.perform (.update plan)).1
  | remove key => exact hq.erase key

end Queue

namespace System

variable {y z : System} {a : Step} {i : QueueId} {q : Queue Plan}

/-- What a step does to the queue with number `i`. -/
def access (i : QueueId) (y : System) (a : Step) (z : System) : Queue.Access :=
  match a with
  | .request (.push k plans) => if k = i then .push plans else .none
  | .request (.tryPop k) =>
    match y.queues[k]? with
    | some q => if k = i then .pop (q.tryPop y.planOrder).1 else .none
    | none => .none
  | .request (.update k plan) => if k = i then .update plan else .none
  | .request (.removeQueued k key) => if k = i then .remove key else .none
  | .move (.call c) _ =>
    match y.calls[c]?, z.calls[c]? with
    | some (.pop k _), some (.ended _ (.plan answer)) =>
      if k = i then .pop (answer.map Prod.fst) else .none
    | _, _ => .none
  | _ => .none

/-- What there is under the number of a queue before and after a step. -/
inductive QueueChange (order : Plan → Plan → Ordering) :
    Option (Queue Plan) → Queue.Access → Option (Queue Plan) → Prop
  | absent : QueueChange order none .none none
  | create (blocking : Bool) : QueueChange order none .none (some (Queue.create blocking))
  | serves {q q' : Queue Plan} {access : Queue.Access} (h : q.Serves order access q') :
      QueueChange order (some q) access (some q')

theorem queueChange_of_queues_eq (h : z.queues = y.queues) (order : Plan → Plan → Ordering)
    (i : QueueId) : QueueChange order y.queues[i]? .none z.queues[i]? := by
  rw [h]
  cases y.queues[i]? with
  | none => exact .absent
  | some q => exact .serves .none

/-- One queue is accessed. -/
theorem queueChange_of_modify {k : QueueId} {f : Queue Plan → Queue Plan}
    {access : Queue.Access} {order : Plan → Plan → Ordering} (hq : y.queues[k]? = some q)
    (h : z.queues = y.queues.modify k f) (hserves : q.Serves order access (f q)) (i : QueueId) :
    QueueChange order y.queues[i]? (if k = i then access else .none) z.queues[i]? := by
  rw [h, Array.getElem?_modify]
  by_cases hk : k = i
  · subst hk
    rw [if_pos rfl, if_pos rfl, hq]
    exact .serves hserves
  · rw [if_neg hk, if_neg hk]
    exact queueChange_of_queues_eq (z := y) rfl order i

theorem queueChange_newQueue (y : System) (blocking : Bool) (order : Plan → Plan → Ordering)
    (i : QueueId) :
    QueueChange order y.queues[i]? .none (y.queues.push (Queue.create blocking))[i]? := by
  rw [Array.getElem?_push]
  cases hq : y.queues[i]? with
  | none =>
      split
      · exact .create blocking
      · exact .absent
  | some q =>
      have hlt : i < y.queues.size := (Array.getElem?_eq_some_iff.1 hq).1
      rw [if_neg (Nat.ne_of_lt hlt)]
      exact .serves .none

theorem queueChange_carryOut {r : Request} (h : y.accepts r = true) (i : QueueId) :
    QueueChange y.planOrder y.queues[i]? (y.access i (.request r) (y.carryOut r))
      (y.carryOut r).queues[i]? := by
  have hexists {k : QueueId} (hk : k < y.queues.size) : ∃ q, y.queues[k]? = some q :=
    ⟨_, Array.getElem?_eq_getElem hk⟩
  cases r with
  | newQueue blocking => exact queueChange_newQueue y blocking y.planOrder i
  | push k plans =>
      have hk : (decide (k < y.queues.size) && plans.all y.knows) = true := h
      obtain ⟨q, hq⟩ := hexists (of_decide_eq_true (Bool.and_eq_true_iff.1 hk).1)
      exact queueChange_of_modify (f := (·.push plans)) hq rfl (.push plans) i
  | tryPop k =>
      obtain ⟨q, hq⟩ := hexists (of_decide_eq_true h)
      simp only [access, hq]
      exact queueChange_of_modify (f := fun q => (q.tryPop y.planOrder).2) hq rfl .pop i
  | update k plan =>
      have hk : (decide (k < y.queues.size) && y.knows plan) = true := h
      obtain ⟨q, hq⟩ := hexists (of_decide_eq_true (Bool.and_eq_true_iff.1 hk).1)
      exact queueChange_of_modify (f := fun q => (q.update plan).2) hq rfl (.update plan) i
  | removeQueued k key =>
      obtain ⟨q, hq⟩ := hexists (of_decide_eq_true h)
      exact queueChange_of_modify (f := fun q => (q.removeKey key).2) hq rfl (.remove key) i
  | addEntry k name expression =>
      refine queueChange_of_queues_eq ?_ y.planOrder i
      unfold carryOut
      dsimp only
      split <;> rfl
  | newTable | removeEntry | startTable | stopTable | clearTable =>
      exact queueChange_of_queues_eq rfl y.planOrder i
  | _ => exact queueChange_of_queues_eq (sparesStores_carryOut rfl).queues y.planOrder i

/-- A call that does not ask for a plan accesses no queue. -/
theorem access_of_call {c : CallId} {call : Call} (h : y.calls[c]? = some call)
    (hcall : ∀ k point, call ≠ .pop k point) (i : QueueId) (choice : Nat) (z : System) :
    y.access i (.move (.call c) choice) z = .none := by
  simp only [access, h]
  split
  · rename_i hpop _
    exact absurd (Option.some.inj hpop) (hcall _ _)
  · rfl

theorem queueChange_callMoves {c : CallId} (h : z ∈ y.callMoves c) (i : QueueId) (choice : Nat) :
    QueueChange y.planOrder y.queues[i]? (y.access i (.move (.call c) choice) z)
      z.queues[i]? := by
  obtain ⟨call, u, call', hcall, hmove, rfl⟩ := callMove_of_mem h
  by_cases hpop : ∃ k point, call = .pop k point
  · obtain ⟨k, point, rfl⟩ := hpop
    -- The system `u` differs from `y` in its queues only.
    have hended (hcalls : u.calls = y.calls) : (u.callAt c call').calls[c]? = some call' :=
      getElem?_callAt ((congrArg (·[c]?) hcalls).trans hcall)
    cases hmove with
    | @waitOn _ _ _ queue _ hqueue hpop =>
        cases Queue.popMove_of_pop hpop with
        | waits =>
            have hchange : QueueChange y.planOrder _ _ _ :=
              queueChange_of_modify (z := { y with queues := y.queues.modify k fun _ => queue })
                (f := fun _ => queue) hqueue rfl .none i
            simp only [access, hcall, hended rfl]
            rw [ite_self] at hchange
            exact hchange
    | @pop _ _ queue queue' answer hqueue hpop =>
        have htry := (Queue.popMove_of_pop hpop).tryPop_eq
        have hanswer : (answer.map fun p => (p, y.state p.task)).map Prod.fst = answer := by
          cases answer <;> rfl
        have hserves : queue.Serves y.planOrder (.pop answer) queue' := by
          have hpop : queue.Serves y.planOrder _ _ := .pop
          rw [htry] at hpop
          exact hpop
        simp only [access, hcall, hended rfl, hanswer]
        exact queueChange_of_modify (f := fun _ => queue') hqueue rfl hserves i
  · have hnot (k : QueueId) (point : PopPoint) : call ≠ .pop k point := fun heq =>
      hpop ⟨k, point, heq⟩
    rw [access_of_call hcall hnot]
    exact queueChange_of_queues_eq (hmove.sparesStores hnot).queues y.planOrder i

theorem queueChange_of_step (h : y.step? a = some z) (i : QueueId) :
    QueueChange y.planOrder y.queues[i]? (y.access i a z) z.queues[i]? := by
  cases a with
  | request r =>
      obtain ⟨haccepts, rfl⟩ := step_request_iff.1 h
      exact queueChange_carryOut haccepts i
  | pass millis =>
      obtain ⟨-, rfl⟩ := step_pass_iff.1 h
      exact queueChange_of_queues_eq rfl y.planOrder i
  | move actor choice =>
      have hmem : z ∈ y.moves actor := List.mem_of_getElem? h
      cases actor with
      | call c => exact queueChange_callMoves hmem i choice
      | tableTimer =>
          obtain ⟨_, _, _, -, -, rfl⟩ := of_mem_tableTimerMoves hmem
          exact queueChange_of_queues_eq rfl y.planOrder i
      | _ =>
          have hspares := sparesStores_of_moves h nofun nofun
          exact queueChange_of_queues_eq hspares.queues y.planOrder i

/-- A queue is still there after a step, as the step has left it. -/
theorem serves_of_step (h : y.step? a = some z) (hq : y.queues[i]? = some q) :
    ∃ q', z.queues[i]? = some q' ∧ q.Serves y.planOrder (y.access i a z) q' := by
  have hchange := queueChange_of_step h i
  rw [hq] at hchange
  generalize z.queues[i]? = found at hchange
  cases hchange with
  | serves h => exact ⟨_, rfl, h⟩

/-- Nothing is done to a queue that does not exist, and a new queue is empty. -/
theorem access_of_absent (h : y.step? a = some z) (hq : y.queues[i]? = none) :
    y.access i a z = .none ∧ ∀ q, z.queues[i]? = some q → q.entries = Registry.empty := by
  have hchange := queueChange_of_step h i
  rw [hq] at hchange
  generalize y.access i a z = access at hchange
  generalize z.queues[i]? = found at hchange
  cases hchange with
  | absent => exact ⟨rfl, nofun⟩
  | create =>
      refine ⟨rfl, fun q hq => ?_⟩
      cases hq
      rfl

end System

end Scheduling
