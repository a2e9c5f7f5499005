import Mathlib.Data.List.Flatten
import Scheduling.Proofs.Executing
import Scheduling.Proofs.Leftovers
/-!
# Removing a plan

When a plan is removed its key is neither queued nor scheduled any more, and what runs under the key
is cancelled. Copies that were popped before are still on their way: one may be in the channel and
one in the hand of the fetch loop. As nothing makes a new copy, no more than these are admitted
later.
-/

namespace Scheduling

namespace Session

/-- The plans that were popped and that the dispatch loop has not received: one may be in the
channel and one in the hand of the fetch loop. -/
def inTransit (n : Session) : List Plan := n.slot.toList ++ n.fetch.inHand

theorem due_sublist (n : Session) : n.due.Sublist n.inTransit := by
  unfold due inTransit
  split
  · exact List.nil_sublist _
  · exact .refl _

theorem length_inTransit_le_two (n : Session) : n.inTransit.length ≤ 2 := by
  have hslot := n.length_slot_le_one
  have hhand : n.fetch.inHand.length ≤ 1 := by cases n.fetch <;> simp [FetchPoint.inHand]
  rw [inTransit, List.length_append]
  omega

/-- A session whose loops are both over has no plan on its way. -/
theorem Proper.inTransit_eq_nil {n : Session} (h : n.Proper) (hclosed : n.closed = true) :
    n.inTransit = [] := by
  obtain ⟨hfetch, hover⟩ := h.closed hclosed
  rw [inTransit, h.slot hover, hfetch]
  rfl

variable {y z : System} {a : Step} {i : SchedulerId} {j : SessionId} {s : Scheduler}
  {n n' : Session} {x : Scheduler.Stores}

/-- Only a pop makes more plans of a kind due, and each that is received makes one less. -/
theorem Change.countP_due (h : n.Change y z a i j s x n') (kind : Plan → Bool) :
    (n.received n').toList.countP kind + n'.due.countP kind ≤
      n.due.countP kind + (n.popped n').toList.countP kind := by
  cases h.delivery with
  | passedOn hflow =>
      exact Nat.le_of_eq (by rw [← List.countP_append, hflow, List.countP_append])
  | givenUp _ hdue hpopped hreceived =>
      have hle := hdue.sublist.countP_le (p := kind)
      rw [hpopped, hreceived]
      simpa using hle
  | finished hover hreceived =>
      have hnil : n'.due = [] := by rw [due, if_pos hover]
      rw [hreceived, hnil]
      exact Nat.zero_le _

/-- A key begins to be executing when a plan of it is received. -/
theorem Change.received_of_executing {key : String} {e : Execution}
    (h : n.Change y z a i j s x n') (hs : s.executing.get? key = none)
    (he : x.executing.get? key = some e) : ∃ p, n.received n' = some p ∧ p.key = key := by
  cases h with
  | @enter p _ hdispatch hslot =>
      rw [Registry.get?_insert] at he
      split at he
      · rename_i hkey
        exact ⟨p, by simp [received, DispatchPoint.receives, hdispatch, hslot], hkey.symm⟩
      · rw [hs] at he
        cases he
  | endWorker =>
      rw [Registry.get?_erase, hs, ite_self] at he
      cases he
  | _ => cases hs.symm.trans he

end Session

namespace Scheduler

/-- The plans of all sessions that were popped and have not been received. -/
def inTransit (s : Scheduler) : List Plan := s.sessions.toList.flatMap Session.inTransit

/-- The plans of all sessions that were popped and can still be received. -/
def due (s : Scheduler) : List Plan := s.sessions.toList.flatMap Session.due

theorem due_sublist (s : Scheduler) : s.due.Sublist s.inTransit :=
  List.Sublist.flatMap_right _ fun n _ => n.due_sublist

variable {y : System} {i : SchedulerId} {s s' : Scheduler} {key : String}

/-- Neither the queue nor the cron table has a plan of a key that was taken out of both. -/
theorem carries_of_remove (hindexed : s.Indexed) (hkeyed : s.queue.Keyed)
    (hlinked : (s.unschedule key).cron.Linked) :
    ((s.unschedule key).dequeue key).Carries fun p => p.key ≠ key where
  queue k p hp := by
    replace hp : ((s.unschedule key).queue.entries.erase key).get? k = some p := hp
    rw [Scheduler.queue_unschedule, Registry.get?_erase] at hp
    split at hp
    · cases hp
    · rename_i hk
      have hkey : p.key = k := hkeyed k p hp
      rwa [hkey]
  cron := by
    obtain ⟨hindexed', hnone⟩ := hindexed.unschedule key
    refine hlinked.carries fun id p hp hkey => ?_
    have hknown := hindexed' id p hp
    rw [hkey, hnone] at hknown
    cases hknown

end Scheduler

namespace System

variable {allowed : System → Step → Bool} {y z u : System} {a : Step} {i : SchedulerId}
  {j : SessionId} {s s' : Scheduler} {key : String}

/-- What is executing under a key. -/
def execution? (y : System) (i : SchedulerId) (key : String) : Option Execution :=
  y.schedulers[i]?.bind fun s => s.executing.get? key

/-- The executor that a plan of a key is admitted with in a step. -/
def seeAdmission (i : SchedulerId) (key : String) (y : System) (_ : Step) (z : System) :
    List ExecutorId :=
  match y.execution? i key, z.execution? i key with
  | none, some x => [x.executor]
  | _, _ => []

/-- The executors that plans of a key are admitted with in a run, each its own. -/
def admissions (allowed : System → Step → Bool) (i : SchedulerId) (key : String) (y : System)
    (steps : List Step) : List ExecutorId :=
  y.observe allowed (seeAdmission i key) steps

/-- Whether a step adds no plan of a key to the scheduler `i`. -/
def withholds (i : SchedulerId) (key : String) (_ : System) : Step → Bool
  | .request (.addPlans i' plans) => i' != i || plans.all (·.key != key)
  | _ => true

theorem key_ne_of_withholds {p : Plan} (h : withholds i key y a = true)
    (hp : Scheduler.Adds a i p) : p.key ≠ key := by
  obtain ⟨plans, rfl, hp⟩ := hp
  have hall : plans.all (·.key != key) = true := by simpa [withholds] using h
  simpa using List.all_eq_true.1 hall p hp

/-- At any time at most two plans of a scheduler are on their way from its queue to a worker. -/
theorem ReachableBy.length_inTransit_le_two (h : y.ReachableBy allowed)
    (hs : y.schedulers[i]? = some s) : s.inTransit.length ≤ 2 := by
  unfold Scheduler.inTransit
  cases hlast : s.sessions.toList.getLast? with
  | none => simp [List.getLast?_eq_none_iff.1 hlast]
  | some n =>
      obtain ⟨front, hfront⟩ := List.getLast?_eq_some_iff.1 hlast
      have hnil : front.flatMap Session.inTransit = [] := by
        refine List.flatMap_eq_nil_iff.2 fun m hm => ?_
        obtain ⟨k, hk, hget⟩ := List.mem_iff_getElem.1 hm
        have hm' : s.sessions[k]? = some m := by
          rw [← Array.getElem?_toList, hfront, List.getElem?_append_left hk,
            List.getElem?_eq_getElem hk, hget]
        have hsize : s.sessions.size = front.length + 1 := by
          rw [← Array.length_toList, hfront, List.length_append, List.length_singleton]
        refine (h.proper hs hm').inTransit_eq_nil ?_
        cases hclosed : m.closed with
        | true => rfl
        | false =>
            have hopen : k + 1 = s.sessions.size := (h.last hs hm' hclosed).2
            omega
      rw [hfront, List.flatMap_append, hnil, List.nil_append, List.flatMap_singleton]
      exact n.length_inTransit_le_two

/-- As long as a key is neither queued nor scheduled, an admission of the key uses up a copy that is
due. -/
theorem length_seeAdmission_le (h : s.Change y z a i s') (hs : y.schedulers[i]? = some s)
    (hs' : z.schedulers[i]? = some s') (hcarries : s.Carries fun p => p.key ≠ key) :
    (seeAdmission i key y a z).length + s'.due.countP (·.key == key) ≤
      s.due.countP (·.key == key) := by
  have hbefore : y.execution? i key = s.executing.get? key := by rw [execution?, hs]; rfl
  have hafter : z.execution? i key = s'.executing.get? key := by rw [execution?, hs']; rfl
  have hnone (hsame : s'.executing = s.executing) : seeAdmission i key y a z = [] := by
    rw [seeAdmission, hbefore, hafter, hsame]
    cases s.executing.get? key <;> rfl
  obtain hreg | @⟨j, n, n', -, hedit, hn⟩ | ⟨-, -, rfl⟩ := h.outcome
  · have hdue : s'.due = s.due := by
      rw [Scheduler.due, hreg.registers.sessions, Scheduler.due]
    refine Nat.le_of_eq ?_
    rw [hnone hreg.registers.executing, hdue, List.length_nil, Nat.zero_add]
  · obtain ⟨rest, hperm, hperm'⟩ := hedit.flatMap_perm Session.due
    have hcount : s.due.countP (·.key == key) =
        n.due.countP (·.key == key) + rest.countP (·.key == key) := by
      rw [Scheduler.due, hperm.countP_eq, List.countP_append]
    have hcount' : s'.due.countP (·.key == key) =
        n'.due.countP (·.key == key) + rest.countP (·.key == key) := by
      rw [Scheduler.due, hperm'.countP_eq, List.countP_append]
    have hdue := hn.countP_due (·.key == key)
    have hpopped : (n.popped n').toList.countP (·.key == key) = 0 := by
      refine List.countP_eq_zero.2 fun p hp => ?_
      have htake := hn.take_of_popped (Option.mem_toList.1 hp)
      obtain ⟨k, hk⟩ := Registry.mem_values_iff.1 (Queue.mem_of_takeFirst htake).1
      simpa using hcarries.queue k p hk
    have hadmission : (seeAdmission i key y a z).length ≤
        (n.received n').toList.countP (·.key == key) := by
      rw [seeAdmission, hbefore, hafter]
      split
      · rename_i x hx hx'
        obtain ⟨p, hp, hkey⟩ := hn.received_of_executing hx hx'
        simp [hp, hkey]
      · exact Nat.zero_le _
    omega
  · have hdue : (s.start y.contexts.nodes.size).due = s.due := by
      have hnil : (Scheduler.Session.create y.contexts.nodes.size).due = [] := rfl
      simp [Scheduler.due, Scheduler.start, hnil]
    refine Nat.le_of_eq ?_
    rw [hnone rfl, hdue, List.length_nil, Nat.zero_add]

/-- Without a further add no more plans of a key are admitted than are due when the key is neither
queued nor scheduled. -/
theorem length_admissions_le (hs : y.schedulers[i]? = some s)
    (hcarries : s.Carries fun p => p.key ≠ key) (steps : List Step) :
    (y.admissions (withholds i key) i key steps).length ≤ s.due.countP (·.key == key) := by
  induction steps generalizing y s with
  | nil => exact Nat.zero_le _
  | cons a steps ih =>
      unfold admissions at ih ⊢
      cases hnext : y.next? (withholds i key) a with
      | none =>
          rw [observe_cons_of_none hnext]
          exact ih hs hcarries
      | some z =>
          obtain ⟨hallowed, hz⟩ := next?_eq_some_iff.1 hnext
          obtain ⟨s', hs', hchange⟩ := exists_change_of_step hz hs
          have hstep := length_seeAdmission_le hchange hs hs' hcarries
          have hrest := ih hs' (hcarries.change hchange fun p => key_ne_of_withholds hallowed)
          rw [observe_cons_of_some hnext, List.length_append]
          omega

/-- How a plan is removed from a scheduler: its key goes from the cron table and the queue, and what
is executing under it is cancelled. -/
theorem removePlan_cases {p : Plan} (hs : y.schedulers[i]? = some s) :
    (y.removePlan i p).schedulers[i]? = some ((s.unschedule p.key).dequeue p.key) ∧
      ∀ x, s.executing.get? p.key = some x →
        y.removePlan i p =
          (y.setScheduler i ((s.unschedule p.key).dequeue p.key)).cancelExecution x := by
  refine ⟨?_, fun x hx => by simp only [removePlan, hs, hx]⟩
  have hworks : (y.setScheduler i ((s.unschedule p.key).dequeue p.key)).Works none
      (y.removePlan i p) := works_removePlan hs
  rw [hworks.schedulers]
  exact getElem?_setScheduler hs _

/-- What is executing under the key of a plan that is removed is cancelled, and its task is not
running any more. -/
theorem ReachableBy.cancelled_removePlan {p : Plan} {x : Execution} (h : y.ReachableBy allowed)
    (hs : y.schedulers[i]? = some s) (hx : s.executing.get? p.key = some x) :
    (y.removePlan i p).Cancelled x ∧
      ∀ executor, y.executors[x.executor]? = some executor →
        (y.removePlan i p).state executor.task ≠ .running := by
  have hproceeds : y.Proceeds none (y.setScheduler i ((s.unschedule p.key).dequeue p.key)) :=
    proceeds_setScheduler y _ _
  rw [(removePlan_cases hs).2 x hx]
  exact ⟨cancelled_cancelExecution ((h.hosts hs hx).proceeds hproceeds),
    fun executor hexecutor => state_cancelExecution_ne_running hexecutor⟩

/-- After a plan was removed its key has no cron entry, no timer and no queued plan, and what is
executing under the key is cancelled, its task not running any more. The plans of the key that are
left on their way from the queue to a worker are at most two, and as long as no plan of the key is
added again at most as many plans of the key are admitted later, so that at most as many admissions
begin a run. -/
theorem remove_leaves_in_transit {p : Plan} (h : y.Reachable) (hs : y.schedulers[i]? = some s)
    (hu : y.step? (.request (.removePlan i p)) = some u) :
    ∃ s' : Scheduler, u.schedulers[i]? = some s' ∧
      s'.cronIds.get? p.key = none ∧ s'.cron.Carries (·.key ≠ p.key) ∧
      s'.queue.contains p.key = false ∧
      (∀ x, s'.executing.get? p.key = some x → u.Cancelled x ∧
        ∃ executor : Executor, u.executors[x.executor]? = some executor ∧
          u.state executor.task ≠ .running) ∧
      s'.inTransit.countP (·.key == p.key) ≤ 2 ∧
      ∀ steps, (u.admissions (withholds i p.key) i p.key steps).length ≤
        s'.inTransit.countP (·.key == p.key) := by
  obtain ⟨-, rfl⟩ := step_request_iff.1 hu
  have hreach : (y.removePlan i p).Reachable := h.step rfl hu
  have hs' := (removePlan_cases (p := p) hs).1
  have hlinked : ((s.unschedule p.key).dequeue p.key).cron.Linked := hreach.linked hs'
  have hcarries := Scheduler.carries_of_remove (h.indexed hs) (h.queue hs).2 hlinked
  have hexecuting : ((s.unschedule p.key).dequeue p.key).executing = s.executing :=
    (Scheduler.registers_unschedule s p.key).executing
  refine ⟨_, hs', ((h.indexed hs).unschedule p.key).2, hcarries.cron, ?_, fun x hx => ?_, ?_,
    fun steps => ?_⟩
  · change ((s.unschedule p.key).queue.entries.erase p.key).contains p.key = false
    simp [Registry.contains_erase]
  · rw [hexecuting] at hx
    obtain ⟨hcancelled, hidle⟩ := h.cancelled_removePlan hs hx
    obtain ⟨executor, hexecutor, -⟩ := (h.hosts hs hx).executor
    have hproceeds : y.Proceeds none (y.removePlan i p) := proceeds_removePlan y i p
    obtain ⟨executor', hexecutor', hfollows⟩ := hproceeds.executors _ executor hexecutor
    exact ⟨hcancelled, executor', hexecutor', hfollows.task ▸ hidle executor hexecutor⟩
  · exact Nat.le_trans List.countP_le_length (hreach.length_inTransit_le_two hs')
  · exact Nat.le_trans (length_admissions_le hs' hcarries steps)
      ((Scheduler.due_sublist _).countP_le)

/-- A plan runs, a copy of it is in the channel and one is being sent when it is queued and
scheduled once more. -/
def copiedRun : System :=
  after
    [.request .newContext, .request (.newTask "a" [] fun _ => []),
      .request (.newScheduler ⟨1, .localTime, {}⟩), .request (.startScheduler 0 0),
      .request (.addPlans 0 [⟨0, "a", ⟨0⟩, 0, none, 0, false, none⟩]),
      .move (.fetch 0 0) 0, .move (.fetch 0 0) 0, .move (.dispatch 0 0) 0,
      .move (.dispatch 0 0) 0, .move (.dispatch 0 0) 0, .move (.worker 0 0 0) 0,
      .request (.addPlans 0 [⟨0, "a", ⟨0⟩, 0, none, 0, false, none⟩]),
      .move (.fetch 0 0) 0, .move (.fetch 0 0) 0,
      .request (.addPlans 0 [⟨0, "a", ⟨0⟩, 0, none, 0, false, none⟩]), .move (.fetch 0 0) 0,
      .request (.addPlans 0 [⟨0, "a", ⟨0⟩, 0, none, 0, false, none⟩,
        ⟨0, "a", ⟨0⟩, 0, some "* * * * * *", 0, false, none⟩])]

/-- The run ends, then the copies are admitted one after the other. -/
def lateSteps : List Step :=
  [.move (.run 0) 0, .move (.run 0) 0, .move (.run 0) 0, .move (.worker 0 0 0) 0,
    .move (.dispatch 0 0) 0, .move (.dispatch 0 0) 0, .move (.fetch 0 0) 0,
    .move (.worker 0 0 1) 0, .move (.run 1) 0, .move (.run 1) 0, .move (.run 1) 0,
    .move (.worker 0 0 1) 0, .move (.dispatch 0 0) 0, .move (.dispatch 0 0) 0,
    .move (.worker 0 0 2) 0]

/-- Both copies are admitted after the plan was removed, and no more can be. -/
theorem remove_leaves_in_transit_copiedRun :
    ∃ u : System,
      copiedRun.step? (.request (.removePlan 0 ⟨0, "a", ⟨0⟩, 0, none, 0, false, none⟩)) = some u ∧
        (u.admissions (withholds 0 "a") 0 "a" lateSteps).length = 2 := by
  have hbefore : (copiedRun.schedulers[0]?.any fun s => s.pending == 1 && s.scheduled == 1) =
      true := by decide +kernel
  have hrun :
      ((copiedRun.step? (.request (.removePlan 0 ⟨0, "a", ⟨0⟩, 0, none, 0, false, none⟩))).any
        fun u => decide (2 ≤ (u.admissions (withholds 0 "a") 0 "a" lateSteps).length)) = true := by
    decide +kernel
  obtain ⟨s, hs, -⟩ := (Option.any_eq_true _ _).1 hbefore
  obtain ⟨u, hu, hrun⟩ := (Option.any_eq_true _ _).1 hrun
  obtain ⟨s', -, -, -, -, -, htwo, hle⟩ := remove_leaves_in_transit (reachable_after _) hs hu
  exact ⟨u, hu, Nat.le_antisymm (Nat.le_trans (hle lateSteps) htwo) (of_decide_eq_true hrun)⟩

end System

end Scheduling
