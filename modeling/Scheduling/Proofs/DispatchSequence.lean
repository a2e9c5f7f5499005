import Scheduling.Proofs.Histories
/-!
# The order in which plans are dispatched

A session admits plans in the order in which it pops them, and pops the plan that is first in the
order of dispatch of that moment. Between its pop and its admission a plan can be overtaken by no
other, but it may already have been popped when a more urgent plan is queued: at any time at most
two plans are popped and not admitted, so at most two can come before a plan that is more urgent.
-/

namespace Scheduling

/-- The plan that a fetch loop pops when it goes from the first point to the second. -/
def FetchPoint.popped : FetchPoint → FetchPoint → Option Plan
  | popping _, holding p => some p
  | popping _, sending p => some p
  | _, _ => none

/-- The plan that a fetch loop has popped and not put into the channel. -/
def FetchPoint.inHand : FetchPoint → List Plan
  | holding p | sending p => [p]
  | _ => []

/-- How many of the plans that a fetch loop has popped can be missing because of where it stands. -/
def FetchPoint.keeps : FetchPoint → Nat
  | holding _ | sending _ | ended => 1
  | _ => 0

/-- Whether a dispatch loop receives a plan when it goes from the first point to the second. -/
def DispatchPoint.receives : DispatchPoint → DispatchPoint → Bool
  | receiving, acquiring => true
  | _, _ => false

@[simp] theorem FetchPoint.popped_self (point : FetchPoint) : point.popped point = none := by
  cases point <;> rfl

@[simp] theorem FetchPoint.popped_ended (point : FetchPoint) : point.popped .ended = none := by
  cases point <;> rfl

theorem FetchPoint.keeps_le_one (point : FetchPoint) : point.keeps ≤ 1 := by
  cases point <;> simp [keeps]

@[simp] theorem DispatchPoint.receives_self (point : DispatchPoint) :
    point.receives point = false := by
  cases point <;> rfl

theorem DispatchPoint.receives_of_isOver {point point' : DispatchPoint}
    (h : point'.isOver = true) : point.receives point' = false := by
  cases point' with
  | acquiring => cases h
  | _ => cases point <;> rfl

namespace Session

/-- The plan that the fetch loop has popped between two states of a session. -/
def popped (n n' : Session) : Option Plan := n.fetch.popped n'.fetch

/-- The plan that the dispatch loop has received, to be admitted or skipped, between two states of a
session. -/
def received (n n' : Session) : Option Plan :=
  if n.dispatch.receives n'.dispatch then n.slot else none

/-- The plans that were popped and can still be received, the first one first. -/
def due (n : Session) : List Plan :=
  if n.dispatch.isOver then [] else n.slot.toList ++ n.fetch.inHand

/-- At most how many popped plans were not received, be it that they are due or that they were given
up: one in the channel and one in the hand of the fetch loop. -/
def missing (n : Session) : Nat :=
  (if n.dispatch.isOver then 1 else n.slot.toList.length) + n.fetch.keeps

variable {y z : System} {a : Step} {i : SchedulerId} {j : SessionId} {s : Scheduler}
  {n n' : Session} {x : Scheduler.Stores}

theorem due_of_live (h : n.dispatch.isOver = false) :
    n.due = n.slot.toList ++ n.fetch.inHand := by
  unfold due
  rw [h]
  rfl

theorem length_slot_le_one (n : Session) : n.slot.toList.length ≤ 1 := by
  cases n.slot <;> simp

theorem missing_le_two (n : Session) : n.missing ≤ 2 := by
  have hslot := n.length_slot_le_one
  have hkeeps := n.fetch.keeps_le_one
  unfold missing
  split <;> omega

/-- What becomes of the plans that are due. -/
inductive Delivery (n n' : Session) : Prop
  /-- A popped plan comes last, and the first is received. -/
  | passedOn (h : (n.received n').toList ++ n'.due = n.due ++ (n.popped n').toList)
  /-- The fetch loop ends and gives up the plan in its hand. -/
  | givenUp (hfetch : n'.fetch = .ended) (hdue : n'.due <+: n.due)
      (hpopped : n.popped n' = none) (hreceived : n.received n' = none)
  /-- The dispatch loop is over, so that no plan is due any more. -/
  | finished (hover : n'.dispatch.isOver = true) (hreceived : n.received n' = none)

theorem Change.delivery (h : n.Change y z a i j s x n') : n.Delivery n' := by
  cases hover' : n'.dispatch.isOver with
  | true =>
      refine .finished hover' ?_
      rw [received, DispatchPoint.receives_of_isOver hover']
      rfl
  | false =>
      have hover : n.dispatch.isOver = false := by
        cases hover : n.dispatch.isOver with
        | false => rfl
        | true =>
            rw [h.dispatch_over hover, hover] at hover'
            cases hover'
      have hdue := due_of_live hover
      have hdue' := due_of_live hover'
      cases h with
      | endFetch | giveUp =>
          refine .givenUp rfl ?_ (by simp [popped]) (by simp [received])
          rw [hdue, hdue']
          exact (List.prefix_append_right_inj _).2 (List.nil_prefix)
      | hold hfetch | send hfetch | sendHeld hfetch | wait hfetch | resume hfetch =>
          refine .passedOn ?_
          rw [hdue, hdue']
          simp [popped, received, FetchPoint.popped, FetchPoint.inHand, hfetch]
      | @put p hfetch hslot =>
          refine .passedOn ?_
          rw [hdue, hdue']
          cases hp : p.exclusive <;>
            simp [popped, received, FetchPoint.popped, FetchPoint.inHand, Scheduler.afterSending,
              hfetch, hslot, hp]
      | skip hdispatch hslot | enter hdispatch hslot =>
          refine .passedOn ?_
          rw [hdue, hdue']
          simp [popped, received, DispatchPoint.receives, hdispatch, hslot]
      | openSlots hdispatch | acquire hdispatch =>
          refine .passedOn ?_
          rw [hdue, hdue']
          simp [popped, received, DispatchPoint.receives, hdispatch]
      | crash | stopAcquiring | stopReceiving => cases hover'
      | _ =>
          refine .passedOn ?_
          simp [popped, received, due]

/-- Each pop makes one more plan missing, and only a reception makes it one less. -/
theorem Change.missing (h : n.Change y z a i j s x n') :
    (n.popped n').toList.length + n.missing ≤ (n.received n').toList.length + n'.missing := by
  have hslot := n.length_slot_le_one
  have hkeeps := n.fetch.keeps_le_one
  cases h with
  | endFetch | giveUp =>
      have hended : FetchPoint.ended.keeps = 1 := rfl
      simp [popped, received, Session.missing, hended]
      omega
  | hold hfetch | send hfetch =>
      simp [popped, received, Session.missing, FetchPoint.popped, FetchPoint.keeps, hfetch,
        Nat.add_comm]
  | sendHeld hfetch | wait hfetch | resume hfetch =>
      simp [popped, received, Session.missing, FetchPoint.popped, FetchPoint.keeps, hfetch]
  | @put p hfetch hslot hover =>
      cases hp : p.exclusive <;>
        simp [popped, received, Session.missing, FetchPoint.popped, FetchPoint.keeps,
          Scheduler.afterSending, hfetch, hslot, hover, hp]
  | skip hdispatch hslot | enter hdispatch hslot =>
      simp [popped, received, Session.missing, DispatchPoint.receives, DispatchPoint.isOver,
        hdispatch, hslot]
  | openSlots hdispatch | acquire hdispatch =>
      simp [popped, received, Session.missing, DispatchPoint.receives, DispatchPoint.isOver,
        hdispatch]
  | crash hdispatch | stopAcquiring hdispatch | stopReceiving hdispatch =>
      simp [popped, received, Session.missing, DispatchPoint.receives, DispatchPoint.isOver,
        hdispatch]
  | _ => simp [popped, received, Session.missing]

/-- A popped plan was the least of the queue, and is taken out of it. -/
theorem Change.take_of_popped {p : Plan} (h : n.Change y z a i j s x n')
    (hp : n.popped n' = some p) : s.queue.takeFirst y.planOrder = some (p, x.queue) := by
  cases h with
  | hold hfetch htake | send hfetch htake =>
      simp only [popped, FetchPoint.popped, hfetch, Option.some.injEq] at hp
      rw [← hp]
      exact htake
  | sendHeld hfetch | wait hfetch | resume hfetch =>
      simp [popped, FetchPoint.popped, hfetch] at hp
  | @put q hfetch => simp [popped, FetchPoint.popped, hfetch] at hp
  | _ => simp [popped] at hp

end Session

namespace System

variable {allowed : System → Step → Bool} {y z : System} {a : Step} {i : SchedulerId}
  {j : SessionId} {n : Session} {p : Plan}

/-! ## Pops and receptions of a run -/

/-- The plan that a session pops in a step, with the system in which it does so. -/
def seePop (i : SchedulerId) (j : SessionId) (y : System) (_ : Step) (z : System) :
    List (System × Plan) :=
  match y.session? i j, z.session? i j with
  | some n, some n' => (n.popped n').toList.map (y, ·)
  | _, _ => []

/-- The plan that a session receives in a step. -/
def seeReception (i : SchedulerId) (j : SessionId) (y : System) (_ : Step) (z : System) :
    List Plan :=
  match y.session? i j, z.session? i j with
  | some n, some n' => (n.received n').toList
  | _, _ => []

/-- The plans that a session pops in a run, each with the system in which it does so. -/
def pops (allowed : System → Step → Bool) (i : SchedulerId) (j : SessionId) (y : System)
    (steps : List Step) : List (System × Plan) :=
  y.observe allowed (seePop i j) steps

/-- The plans that a session receives in a run, to be admitted or skipped. -/
def receptions (allowed : System → Step → Bool) (i : SchedulerId) (j : SessionId) (y : System)
    (steps : List Step) : List Plan :=
  y.observe allowed (seeReception i j) steps

/-- The plans that a session has popped and can still receive. -/
def due (y : System) (i : SchedulerId) (j : SessionId) : List Plan :=
  ((y.session? i j).map Session.due).getD []

def missing (y : System) (i : SchedulerId) (j : SessionId) : Nat :=
  ((y.session? i j).map Session.missing).getD 0

theorem missing_le_two (y : System) (i : SchedulerId) (j : SessionId) : y.missing i j ≤ 2 := by
  unfold missing
  cases y.session? i j with
  | none => exact Nat.zero_le 2
  | some n => exact n.missing_le_two

/-- A step changes a session that was there, or makes it. -/
theorem session_cases (h : y.step? a = some z) (i : SchedulerId) (j : SessionId) :
    (∃ (s : Scheduler) (n n' : Session) (x : Scheduler.Stores), y.session? i j = some n ∧
        z.session? i j = some n' ∧ n.Change y z a i j s x n') ∨
      y.session? i j = none ∧
        ∀ n', z.session? i j = some n' →
          n' = Scheduler.Session.create y.contexts.nodes.size := by
  cases hn : y.session? i j with
  | none => exact .inr ⟨rfl, fun n' hn' => eq_create_of_session?_eq_none h hn hn'⟩
  | some n =>
      obtain ⟨s, hs, hget⟩ := session?_eq_some_iff.1 hn
      obtain ⟨s', n', hs', hn', -, rfl | hchange⟩ := change_of_session h hs hget
      · exact .inl ⟨s, _, _, _, rfl, session?_eq_some_iff.2 ⟨s', hs', hn'⟩, .idle⟩
      · exact .inl ⟨s, n, n', _, rfl, session?_eq_some_iff.2 ⟨s', hs', hn'⟩, hchange⟩

/-- In every run more plans are popped than are received by at most as many as are missing. -/
theorem length_pops_le (allowed : System → Step → Bool) (i : SchedulerId) (j : SessionId)
    (y : System) (steps : List Step) :
    (y.pops allowed i j steps).length + y.missing i j ≤
      (y.receptions allowed i j steps).length + (y.run allowed steps).missing i j := by
  induction steps generalizing y with
  | nil => exact Nat.le_refl _
  | cons a steps ih =>
      unfold pops receptions at ih ⊢
      cases hnext : y.next? allowed a with
      | none =>
          rw [observe_cons_of_none hnext, observe_cons_of_none hnext, run_cons_of_none hnext]
          exact ih y
      | some z =>
          have hrest := ih z
          have hz := (next?_eq_some_iff.1 hnext).2
          have hstep : (seePop i j y a z).length + y.missing i j ≤
              (seeReception i j y a z).length + z.missing i j := by
            obtain ⟨s, n, n', x, hn, hn', hchange⟩ | ⟨hnone, -⟩ := session_cases hz i j
            · simpa [seePop, seeReception, missing, hn, hn'] using hchange.missing
            · simp [seePop, seeReception, missing, hnone]
          rw [observe_cons_of_some hnext, observe_cons_of_some hnext, run_cons_of_some hnext,
            List.length_append, List.length_append]
          omega

/-- A session whose fetch loop has ended pops no more. -/
theorem pops_eq_nil (hn : y.session? i j = some n) (hended : n.fetch = .ended)
    (steps : List Step) : y.pops allowed i j steps = [] := by
  apply observe_eq_nil (P := fun y => ∃ n, y.session? i j = some n ∧ n.fetch = .ended)
  · intro y a z _ hz hy
    obtain ⟨n, hn, hended⟩ := hy
    obtain ⟨s, m, m', x, hm, hm', hchange⟩ | ⟨hnone, -⟩ := session_cases hz i j
    · obtain rfl := Option.some.inj (hn.symm.trans hm)
      have hended' := hchange.fetch_ended hended
      refine ⟨⟨m', hm', hended'⟩, ?_⟩
      simp [seePop, hm, hm', Session.popped, hended, hended']
    · rw [hn] at hnone
      cases hnone
  · exact ⟨n, hn, hended⟩

/-- A session whose dispatch loop is over receives nothing any more, and nothing is due. -/
theorem receptions_eq_nil (allowed : System → Step → Bool) (hn : y.session? i j = some n)
    (hover : n.dispatch.isOver = true) (steps : List Step) :
    y.receptions allowed i j steps = [] ∧ (y.run allowed steps).due i j = [] := by
  have hstep (y : System) (a : Step) (z : System) (_ : allowed y a = true)
      (hz : y.step? a = some z)
      (hy : ∃ n, y.session? i j = some n ∧ n.dispatch.isOver = true) :
      (∃ n, z.session? i j = some n ∧ n.dispatch.isOver = true) ∧ seeReception i j y a z = [] := by
    obtain ⟨n, hn, hover⟩ := hy
    obtain ⟨s, m, m', x, hm, hm', hchange⟩ | ⟨hnone, -⟩ := session_cases hz i j
    · obtain rfl := Option.some.inj (hn.symm.trans hm)
      have hsame := hchange.dispatch_over hover
      refine ⟨⟨m', hm', hsame ▸ hover⟩, ?_⟩
      simp [seeReception, hm, hm', Session.received, hsame]
    · rw [hn] at hnone
      cases hnone
  refine ⟨observe_eq_nil hstep ⟨n, hn, hover⟩ steps, ?_⟩
  obtain ⟨m, hm, hmover⟩ := run_induction (fun y a z ha hz hy => (hstep y a z ha hz hy).1)
    ⟨n, hn, hover⟩ steps
  simp [due, hm, Session.due, hmover]

/-- What a step receives goes before what the rest of the run receives, if that comes from the pops
of the rest. -/
theorem receptions_prefix_step (allowed : System → Step → Bool) (i : SchedulerId) (j : SessionId)
    (h : y.step? a = some z) {steps : List Step}
    (hrest : z.receptions allowed i j steps ++ (z.run allowed steps).due i j <+:
      z.due i j ++ (z.pops allowed i j steps).map Prod.snd) :
    seeReception i j y a z ++ (z.receptions allowed i j steps ++ (z.run allowed steps).due i j) <+:
      y.due i j ++ ((seePop i j y a z).map Prod.snd ++
        (z.pops allowed i j steps).map Prod.snd) := by
  obtain ⟨s, n, n', x, hn, hn', hchange⟩ | ⟨hnone, hnew⟩ := session_cases h i j
  · have hdue : y.due i j = n.due := by simp [due, hn]
    have hdue' : z.due i j = n'.due := by simp [due, hn']
    have hreceived : seeReception i j y a z = (n.received n').toList := by
      simp [seeReception, hn, hn']
    have hpopped : (seePop i j y a z).map Prod.snd = (n.popped n').toList := by
      simp [seePop, hn, hn', Function.comp_def]
    rw [hdue, hreceived, hpopped]
    rw [hdue'] at hrest
    cases hchange.delivery with
    | passedOn hflow =>
        rw [← List.append_assoc n.due, ← hflow, List.append_assoc]
        exact (List.prefix_append_right_inj _).2 hrest
    | givenUp hended hprefix hpopped hreceived =>
        rw [pops_eq_nil hn' hended, List.map_nil, List.append_nil] at hrest
        rw [hreceived, hpopped]
        exact (hrest.trans hprefix).trans (List.prefix_append _ _)
    | finished hover hreceived =>
        obtain ⟨hnone, hnil⟩ := receptions_eq_nil allowed hn' hover steps
        rw [hreceived, hnone, hnil]
        exact List.nil_prefix
  · have hdue : y.due i j = [] := by simp [due, hnone]
    have hdue' : z.due i j = [] := by
      unfold due
      cases hn' : z.session? i j with
      | none => rfl
      | some n' =>
          rw [hnew n' hn']
          rfl
    rw [hdue'] at hrest
    simpa [seeReception, seePop, hnone, hdue] using hrest

/-- A session receives what it has popped, and nothing else, in the order of the pops. -/
theorem receptions_prefix (allowed : System → Step → Bool) (i : SchedulerId) (j : SessionId)
    (y : System) (steps : List Step) :
    y.receptions allowed i j steps ++ (y.run allowed steps).due i j <+:
      y.due i j ++ (y.pops allowed i j steps).map Prod.snd := by
  induction steps generalizing y with
  | nil => simp [receptions, pops, observe, run]
  | cons a steps ih =>
      cases hnext : y.next? allowed a with
      | none =>
          unfold receptions pops at ih ⊢
          rw [observe_cons_of_none hnext, observe_cons_of_none hnext, run_cons_of_none hnext]
          exact ih y
      | some z =>
          have hz := (next?_eq_some_iff.1 hnext).2
          have hreceptions : y.receptions allowed i j (a :: steps) =
              seeReception i j y a z ++ z.receptions allowed i j steps :=
            observe_cons_of_some hnext steps
          have hpops : y.pops allowed i j (a :: steps) =
              seePop i j y a z ++ z.pops allowed i j steps :=
            observe_cons_of_some hnext steps
          rw [hreceptions, hpops, run_cons_of_some hnext, List.map_append, List.append_assoc]
          exact receptions_prefix_step allowed i j hz (ih z)

/-! ## The order of the pops -/

/-- A plan is queued in a scheduler. -/
def Queues (y : System) (i : SchedulerId) (p : Plan) : Prop :=
  ∃ s : Scheduler, y.schedulers[i]? = some s ∧ s.queue.entries.get? p.key = some p

instance (y : System) : DispatchOrder y.planOrder :=
  inferInstanceAs (DispatchOrder (Plan.order y.phase))

/-- A plan that is popped in a step is taken from the queue as the least one. -/
theorem take_of_mem_seePop {x : System × Plan} (h : y.step? a = some z)
    (hx : x ∈ seePop i j y a z) :
    x.1 = y ∧ ∃ s s' : Scheduler, y.schedulers[i]? = some s ∧ z.schedulers[i]? = some s' ∧
      s.queue.takeFirst y.planOrder = some (x.2, s'.queue) := by
  unfold seePop at hx
  split at hx
  · rename_i n n' hn hn'
    obtain ⟨p, hp, rfl⟩ := List.mem_map.1 hx
    rw [Option.mem_toList] at hp
    obtain ⟨s, hs, hget⟩ := session?_eq_some_iff.1 hn
    obtain ⟨s', m, hs', hm, -, hchange⟩ := change_of_session h hs hget
    have hsame : z.session? i j = some m := session?_eq_some_iff.2 ⟨s', hs', hm⟩
    obtain rfl := Option.some.inj (hn'.symm.trans hsame)
    refine ⟨rfl, s, s', hs, hs', ?_⟩
    obtain rfl | hchange := hchange
    · simp [Session.popped] at hp
    · exact hchange.take_of_popped hp
  · cases hx

/-- A plan that stays queued when another is popped comes after it in the order of dispatch. -/
theorem lt_of_mem_seePop {x : System × Plan} (h : y.step? a = some z)
    (hx : x ∈ seePop i j y a z) (hbefore : y.Queues i p) (hafter : z.Queues i p) :
    x.1.planOrder x.2 p = .lt := by
  obtain ⟨hy, s, s', hs, hs', htake⟩ := take_of_mem_seePop h hx
  obtain ⟨s₀, hs₀, hget⟩ := hbefore
  obtain ⟨s₁, hs₁, hkept⟩ := hafter
  obtain rfl := Option.some.inj (hs.symm.trans hs₀)
  obtain rfl := Option.some.inj (hs'.symm.trans hs₁)
  have hmem : p ∈ s.queue.entries.values := Registry.mem_values_iff.2 ⟨p.key, hget⟩
  have hle := Queue.isLE_of_takeFirst htake hmem
  have hkey : x.2.key ≠ p.key := by
    intro heq
    have hqueue := (Queue.mem_of_takeFirst htake).2
    rw [hqueue, Registry.get?_erase] at hkept
    have herased : p.key = key x.2 := heq.symm
    rw [if_pos herased] at hkept
    cases hkept
  rw [hy]
  exact DispatchOrder.lt_of_isLE hle hkey

/-- A plan that is popped was queued, and came before all others in the order of dispatch. -/
theorem first_of_mem_pops {x : System × Plan} {steps : List Step} (hy : y.ReachableBy allowed)
    (hx : x ∈ y.pops allowed i j steps) :
    x.1.Queues i x.2 ∧ ∀ q, x.1.Queues i q → q = x.2 ∨ x.1.planOrder x.2 q = .lt := by
  obtain ⟨past, -, a, z, -, hnext, hsee⟩ := exists_of_mem_observe hx
  have hz := (next?_eq_some_iff.1 hnext).2
  obtain ⟨hu, s, s', hs, -, htake⟩ := take_of_mem_seePop hz hsee
  rw [hu]
  have hkeyed := ((hy.run past).queue hs).2
  obtain ⟨k, hk⟩ := Registry.mem_values_iff.1 (Queue.mem_of_takeFirst htake).1
  have hself : s.queue.entries.get? x.2.key = some x.2 := by
    have heq : x.2.key = k := hkeyed k x.2 hk
    rw [heq, hk]
  refine ⟨⟨s, hs, hself⟩, fun q hq => ?_⟩
  obtain ⟨s₀, hs₀, hget⟩ := hq
  obtain rfl := Option.some.inj (hs.symm.trans hs₀)
  have hle := Queue.isLE_of_takeFirst htake (Registry.mem_values_iff.2 ⟨q.key, hget⟩)
  by_cases hkey : x.2.key = q.key
  · rw [← hkey, hself] at hget
    exact .inl (Option.some.inj hget).symm
  · exact .inr (DispatchOrder.lt_of_isLE hle hkey)

theorem length_seePop_le_one (i : SchedulerId) (j : SessionId) (y : System) (a : Step)
    (z : System) : (seePop i j y a z).length ≤ 1 := by
  unfold seePop
  split
  · rename_i n n' _ _
    cases n.popped n' <;> simp
  · exact Nat.zero_le 1

/-- The plans that are popped while a plan stays queued all come before it. -/
theorem lt_of_mem_take_pops {steps : List Step} {m : Nat}
    (hstays : ∀ w, w <+: steps → (y.pops allowed i j w).length ≤ m →
      (y.run allowed w).Queues i p)
    {x : System × Plan} (hx : x ∈ (y.pops allowed i j steps).take m) :
    x.1.planOrder x.2 p = .lt := by
  induction steps generalizing y m with
  | nil => simp [pops, observe] at hx
  | cons a steps ih =>
      cases hnext : y.next? allowed a with
      | none =>
          have hpops (w : List Step) : y.pops allowed i j (a :: w) = y.pops allowed i j w :=
            observe_cons_of_none hnext w
          rw [hpops] at hx
          refine ih (fun w hw hlength => ?_) hx
          have hqueued := hstays (a :: w) ((List.cons_prefix_cons).2 ⟨rfl, hw⟩) (by rwa [hpops])
          rwa [run_cons_of_none hnext] at hqueued
      | some z =>
          have hz := (next?_eq_some_iff.1 hnext).2
          have hpops (w : List Step) : y.pops allowed i j (a :: w) =
              seePop i j y a z ++ z.pops allowed i j w := observe_cons_of_some hnext w
          rw [hpops, List.take_append, List.mem_append] at hx
          obtain hx | hx := hx
          · have hmem := List.mem_of_mem_take hx
            have hone := length_seePop_le_one i j y a z
            have hpos := List.length_pos_of_mem hx
            rw [List.length_take] at hpos
            have hlength : (seePop i j y a z).length ≤ m := by omega
            have hbefore : y.Queues i p := hstays [] List.nil_prefix (Nat.zero_le m)
            have hafter := hstays [a] ((List.cons_prefix_cons).2 ⟨rfl, List.nil_prefix⟩)
              (by rw [hpops]; simpa [pops, observe] using hlength)
            rw [run_cons_of_some hnext] at hafter
            exact lt_of_mem_seePop hz hmem hbefore hafter
          · have hpos := List.length_pos_of_mem hx
            rw [List.length_take] at hpos
            refine ih (fun w hw hlength => ?_) hx
            have hlength' : (y.pops allowed i j (a :: w)).length ≤ m := by
              rw [hpops, List.length_append]
              omega
            have hqueued := hstays (a :: w) ((List.cons_prefix_cons).2 ⟨rfl, hw⟩) hlength'
            rwa [run_cons_of_some hnext] at hqueued

/-- The plans that are popped in a run before the one with number `m` and are not received in its
beginning `past`, each with the system in which it is popped. As plans are received in the order in
which they are popped, these are the plans received after `past` and before that one. -/
def receivedBetween (allowed : System → Step → Bool) (i : SchedulerId) (j : SessionId)
    (y : System) (past steps : List Step) (m : Nat) : List (System × Plan) :=
  ((y.pops allowed i j steps).take m).drop (y.receptions allowed i j past).length

/-- While a plan stays queued at most two plans are received that did not come before it when they
were popped. -/
theorem countP_receivedBetween_le {past steps : List Step} {m : Nat} (hpast : past <+: steps)
    (hnew : y.missing i j = 0)
    (hstays : ∀ w, past <+: w → w <+: steps → (y.pops allowed i j w).length ≤ m →
      (y.run allowed w).Queues i p) :
    (y.receivedBetween allowed i j past steps m).countP
      (fun x => x.1.planOrder x.2 p != .lt) ≤ 2 := by
  obtain ⟨rest, rfl⟩ := hpast
  have hpops (w : List Step) : y.pops allowed i j (past ++ w) =
      y.pops allowed i j past ++ (y.run allowed past).pops allowed i j w :=
    observe_append y past w
  have hmissing := length_pops_le allowed i j y past
  have htwo := (y.run allowed past).missing_le_two i j
  unfold receivedBetween
  rw [hpops, List.take_append, List.drop_append, List.countP_append]
  have hfirst : (((y.pops allowed i j past).take m).drop
      (y.receptions allowed i j past).length).countP (fun x => x.1.planOrder x.2 p != .lt) ≤ 2 := by
    refine Nat.le_trans List.countP_le_length ?_
    rw [List.length_drop, List.length_take]
    omega
  have hrest (x : System × Plan)
      (hx : x ∈ ((y.run allowed past).pops allowed i j rest).take
        (m - (y.pops allowed i j past).length)) : x.1.planOrder x.2 p = .lt := by
    by_cases hm : (y.pops allowed i j past).length ≤ m
    · refine lt_of_mem_take_pops (fun w hw hlength => ?_) hx
      rw [← run_append]
      refine hstays _ (List.prefix_append past w) ((List.prefix_append_right_inj past).2 hw) ?_
      rw [hpops, List.length_append]
      omega
    · rw [Nat.sub_eq_zero_of_le (by omega)] at hx
      cases hx
  have hzero : ((((y.run allowed past).pops allowed i j rest).take
      (m - (y.pops allowed i j past).length)).drop ((y.receptions allowed i j past).length -
        ((y.pops allowed i j past).take m).length)).countP
      (fun x => x.1.planOrder x.2 p != .lt) = 0 := by
    refine List.countP_eq_zero.2 fun x hx => ?_
    simp [hrest x (List.mem_of_mem_drop hx)]
  omega

/-- Within a session the plans are received in exactly the order in which they are popped. Each is
popped when it is the first of all queued plans in the order of dispatch of that moment. And while a
plan stays queued until it is popped as number `m`, at most two plans are received before it that
did not come before it when they were popped. -/
theorem dispatched_in_order (origin : Int) (allowed : System → Step → Bool) (i : SchedulerId)
    (j : SessionId) (steps : List Step) :
    (create origin).receptions allowed i j steps <+:
        ((create origin).pops allowed i j steps).map Prod.snd ∧
      (∀ x ∈ (create origin).pops allowed i j steps,
        x.1.Queues i x.2 ∧ ∀ q, x.1.Queues i q → q = x.2 ∨ x.1.planOrder x.2 q = .lt) ∧
      ∀ (m : Nat) (u : System) (p : Plan) (past : List Step),
        ((create origin).pops allowed i j steps)[m]? = some (u, p) → past <+: steps →
        (∀ w, past <+: w → w <+: steps → ((create origin).pops allowed i j w).length ≤ m →
          ((create origin).run allowed w).Queues i p) →
        ((create origin).receivedBetween allowed i j past steps m).countP
          (fun x => x.1.planOrder x.2 p != .lt) ≤ 2 := by
  have hnone : (create origin).session? i j = none := by simp [session?, create]
  refine ⟨?_, fun x hx => first_of_mem_pops (.create origin) hx, ?_⟩
  · have hprefix := receptions_prefix allowed i j (create origin) steps
    have hdue : (create origin).due i j = [] := by simp [due, hnone]
    rw [hdue, List.nil_append] at hprefix
    exact (List.prefix_append _ _).trans hprefix
  · intro m u p past _ hpast hstays
    have hmissing : (create origin).missing i j = 0 := by simp [missing, hnone]
    exact countP_receivedBetween_le hpast hmissing hstays

/-- A plan that is queued after three others, and comes before them all. -/
def urgentPlan : Plan := ⟨3, "p", ⟨0⟩, 0, none, -1, false, none⟩

/-- With one permit a plan runs, one is in the channel and one is being sent when an urgent plan is
queued; then all of them run one after the other. -/
def overtakenSteps : List Step :=
  [.request .newContext, .request (.newTask "a" [] fun _ => []),
    .request (.newTask "b" [] fun _ => []), .request (.newTask "c" [] fun _ => []),
    .request (.newTask "p" [] fun _ => []), .request (.newScheduler ⟨1, .localTime, {}⟩),
    .request (.addPlans 0
      [⟨0, "a", ⟨0⟩, 0, none, 0, false, none⟩, ⟨1, "b", ⟨0⟩, 0, none, 0, false, none⟩,
        ⟨2, "c", ⟨0⟩, 0, none, 0, false, none⟩]),
    .request (.startScheduler 0 0), .move (.dispatch 0 0) 0, .move (.dispatch 0 0) 0,
    .move (.fetch 0 0) 0, .move (.fetch 0 0) 0, .move (.dispatch 0 0) 0,
    .move (.fetch 0 0) 0, .move (.fetch 0 0) 0, .move (.fetch 0 0) 0,
    .request (.addPlans 0 [urgentPlan]),
    .move (.worker 0 0 0) 0, .move (.run 0) 0, .move (.run 0) 0, .move (.run 0) 0,
    .move (.worker 0 0 0) 0, .move (.dispatch 0 0) 0, .move (.dispatch 0 0) 0,
    .move (.fetch 0 0) 0, .move (.fetch 0 0) 0,
    .move (.worker 0 0 1) 0, .move (.run 1) 0, .move (.run 1) 0, .move (.run 1) 0,
    .move (.worker 0 0 1) 0, .move (.dispatch 0 0) 0, .move (.dispatch 0 0) 0,
    .move (.fetch 0 0) 0,
    .move (.worker 0 0 2) 0, .move (.run 2) 0, .move (.run 2) 0, .move (.run 2) 0,
    .move (.worker 0 0 2) 0, .move (.dispatch 0 0) 0, .move (.dispatch 0 0) 0]

/-- Two plans that do not come before the urgent one are received before it, and no more. -/
theorem dispatched_in_order_overtakenSteps :
    ((create 0).receptions (fun _ _ => true) 0 0 overtakenSteps).map Plan.key =
        ["a", "b", "c", "p"] ∧
      ((create 0).receivedBetween (fun _ _ => true) 0 0 (overtakenSteps.take 17) overtakenSteps
        3).countP (fun x => x.1.planOrder x.2 urgentPlan != .lt) = 2 := by
  have hreceived : ((create 0).receptions (fun _ _ => true) 0 0 overtakenSteps).map Plan.key =
      ["a", "b", "c", "p"] := by decide +kernel
  have htwo : 2 ≤ ((create 0).receivedBetween (fun _ _ => true) 0 0 (overtakenSteps.take 17)
      overtakenSteps 3).countP (fun x => x.1.planOrder x.2 urgentPlan != .lt) := by
    decide +kernel
  have hpop : (((create 0).pops (fun _ _ => true) 0 0 overtakenSteps)[3]?.map Prod.snd) =
      some urgentPlan := by decide +kernel
  have hqueued : ((List.range (overtakenSteps.length + 1)).all fun k => k < 17 ||
      (3 < ((create 0).pops (fun _ _ => true) 0 0 (overtakenSteps.take k)).length ||
        ((create 0).run (fun _ _ => true) (overtakenSteps.take k)).schedulers[0]?.any fun s =>
          s.queue.entries.get? "p" == some urgentPlan)) = true := by decide +kernel
  obtain ⟨⟨u, p⟩, hu, rfl⟩ := Option.map_eq_some_iff.1 hpop
  have hle := (dispatched_in_order 0 (fun _ _ => true) 0 0 overtakenSteps).2.2 3 u urgentPlan
    (overtakenSteps.take 17) hu (List.take_prefix 17 _) fun w hpast hw hlength => by
      have hprefix : w = overtakenSteps.take w.length := List.prefix_iff_eq_take.1 hw
      have hk := List.all_eq_true.1 hqueued w.length
        (List.mem_range.2 (Nat.lt_succ_of_le hw.length_le))
      rw [← hprefix] at hk
      have hlong : 17 ≤ w.length := hpast.length_le
      simp only [Bool.or_eq_true, decide_eq_true_eq] at hk
      obtain hshort | hlater | hk := hk
      · omega
      · omega
      · obtain ⟨s, hs, hget⟩ := (Option.any_eq_true _ _).1 hk
        exact ⟨s, hs, beq_iff_eq.1 hget⟩
  exact ⟨hreceived, Nat.le_antisymm hle htwo⟩

end System

end Scheduling
