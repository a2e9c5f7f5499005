import Scheduling.Proofs.ExecutorUses
import Scheduling.Proofs.Retries
/-!
# Whom a cancellation reaches

A start call keeps the halt flag that was made when it was let in, and a cancellation of the
executor raises the newest flag. So it reaches the call exactly as long as no other flag has come in
place of that one: not after a reset, nor after a further start call that was let in, even if that
one was refused at once. A call that is reached begins no further attempt. One that is not reached
goes on with its next attempt when its pause is over.
-/

namespace Scheduling

/-- The halt flag that a start call keeps. -/
def CallPoint.halt? : CallPoint → Option Nat
  | .entered => none
  | .running _ halt _ | .pausing _ halt _ _ => some halt

namespace System

variable {y z u v w : System} {a b : Step} {who : Caller} {e : ExecutorId} {x x' : Executor}
  {task : Task} {context : ContextId} {point : CallPoint} {attempt halt : Nat} {choice : Nat}
  {c : StartCall} {made : System × CallStatus}

/-- A halt flag of an executor was raised. -/
def isRaised (y : System) (e : ExecutorId) (halt : Nat) : Bool :=
  y.executors[e]?.any fun x => x.isHalted halt

/-- Whether a step cancels an executor, at a request or for a call that stops it. -/
def cancels (y : System) (e : ExecutorId) : Step → Bool
  | .request (.cancelExecutor e') => e' == e
  | .move (.call k) _ =>
    match y.calls[k]? with
    | some (.stop e' _) => e' == e
    | _ => false
  | _ => false

/-- When an executor gets a new halt flag. -/
def seeRenewal (e : ExecutorId) (y : System) (a : Step) (_ : System) : List Instant :=
  if y.renews e a then [y.now] else []

/-- When the start call of someone begins an attempt, for which it makes a context. -/
def seeBegin (who : Caller) (y : System) (a : Step) (_ : System) : List Instant :=
  match y.ownMove? who a with
  | some (u, _) => if y.contexts.nodes.size < u.contexts.nodes.size then [y.now] else []
  | none => []

theorem seeBegin_of_other (hown : y.ownMove? who a = none) : seeBegin who y a z = [] := by
  simp only [seeBegin, hown]

theorem seeBegin_of_move {status : CallStatus} (hown : y.ownMove? who a = some (u, status)) :
    seeBegin who y a z = if y.contexts.nodes.size < u.contexts.nodes.size then [y.now] else [] := by
  simp only [seeBegin, hown]

theorem isRaised_eq (hx : y.executors[e]? = some x) : y.isRaised e halt = x.isHalted halt := by
  rw [isRaised, hx, Option.any_some]

/-- An executor with its task is there. -/
def HasExecutor (y : System) (e : ExecutorId) : Prop :=
  ∃ x task, y.executors[e]? = some x ∧ y.tasks[x.task]? = some task

theorem hasExecutor_of_step (hz : y.step? a = some z) (h : y.HasExecutor e) : z.HasExecutor e := by
  obtain ⟨x, task, hx, htask⟩ := h
  obtain ⟨x', hx', hfollows⟩ := (proceeds_of_step hz).executors e x hx
  obtain ⟨task', htask', -⟩ := (proceeds_of_step hz).tasks x.task task htask
  exact ⟨x', task', hx', by rw [hfollows.task, htask']⟩

/-- The executor of a start call that can make a move is there. -/
theorem hasExecutor_of_callMove? (hmade : y.callMove? c choice = some made) :
    y.HasExecutor c.executor := by
  obtain ⟨x, task, hx, htask, -⟩ := course_of_mem (List.mem_of_getElem? hmade)
  exact ⟨x, task, hx, htask⟩

/-- No halt flag is taken back. -/
theorem isRaised_of_step (hz : y.step? a = some z) (h : y.isRaised e halt = true) :
    z.isRaised e halt = true := by
  obtain ⟨x, hx, hraised⟩ := (Option.any_eq_true _ _).1 h
  obtain ⟨x', hx', hfollows⟩ := (proceeds_of_step hz).executors e x hx
  rw [isRaised_eq hx']
  exact hfollows.raised halt hraised

/-! ## Cancellations -/

theorem executors_cancelTask (y : System) (t : TaskId) :
    (y.cancelTask t).2.executors = y.executors := by
  obtain ⟨-, h⟩ | ⟨_, -, -, ⟨-, h⟩ | ⟨_, -, h⟩⟩ := cancelTask_cases y t <;> rw [h] <;> rfl

theorem executors_cancelExecutor (hx : y.executors[e]? = some x) :
    (y.cancelExecutor e).2.executors[e]? = some x.raiseHalt := by
  simp only [cancelExecutor, hx, executors_cancelTask]
  exact modifyExecutor_look y hx

/-- What a cancellation does is to raise the newest halt flag, among other things. -/
theorem executor_of_cancels (h : y.cancels e a = true) (hz : y.step? a = some z)
    (hx : y.executors[e]? = some x) : z.executors[e]? = some x.raiseHalt := by
  cases a with
  | pass => cases h
  | request r =>
      obtain ⟨-, rfl⟩ := step_request_iff.1 hz
      cases r with
      | cancelExecutor e' =>
          obtain rfl := beq_iff_eq.1 h
          exact executors_cancelExecutor hx
      | _ => cases h
  | move actor choice =>
      cases actor with
      | call k =>
          obtain ⟨call, u, call', hcall, hmove, rfl⟩ := callMove_of_mem (List.mem_of_getElem? hz)
          simp only [cancels, hcall] at h
          cases hmove with
          | stopAndWait | stop =>
              obtain rfl := beq_iff_eq.1 h
              exact executors_cancelExecutor hx
          | _ => cases h
      | _ => cases h

/-- A cancellation is no move of a start call. -/
theorem startCall?_of_cancels {allowed : System → Step → Bool} (h : y.ReachableBy allowed)
    (hcancels : y.cancels e a = true) (hz : y.step? a = some z)
    (hcall : y.startCall? who = some c) : z.startCall? who = some c := by
  refine (h.startCall?_of_step hz (h.names_of_startCall? hcall) fun choice ha => ?_).trans hcall
  subst ha
  cases who with
  | call k =>
      have hk := startCall?_call_iff.1 hcall
      simp only [cancels, Caller.actor, hk] at hcancels
      cases hcancels
  | worker => cases hcancels

theorem clock_of_cancels (hcancels : y.cancels e a = true) (hz : y.step? a = some z) :
    z.clock = y.clock := by
  rw [clock_of_step hz]
  cases a with
  | pass => cases hcancels
  | _ => rfl

/-! ## The flag of a start call -/

/-- A start call keeps the halt flag that was made for it. -/
theorem Course.halt?_eq {point' : CallPoint}
    (h : y.Course e x task context point (u, .at point')) :
    point'.halt? = some (point.halt?.getD x.halts.size) := by
  cases h with
  | launches hdue => cases hdue <;> rfl
  | pauses => rfl

/-- A start call, unless it has ended, keeps a halt flag of its executor, in whose place so many
others have come since. -/
structure Bears (y : System) (who : Caller) (e : ExecutorId) (context : ContextId) (halt : Nat)
    (renewed : Nat) : Prop where
  names : y.Names who
  holds : ∀ c, y.startCall? who = some c → c.executor = e ∧ c.context = context ∧
    c.point.halt? = some halt ∧ ∃ x, y.executors[e]? = some x ∧ x.halts.size = halt + 1 + renewed

theorem Bears.step {renewed : Nat} (h : y.Bears who e context halt renewed) (hy : y.Reachable)
    (hz : y.step? a = some z) :
    z.Bears who e context halt (renewed + if y.renews e a then 1 else 0) where
  names := h.names.step hz
  holds c hcall := by
    have hflags {c₀ : StartCall} (hcall₀ : y.startCall? who = some c₀) :
        ∃ x, z.executors[e]? = some x ∧
          x.halts.size = halt + 1 + (renewed + if y.renews e a then 1 else 0) := by
      obtain ⟨-, -, -, x, hx, hsize⟩ := h.holds c₀ hcall₀
      obtain ⟨x', hx', -, hsize'⟩ := hy.halts_of_step hz hx
      exact ⟨x', hx', by rw [hsize', hsize, Nat.add_assoc]⟩
    obtain ⟨-, hsame, -⟩ | ⟨c₀, choice, u, status, hcall₀, hmade, -, -, hstatus⟩ :=
      hy.ownMove_cases hz h.names
    · have hcall₀ := hsame.symm.trans hcall
      obtain ⟨he, hcontext, hhalt, -⟩ := h.holds c hcall₀
      exact ⟨he, hcontext, hhalt, hflags hcall₀⟩
    · obtain ⟨he, hcontext, hhalt, -⟩ := h.holds c₀ hcall₀
      obtain ⟨x, task, -, -, hcourse⟩ := course_of_mem (List.mem_of_getElem? hmade)
      rw [hstatus] at hcall
      cases status with
      | «at» point' =>
          obtain rfl := Option.some.inj hcall
          refine ⟨he, hcontext, ?_, hflags hcall₀⟩
          rw [hcourse.halt?_eq, hhalt]
          rfl
      | ended => cases hcall

/-- After its first move a start call keeps the flag that was made for it, the newest one. -/
theorem bears_of_enter (hy : y.Reachable)
    (hcall : y.startCall? who = some ⟨e, context, .entered⟩)
    (hz : y.step? (.move who.actor choice) = some z) :
    ∃ halt, z.Bears who e context halt 0 := by
  obtain ⟨u, status, hmade, hresumes, hstatus⟩ := hy.startCall?_of_move hz hcall
  obtain ⟨x, task, hx, htask, hcourse⟩ := course_of_mem (List.mem_of_getElem? hmade)
  refine ⟨x.halts.size, (hy.names_of_startCall? hcall).step hz, fun c hc => ?_⟩
  rw [hstatus] at hc
  cases status with
  | «at» point =>
      obtain rfl := Option.some.inj hc
      refine ⟨rfl, rfl, hcourse.halt?_eq, ?_⟩
      obtain ⟨x', hx', hsize⟩ := hcourse.halts_size hx htask
      refine ⟨x', hresumes.executors ▸ hx', ?_⟩
      cases hcourse with
      | launches hdue => rw [hsize, if_pos ((hdue.letsIn_iff hx htask).2 rfl)]
  | ended => cases hc

/-- In a run a start call keeps its flag, and each renewal that is seen brings a newer one. -/
theorem Bears.run (h : y.Bears who e context halt 0) (hy : y.Reachable) (steps : List Step) :
    (y.run (fun _ _ => true) steps).Bears who e context halt
      (y.observe (fun _ _ => true) (seeRenewal e) steps).length := by
  have hstart : y.Reachable ∧ y.Bears who e context halt ([] : List Instant).length := ⟨hy, h⟩
  refine (observe_induction
    (P := fun y seen => y.Reachable ∧ y.Bears who e context halt seen.length)
    (fun y a z seen _ hz hy => ⟨.step hy.1 rfl hz, ?_⟩) hstart steps).2
  have hstep := hy.2.step hy.1 hz
  rw [List.length_append, seeRenewal]
  split <;> simp_all

/-- A cancellation raises the flag of a start call, unless it was raised before, exactly if no other
flag has come in its place. -/
theorem Bears.isRaised_iff {renewed : Nat} (h : v.Bears who e context halt renewed)
    (hunder : v.startCall? who = some ⟨e, context, point⟩) (hcancels : v.cancels e b = true)
    (hw : v.step? b = some w) :
    w.isRaised e halt = true ↔ v.isRaised e halt = true ∨ renewed = 0 := by
  obtain ⟨-, -, -, x, hx, hsize⟩ := h.holds _ hunder
  have hcurrent : x.currentHalt = halt + renewed := by
    rw [Executor.currentHalt, hsize]
    omega
  rw [isRaised_eq (executor_of_cancels hcancels hw hx), isRaised_eq hx,
    Executor.isHalted_raiseHalt, hcurrent, hsize]
  split
  · exact ⟨fun _ => .inr (by omega), fun _ => rfl⟩
  · exact ⟨.inl, fun h => h.resolve_right (by omega)⟩

/-- A start call that a cancellation has not reached is out of reach of all later ones. -/
theorem Bears.lost {renewed : Nat} (h : v.Bears who e context halt renewed)
    (hunder : v.startCall? who = some ⟨e, context, point⟩) (hcancels : v.cancels e b = true)
    (hw : v.step? b = some w) (hlost : w.isRaised e halt = false) (steps : List Step) :
    (w.run (fun _ _ => true) steps).isRaised e halt = false := by
  have hrenewed : renewed ≠ 0 := fun hzero => by
    rw [(h.isRaised_iff hunder hcancels hw).2 (.inr hzero)] at hlost
    cases hlost
  obtain ⟨-, -, -, x, hx, hsize⟩ := h.holds _ hunder
  have hx' := executor_of_cancels hcancels hw hx
  have hnewer : halt < x.raiseHalt.currentHalt := by
    rw [currentHalt_raiseHalt, Executor.currentHalt, hsize]
    omega
  obtain ⟨x', hrun, hfollows⟩ := executor_of_run hx' (fun _ _ => true) steps
  rw [isRaised_eq hx'] at hlost
  rw [isRaised_eq hrun, hfollows.older halt hnewer, hlost]

/-! ## What becomes of a start call that is reached, and of one that is not -/

/-- A start call, unless it has ended, has been told to stop by its halt flag before the end of a
pause. -/
structure Halting (y : System) (who : Caller) (e : ExecutorId) (halt : Nat) : Prop where
  reachable : y.Reachable
  names : y.Names who
  raised : y.isRaised e halt = true
  executor : y.HasExecutor e
  early : ∀ c, y.startCall? who = some c → c.executor = e ∧ c.point.halt? = some halt ∧
    ∀ wake, c.point.wake? = some wake → y.now < wake

/-- While others move the call does not come to the end of a pause. -/
theorem Halting.others (h : y.Halting who e halt) (hz : y.step? a = some z)
    (ha : y.onTime who a = true) (hsame : z.startCall? who = y.startCall? who) :
    z.Halting who e halt where
  reachable := h.reachable.step rfl hz
  names := h.names.step hz
  raised := isRaised_of_step hz h.raised
  executor := hasExecutor_of_step hz h.executor
  early c hcall := by
    rw [hsame] at hcall
    obtain ⟨he, hhalt, hearly⟩ := h.early c hcall
    refine ⟨he, hhalt, fun wake hwake => ?_⟩
    cases a with
    | pass millis =>
        -- The call could end its pause at once, so time does not pass.
        obtain ⟨executor, context, point⟩ := c
        cases point with
        | pausing attempt halt' wake' last =>
            obtain rfl : executor = e := he
            obtain rfl := Option.some.inj hhalt
            obtain ⟨x, task, hx, htask⟩ := h.executor
            simp only [onTime, hcall, Option.all_some, Bool.and_eq_true, List.isEmpty_iff] at ha
            obtain ⟨-, hhalted, -⟩ := Cycle.waits_pausing hx htask ha.1
            rw [← isRaised_eq hx, h.raised] at hhalted
            cases hhalted
        | _ => cases hwake
    | _ =>
        rw [now, clock_of_step hz]
        exact hearly wake hwake

/-- The next move of the call is its last, and begins no attempt. -/
theorem Halting.move {status : CallStatus} (h : y.Halting who e halt)
    (hcall : y.startCall? who = some c) (hmade : y.callMove? c choice = some (u, status)) :
    status.point? = none ∧ u.contexts.nodes.size = y.contexts.nodes.size := by
  obtain ⟨executor, context, point⟩ := c
  obtain ⟨rfl, hhalt, hearly⟩ := h.early _ hcall
  obtain ⟨x, task, hx, -, hcourse⟩ := course_of_mem (List.mem_of_getElem? hmade)
  have hdue {attempt halt' : Nat} {x' : Executor} :
      ¬ y.Due x task context point attempt halt' x' := by
    intro hdue
    cases hdue with
    | enters => cases hhalt
    | retries hwake => exact Nat.not_lt_of_le hwake (hearly _ rfl)
  cases hcourse with
  | bars | givesUp => exact ⟨rfl, rfl⟩
  | overruns h | conflicts h | launches h => exact absurd h hdue
  | overrests _ _ _ _ hsame | returns _ _ _ _ hsame => exact ⟨rfl, hsame⟩
  | pauses _ _ _ _ _ _ _ hgoes =>
      obtain rfl := Option.some.inj hhalt
      have hhalted := h.raised
      rw [isRaised_eq hx] at hhalted
      simp [endsCycle, hhalted] at hgoes

theorem Halting.step (h : y.Halting who e halt) (hz : y.step? a = some z)
    (ha : y.onTime who a = true) : z.Halting who e halt ∧ seeBegin who y a z = [] := by
  obtain ⟨hown, hsame, -⟩ | ⟨c, choice, u, status, hcall, hmade, hown, -, hstatus⟩ :=
    h.reachable.ownMove_cases hz h.names
  · exact ⟨h.others hz ha hsame, seeBegin_of_other hown⟩
  · obtain ⟨hended, hsize⟩ := h.move hcall hmade
    refine ⟨⟨h.reachable.step rfl hz, h.names.step hz, isRaised_of_step hz h.raised,
      hasExecutor_of_step hz h.executor, fun c' hcall' => ?_⟩, ?_⟩
    · rw [hstatus] at hcall'
      cases status with
      | «at» point => cases hended
      | ended => cases hcall'
    · rw [seeBegin_of_move hown, hsize, if_neg (Nat.lt_irrefl _)]

/-- A start call that is told to stop in time begins no further attempt. -/
theorem Halting.begins_nothing (h : y.Halting who e halt) (steps : List Step) :
    y.observe (onTime who) (seeBegin who) steps = [] :=
  observe_eq_nil (P := fun y => y.Halting who e halt)
    (fun _ _ _ ha hz h => h.step hz ha) h steps

/-- At the end of a pause a start call that was not told to stop begins its next attempt. -/
theorem begins_of_due {wake : Instant} {last : Error}
    (hcall : y.startCall? who = some ⟨e, context, .pausing attempt halt wake last⟩)
    (hx : y.executors[e]? = some x) (htask : y.tasks[x.task]? = some task)
    (hraised : x.isHalted halt = false) (hlive : y.contexts.isDone context = false)
    (hwake : wake ≤ y.now) (hfits : y.fits x.options = true) :
    ∃ z, y.step? (.move who.actor 0) = some z ∧ seeBegin who y (.move who.actor 0) z = [y.now] := by
  have hcourse : y.Course e x task context (.pausing attempt halt wake last)
      (y.beginAttempt e x context attempt halt) :=
    course_beginAttempt htask (.retries hwake) (sets_refl hx) (.refl _) rfl
  have hmade : y.callMove? ⟨e, context, .pausing attempt halt wake last⟩ 0 =
      some (y.beginAttempt e x context attempt halt) := by
    simp [callMove?, executionMoves, hx, htask, hlive, hraised, hwake]
  generalize y.beginAttempt e x context attempt halt = made at hcourse hmade
  obtain ⟨u, status⟩ := made
  have hnew : y.contexts.nodes.size < u.contexts.nodes.size := by
    cases hcourse with
    | givesUp hwhy =>
        obtain hdone | hhalted := hwhy
        · rw [hlive] at hdone
          cases hdone
        · rw [hraised] at hhalted
          cases hhalted
    | overruns _ hbeyond =>
        rw [hfits] at hbeyond
        cases hbeyond
    | conflicts _ _ _ _ _ hnew | launches _ _ _ _ _ hnew => exact hnew
  obtain ⟨z, hz⟩ := exists_step_of_callMove? hcall hmade
  have hown : y.ownMove? who (.move who.actor 0) = some (u, status) := by
    simp [ownMove?, hcall, hmade]
  exact ⟨z, hz, by rw [seeBegin_of_move hown, if_pos hnew]⟩

theorem le_millis_advanceTo (y : System) (millis : Nat) :
    millis ≤ (y.advanceTo millis).clock.millis :=
  Nat.le_max_right _ _

theorem onTime_pass {millis : Nat} {wake : Instant} (hcall : y.startCall? who = some c)
    (hnil : y.executionMoves c.executor c.context c.point = [])
    (hwake : c.point.wake? = some wake) (hle : millis ≤ wake.ceilMillis) :
    y.onTime who (.pass millis) = true := by
  simp [onTime, hcall, hnil, hwake, hle]

/-- A start call that pauses and is not told to stop begins its next attempt when the pause is
over. -/
theorem begins_of_pausing {wake : Instant} {last : Error}
    (hcall : y.startCall? who = some ⟨e, context, .pausing attempt halt wake last⟩)
    (hx : y.executors[e]? = some x) (htask : y.tasks[x.task]? = some task)
    (hraised : x.isHalted halt = false) (hlive : y.contexts.isDone context = false)
    (hdue : y.now < wake) (hfits : (y.advanceTo wake.ceilMillis).fits x.options = true) :
    y.observe (onTime who) (seeBegin who) [.pass wake.ceilMillis, .move who.actor 0] ≠ [] := by
  have hlater : y.clock.millis < wake.ceilMillis := Clock.millis_lt_ceilMillis hdue
  have hwake : wake ≤ (y.advanceTo wake.ceilMillis).now := Clock.le_now (le_millis_advanceTo y _)
  have hnil : y.executionMoves e context (.pausing attempt halt wake last) = [] := by
    simp [executionMoves, hx, htask, hlive, hraised, Nat.not_le_of_lt hdue]
  have htime : y.onTime who (.pass wake.ceilMillis) = true :=
    onTime_pass hcall hnil rfl (Nat.le_refl _)
  -- Where two states are compared the number of milliseconds is not to be computed.
  generalize wake.ceilMillis = millis at *
  have hpass : y.next? (onTime who) (.pass millis) = some (y.advanceTo millis) :=
    next?_eq_some_iff.2 ⟨htime, step_pass_iff.2 ⟨hlater, rfl⟩⟩
  obtain ⟨z, hz, hbegin⟩ := begins_of_due (y := y.advanceTo millis) hcall hx htask hraised hlive
    hwake hfits
  have hmove : (y.advanceTo millis).next? (onTime who) (.move who.actor 0) = some z :=
    next?_eq_some_iff.2 ⟨rfl, hz⟩
  rw [observe_cons_of_some hpass, observe_cons_of_some hmove, hbegin]
  simp

/-- A start call that has been let in, at any time of any run, whatever else is asked of its
executor in the meantime; and a cancellation of the executor, at a request or for a call that stops
it, while the call waits for a run or for a timer that is not yet due. The cancellation raises the
flag of the call, unless that was done before, exactly if the executor has got no other flag since:
no reset and no start call that was let in has come between. If the flag is raised the call begins
no further attempt. If it is not, no later cancellation raises it either, and a call that pauses
under a live context begins its next attempt when the pause is over, as long as the clock can count
to the end of the timeout. -/
theorem cancel_reaches_iff (hy : y.Reachable)
    (hcall : y.startCall? who = some ⟨e, context, .entered⟩)
    (hz : y.step? (.move who.actor choice) = some z) (steps : List Step)
    (hv : z.run (fun _ _ => true) steps = v)
    (hunder : v.startCall? who = some ⟨e, context, point⟩) (hcancels : v.cancels e b = true)
    (hw : v.step? b = some w) (hdue : ∀ wake, point.wake? = some wake → v.now < wake) :
    ∃ halt x, point.halt? = some halt ∧ w.executors[e]? = some x ∧
      (w.isRaised e halt = true ↔ v.isRaised e halt = true ∨
        z.observe (fun _ _ => true) (seeRenewal e) steps = []) ∧
      (w.isRaised e halt = true → ∀ more, w.observe (onTime who) (seeBegin who) more = []) ∧
      (w.isRaised e halt = false →
        ∀ more, (w.run (fun _ _ => true) more).isRaised e halt = false) ∧
      ∀ attempt wake last, point = .pausing attempt halt wake last →
        w.isRaised e halt = false → w.contexts.isDone context = false →
          (w.advanceTo wake.ceilMillis).fits x.options = true →
            ∃ more, w.observe (onTime who) (seeBegin who) more ≠ [] := by
  have hreach : z.Reachable := hy.step rfl hz
  obtain ⟨halt, hbears⟩ := bears_of_enter hy hcall hz
  have hkeeps : (z.run (fun _ _ => true) steps).Bears who e context halt
      (z.observe (fun _ _ => true) (seeRenewal e) steps).length :=
    hbears.run hreach steps
  rw [hv] at hkeeps
  obtain ⟨-, -, hhalt, x, hx, -⟩ := hkeeps.holds _ hunder
  have hvreach : v.Reachable := hv ▸ hreach.run_any _ steps
  have hx' : w.executors[e]? = some x.raiseHalt := executor_of_cancels hcancels hw hx
  have hunder' : w.startCall? who = some ⟨e, context, point⟩ :=
    startCall?_of_cancels hvreach hcancels hw hunder
  have hdue' (wake : Instant) (hwake : point.wake? = some wake) : w.now < wake := by
    rw [now, clock_of_cancels hcancels hw]
    exact hdue wake hwake
  have hthere : w.HasExecutor e := by
    obtain ⟨_, _, hmade, -⟩ := hy.startCall?_of_move hz hcall
    have hstart : z.HasExecutor e := hasExecutor_of_step hz (hasExecutor_of_callMove? hmade)
    have hrun : (z.run (fun _ _ => true) steps).HasExecutor e :=
      run_induction (P := fun y => y.HasExecutor e) (fun _ _ _ _ hz h => hasExecutor_of_step hz h)
        hstart steps
    exact hasExecutor_of_step hw (hv ▸ hrun)
  refine ⟨halt, x.raiseHalt, hhalt, hx', ?_, fun hraised more => ?_,
    hkeeps.lost hunder hcancels hw, ?_⟩
  · rw [hkeeps.isRaised_iff hunder hcancels hw, List.length_eq_zero_iff]
  · have hhalting : w.Halting who e halt := by
      refine ⟨hvreach.step rfl hw, (hvreach.names_of_startCall? hunder).step hw, hraised, hthere,
        fun c hc => ?_⟩
      obtain rfl := Option.some.inj (hunder'.symm.trans hc)
      exact ⟨rfl, hhalt, hdue'⟩
    exact hhalting.begins_nothing more
  · rintro attempt wake last rfl hraised hlive hfits
    obtain ⟨x', task, hx'', htask⟩ := hthere
    obtain rfl := Option.some.inj (hx'.symm.trans hx'')
    rw [isRaised_eq hx'] at hraised
    exact ⟨_, begins_of_pausing hunder' hx' htask hraised hlive (hdue' wake rfl) hfits⟩

/-- After its first run the call pauses for ten seconds. -/
def pauseSteps : List Step := bodySteps 0 ++ [.move (.call 0) 0]

/-- A call that is cancelled in its pause begins no second attempt. -/
theorem cancel_reaches_pauseSteps :
    ∃ y z v w : System, y.Reachable ∧ y.startCall? (.call 0) = some ⟨0, 0, .entered⟩ ∧
      y.step? (.move (.call 0) 0) = some z ∧ z.run (fun _ _ => true) pauseSteps = v ∧
      v.startCall? (.call 0) = some ⟨0, 0, .pausing 1 1 10000000000 (.failed "no")⟩ ∧
      v.step? (.request (.cancelExecutor 0)) = some w ∧ w.isRaised 0 1 = true ∧
      ∀ more, w.observe (onTime (.call 0)) (seeBegin (.call 0)) more = [] := by
  have hcall : (after (startSteps retryTen)).startCall? (.call 0) = some ⟨0, 0, .entered⟩ := by
    decide +kernel
  have hrun : ((after (startSteps retryTen)).step? (.move (.call 0) 0)).any (fun z =>
      (z.observe (fun _ _ => true) (seeRenewal 0) pauseSteps).isEmpty &&
      (z.run (fun _ _ => true) pauseSteps).startCall? (.call 0) ==
        some ⟨0, 0, .pausing 1 1 10000000000 (.failed "no")⟩ &&
      decide ((z.run (fun _ _ => true) pauseSteps).now < 10000000000) &&
      ((z.run (fun _ _ => true) pauseSteps).step? (.request (.cancelExecutor 0))).isSome) =
        true := by
    decide +kernel
  have hreach : (after (startSteps retryTen)).Reachable := reachable_after _
  generalize after (startSteps retryTen) = y at hcall hrun hreach
  obtain ⟨z, hz, hrun⟩ := (Option.any_eq_true _ _).1 hrun
  simp only [Bool.and_eq_true, beq_iff_eq, decide_eq_true_eq, List.isEmpty_iff] at hrun
  obtain ⟨⟨⟨hnone, hunder⟩, hnow⟩, hcancel⟩ := hrun
  obtain ⟨w, hw⟩ := Option.isSome_iff_exists.1 hcancel
  obtain ⟨halt, x, hhalt, -, hiff, hreached, -, -⟩ := cancel_reaches_iff hreach hcall hz pauseSteps
    rfl hunder rfl hw fun wake hwake => Option.some.inj hwake ▸ hnow
  obtain rfl := Option.some.inj hhalt
  have hraised := hiff.2 (.inr hnone)
  exact ⟨y, z, _, w, hreach, hcall, hz, rfl, hunder, hw, hraised, hreached hraised⟩

/-- A reset in the pause of the call lets it begin its second attempt although it is cancelled
then. -/
theorem cancel_misses_resetSteps :
    ∃ y z v w : System, y.Reachable ∧ y.startCall? (.call 0) = some ⟨0, 0, .entered⟩ ∧
      y.step? (.move (.call 0) 0) = some z ∧
      z.run (fun _ _ => true) (pauseSteps ++ [.request (.resetExecutor 0)]) = v ∧
      v.startCall? (.call 0) = some ⟨0, 0, .pausing 1 1 10000000000 (.failed "no")⟩ ∧
      v.now < 10000000000 ∧ v.step? (.request (.cancelExecutor 0)) = some w ∧
      w.isRaised 0 1 = false ∧
      w.observe (onTime (.call 0)) (seeBegin (.call 0)) [.pass 10000, .move (.call 0) 0] =
        [10000000000] := by
  have hcall : (after (startSteps retryTen)).startCall? (.call 0) = some ⟨0, 0, .entered⟩ := by
    decide +kernel
  have hrun : ((after (startSteps retryTen)).step? (.move (.call 0) 0)).any (fun z =>
      (z.run (fun _ _ => true) (pauseSteps ++ [.request (.resetExecutor 0)])).startCall?
        (.call 0) == some ⟨0, 0, .pausing 1 1 10000000000 (.failed "no")⟩ &&
      decide ((z.run (fun _ _ => true) (pauseSteps ++ [.request (.resetExecutor 0)])).now <
        10000000000) &&
      ((z.run (fun _ _ => true) (pauseSteps ++ [.request (.resetExecutor 0)])).step?
          (.request (.cancelExecutor 0))).any fun w =>
        !w.isRaised 0 1 &&
        w.observe (onTime (.call 0)) (seeBegin (.call 0)) [.pass 10000, .move (.call 0) 0] ==
          [10000000000]) = true := by
    decide +kernel
  have hreach : (after (startSteps retryTen)).Reachable := reachable_after _
  generalize after (startSteps retryTen) = y at hcall hrun hreach
  obtain ⟨z, hz, hrun⟩ := (Option.any_eq_true _ _).1 hrun
  rw [Bool.and_eq_true] at hrun
  obtain ⟨hunder, hcancel⟩ := hrun
  obtain ⟨w, hw, hmissed⟩ := (Option.any_eq_true _ _).1 hcancel
  simp only [Bool.and_eq_true, beq_iff_eq, decide_eq_true_eq, Bool.not_eq_true'] at hunder hmissed
  exact ⟨y, z, _, w, hreach, hcall, hz, rfl, hunder.1, hunder.2, hw, hmissed.1, hmissed.2⟩

end System

end Scheduling
