import Scheduling.Proofs.ExecutorMoves
/-!
# Who uses an executor

A step leaves an executor to itself, resets it, makes a start call of it or is a move of such a
call: `use_of_step` says so once. While the users of an executor take turns there is never more than
one start call of it under way, and `Sole.step` says how that call goes on.
-/

namespace Scheduling

/-- Who makes the start call whose moves are those of an actor, if there can be one. -/
def Actor.caller? : Actor → Option Caller
  | .call k => some (.call k)
  | worker i j e => some (.worker i j e)
  | _ => none

theorem Caller.caller?_actor (who : Caller) : who.actor.caller? = some who := by
  cases who <;> rfl

theorem Actor.eq_of_caller? {actor : Actor} {who : Caller} (h : actor.caller? = some who) :
    actor = who.actor := by
  cases actor with
  | call | worker =>
      cases h
      rfl
  | _ => cases h

/-- Whether a call is a start call of an executor that has not ended. -/
def Call.isStartOf (e : ExecutorId) : Call → Bool
  | .start e' _ _ => e' == e
  | _ => false

namespace System

variable {y z u : System} {a : Step} {who : Caller} {e : ExecutorId} {x x' : Executor} {task : Task}
  {context : ContextId} {point : CallPoint} {attempt halt : Nat} {choice : Nat}
  {allowed : System → Step → Bool}

/-! ## Uses -/

/-- What a step has to do with an executor. -/
inductive Use (y : System) (a : Step) (z : System) (e : ExecutorId) : Prop
  | leaves (h : y.working a ≠ some e)
  | resets (ha : a = .request (.resetExecutor e)) (hz : z = y.modifyExecutor e Executor.reset)
  | calls {context : ContextId} (ha : a = .request (.call (.start e context .entered)))
      (hz : z = { y with calls := y.calls.push (.start e context .entered) })
  | moves {who : Caller} {context : ContextId} {point : CallPoint} {choice : Nat} {u : System}
      {status : CallStatus} (ha : a = .move who.actor choice)
      (hcall : y.startCall? who = some ⟨e, context, point⟩)
      (hmade : y.callMove? ⟨e, context, point⟩ choice = some (u, status)) (hresumes : u.Resumes z)
      (hcall' : z.startCall? who = status.startCall? ⟨e, context, point⟩)

theorem ReachableBy.use_of_move (h : y.ReachableBy allowed)
    (hz : y.step? (.move who.actor choice) = some z)
    (hcall : y.startCall? who = some ⟨e, context, point⟩) :
    y.Use (.move who.actor choice) z e := by
  obtain ⟨u, status, hmade, hresumes, hcall'⟩ := h.startCall?_of_move hz hcall
  exact .moves rfl hcall hmade hresumes hcall'

/-- All that a step can have to do with an executor. -/
theorem ReachableBy.use_of_step (h : y.ReachableBy allowed) (hz : y.step? a = some z) :
    y.Use a z e := by
  by_cases hworking : y.working a = some e
  · cases a with
    | pass => cases hworking
    | request r =>
        obtain ⟨haccepts, rfl⟩ := step_request_iff.1 hz
        cases r with
        | resetExecutor e' =>
            cases hworking
            exact .resets rfl rfl
        | call call =>
            cases call with
            | start e' context point =>
                cases hworking
                cases point with
                | entered => exact .calls rfl rfl
                | _ => cases haccepts
            | _ => cases hworking
        | _ => cases hworking
    | move actor choice =>
        cases actor with
        | call k =>
            simp only [working] at hworking
            split at hworking
            · rename_i e' context point hk
              cases hworking
              have hcall : y.startCall? (.call k) = some ⟨e, context, point⟩ :=
                startCall?_call_iff.2 hk
              show y.Use (.move (Caller.call k).actor choice) z e
              exact h.use_of_move hz hcall
            · cases hworking
        | worker i j e' =>
            cases hworking
            obtain ⟨s, w, _, _, hs, hworker, -, -⟩ := workerMove_of_getElem? hz
            obtain rfl := Scheduler.executor_of_worker? hworker
            have hcall : y.startCall? (.worker i j w.executor) =
                some ⟨w.executor, w.context, w.point⟩ := by
              simp [startCall?, hs, hworker]
            show y.Use (.move (Caller.worker i j w.executor).actor choice) z w.executor
            exact h.use_of_move hz hcall
        | _ => cases hworking
  · exact .leaves hworking

/-- A step that leaves an executor to itself adds no halt flag to it and changes nothing else. -/
theorem follows_of_leaves (hz : y.step? a = some z) (hx : y.executors[e]? = some x)
    (h : y.working a ≠ some e) : ∃ x', z.executors[e]? = some x' ∧ x.Follows False x' := by
  obtain ⟨x', hx', hfollows⟩ := (proceeds_of_step hz).executors e x hx
  exact ⟨x', hx', hfollows.mono h⟩

/-- An executor that there is goes on in a run. -/
theorem executor_of_run (hx : y.executors[e]? = some x) (allowed : System → Step → Bool)
    (steps : List Step) :
    ∃ x', (y.run allowed steps).executors[e]? = some x' ∧ x.Follows True x' := by
  refine run_induction (P := fun z => ∃ x', z.executors[e]? = some x' ∧ x.Follows True x')
    (fun u a z _ hz hu => ?_) ⟨x, hx, .refl x⟩ steps
  obtain ⟨x₁, hx₁, hfollows⟩ := hu
  obtain ⟨x₂, hx₂, hstep⟩ := (proceeds_of_step hz).executors e x₁ hx₁
  exact ⟨x₂, hx₂, hfollows.trans (hstep.mono fun _ => trivial)⟩

/-! ## New halt flags -/

/-- Whether a start call that has not been looked at will be let in: its executor admits it and its
context is live. -/
def letsIn (y : System) (c : StartCall) : Bool :=
  c.point == .entered && !y.contexts.isDone c.context &&
    y.executors[c.executor]?.any fun x =>
      y.tasks[x.task]?.any fun task => (x.mayStart task y.now).toBool

/-- Whether a step gives an executor a new halt flag in place of the one that it has: it is reset,
or a start call of it is let in. -/
def renews (y : System) (e : ExecutorId) : Step → Bool
  | .request (.resetExecutor e') => e' == e
  | .move actor _ => (actor.caller?.bind y.startCall?).any fun c => c.executor == e && y.letsIn c
  | _ => false

theorem letsIn_eq_true_iff (hx : y.executors[e]? = some x) (htask : y.tasks[x.task]? = some task) :
    y.letsIn ⟨e, context, point⟩ = true ↔
      point = .entered ∧ y.contexts.isDone context = false ∧ x.mayStart task y.now = .ok () := by
  have hok : (x.mayStart task y.now).toBool = true ↔ x.mayStart task y.now = .ok () := by
    cases x.mayStart task y.now with
    | error err => simp [Except.toBool]
    | ok => simp [Except.toBool]
  simp only [letsIn, hx, htask, Option.any_some, hok, Bool.and_eq_true, beq_iff_eq,
    Bool.not_eq_true', and_assoc]

/-- Only a start call that has not been looked at is let in. -/
theorem letsIn_eq_false (hpoint : point ≠ .entered) : y.letsIn ⟨e, context, point⟩ = false := by
  simp [letsIn, hpoint]

theorem renews_move (hcall : y.startCall? who = some ⟨e, context, point⟩) :
    y.renews e (.move who.actor choice) = y.letsIn ⟨e, context, point⟩ := by
  simp only [renews, Caller.caller?_actor, Option.bind_some, hcall, Option.any_some,
    beq_self_eq_true, Bool.true_and]

/-- The executor of a worker's start call is that of the worker. -/
theorem ReachableBy.working_of_startCall? {c : StartCall} (h : y.ReachableBy allowed)
    (hcall : y.startCall? who = some c) :
    y.working (.move who.actor choice) = some c.executor := by
  cases who with
  | call k =>
      have hk := startCall?_call_iff.1 hcall
      simp only [working, Caller.actor, hk]
  | worker i j e =>
      obtain ⟨_, _, _, -, -, -, rfl, rfl⟩ := h.startCall?_worker_iff.1 hcall
      rfl

theorem ReachableBy.working_of_renews (h : y.ReachableBy allowed) (ha : y.renews e a = true) :
    y.working a = some e := by
  cases a with
  | pass => cases ha
  | request r =>
      cases r with
      | resetExecutor e' => exact congrArg some (beq_iff_eq.1 ha)
      | _ => cases ha
  | move actor choice =>
      obtain ⟨c, hbind, hc⟩ := (Option.any_eq_true _ _).1 ha
      obtain ⟨who, hwho, hcall⟩ := Option.bind_eq_some_iff.1 hbind
      obtain rfl := Actor.eq_of_caller? hwho
      rw [h.working_of_startCall? hcall]
      exact congrArg some (beq_iff_eq.1 (Bool.and_eq_true_iff.1 hc).1)

/-- Whoever is turned away is not let in. -/
theorem Bars.letsIn_eq_false {err : Error} (h : y.Bars x task context err)
    (hx : y.executors[e]? = some x) (htask : y.tasks[x.task]? = some task) :
    y.letsIn ⟨e, context, .entered⟩ = false := by
  rw [← Bool.not_eq_true, letsIn_eq_true_iff hx htask]
  rintro ⟨-, hlive, hstart⟩
  cases h with
  | once hdone honce => simp [Executor.mayStart, hdone, honce] at hstart
  | cooling hdone honce hrest => simp [Executor.mayStart, hdone, honce, hrest] at hstart
  | done _ herr =>
      have hsome := ContextTree.isSome_error? y.contexts context
      rw [herr, hlive] at hsome
      cases hsome

/-- An attempt that is due is the first one of a start call that is let in, or a further one. -/
theorem Due.letsIn_iff (h : y.Due x task context point attempt halt x')
    (hx : y.executors[e]? = some x) (htask : y.tasks[x.task]? = some task) :
    y.letsIn ⟨e, context, point⟩ = true ↔ point = .entered := by
  rw [letsIn_eq_true_iff hx htask]
  cases h with
  | enters hstart hlive => exact ⟨fun _ => rfl, fun _ => ⟨rfl, hlive, hstart⟩⟩
  | retries => exact ⟨fun h => h.1, fun h => by cases h⟩

theorem Due.halts_size (h : y.Due x task context point attempt halt x')
    (hx : y.executors[e]? = some x) (htask : y.tasks[x.task]? = some task) :
    x'.halts.size = x.halts.size + if y.letsIn ⟨e, context, point⟩ then 1 else 0 := by
  have hiff := h.letsIn_iff hx htask
  cases h with
  | enters =>
      rw [if_pos (hiff.2 rfl), Executor.renewHalt, Array.size_push]
  | retries =>
      rw [if_neg fun hlets => by cases hiff.1 hlets]
      rfl

/-- A move of a start call adds a halt flag to its executor exactly if the call is let in. -/
theorem Course.halts_size {made : System × CallStatus} (h : y.Course e x task context point made)
    (hx : y.executors[e]? = some x) (htask : y.tasks[x.task]? = some task) :
    ∃ x', made.1.executors[e]? = some x' ∧
      x'.halts.size = x.halts.size + if y.letsIn ⟨e, context, point⟩ then 1 else 0 := by
  cases h with
  | bars hwhy =>
      rw [hwhy.letsIn_eq_false hx htask]
      exact ⟨x, hx, rfl⟩
  | givesUp =>
      rw [letsIn_eq_false CallPoint.noConfusion]
      exact ⟨x, hx, rfl⟩
  | overruns hdue _ hsets | launches hdue _ _ hsets =>
      exact ⟨_, hsets.own, hdue.halts_size hx htask⟩
  | conflicts hdue _ _ hsets =>
      refine ⟨_, hsets.own, ?_⟩
      rw [Executor.halts_settle, hdue.halts_size hx htask]
  | overrests _ _ hsets =>
      rw [letsIn_eq_false CallPoint.noConfusion]
      exact ⟨x, hsets.own, rfl⟩
  | returns _ _ hsets | pauses _ _ hsets =>
      rw [letsIn_eq_false CallPoint.noConfusion]
      refine ⟨_, hsets.own, ?_⟩
      rw [Executor.halts_settle, Executor.halts_rest]
      rfl

/-- What a step does to the halt flags of an executor: one is added exactly if the step renews it,
none is taken back, and none is raised but the newest. -/
theorem ReachableBy.halts_of_step (h : y.ReachableBy allowed) (hz : y.step? a = some z)
    (hx : y.executors[e]? = some x) :
    ∃ x', z.executors[e]? = some x' ∧ x.Follows True x' ∧
      x'.halts.size = x.halts.size + if y.renews e a then 1 else 0 := by
  obtain ⟨x', hx', hfollows⟩ := (proceeds_of_step hz).executors e x hx
  refine ⟨x', hx', hfollows.mono fun _ => trivial, ?_⟩
  cases h.use_of_step hz with
  | leaves hother =>
      rw [if_neg fun hrenews => hother (h.working_of_renews hrenews), Nat.add_zero]
      exact hfollows.kept hother
  | resets ha hreset =>
      subst ha hreset
      obtain rfl := Option.some.inj ((modifyExecutor_look y hx).symm.trans hx')
      have hrenews : y.renews e (.request (.resetExecutor e)) = true := beq_self_eq_true e
      rw [if_pos hrenews]
      exact Array.size_push _
  | calls ha hmade =>
      subst ha hmade
      obtain rfl := Option.some.inj (hx.symm.trans hx')
      rfl
  | moves ha hcall hmade hresumes =>
      subst ha
      obtain ⟨x₀, task, hx₀, htask, hcourse⟩ := course_of_mem (List.mem_of_getElem? hmade)
      obtain rfl := Option.some.inj (hx.symm.trans hx₀)
      obtain ⟨x'', hx'', hsize⟩ := hcourse.halts_size hx htask
      rw [← hresumes.executors] at hx''
      obtain rfl := Option.some.inj (hx''.symm.trans hx')
      rw [renews_move hcall]
      exact hsize

/-! ## Taking turns -/

/-- Whether a start call of an executor is under way that was made from outside. -/
def isUnderWay (y : System) (e : ExecutorId) : Bool := y.calls.any (Call.isStartOf e)

/-- Whether a step starts or resets an executor only while no start call of it is under way. -/
def takesTurns (e : ExecutorId) (y : System) : Step → Bool
  | .request (.resetExecutor e') | .request (.call (.start e' _ _)) => e' != e || !y.isUnderWay e
  | _ => true

/-- An executor belongs to no worker, and the only start call of it that is under way is one from
outside, if there is any at all. -/
structure Sole (y : System) (e : ExecutorId) (o : Option (CallId × ContextId × CallPoint)) :
    Prop where
  lt : e < y.executors.size
  free : ∀ i j, ¬ y.Employs i j e
  calls : ∀ k context point, y.calls[k]? = some (.start e context point) ↔
    o = some (k, context, point)

/-- Where a start call stands after a move, unless it has ended. -/
def CallStatus.point? : CallStatus → Option CallPoint
  | .at point => some point
  | .ended _ => none

/-- What a step has to do with an executor whose users take turns, before and after which these are
the start calls of it that are under way. -/
inductive Visit (y : System) (a : Step) (z : System) (e : ExecutorId) :
    Option (CallId × ContextId × CallPoint) → Option (CallId × ContextId × CallPoint) → Prop
  | leaves {o : Option (CallId × ContextId × CallPoint)} (h : y.working a ≠ some e) :
      Visit y a z e o o
  | resets (ha : a = .request (.resetExecutor e)) (hz : z = y.modifyExecutor e Executor.reset) :
      Visit y a z e none none
  | calls {context : ContextId} (ha : a = .request (.call (.start e context .entered)))
      (hz : z = { y with calls := y.calls.push (.start e context .entered) }) :
      Visit y a z e none (some (y.calls.size, context, .entered))
  | moves {k : CallId} {context : ContextId} {point : CallPoint} {choice : Nat} {u : System}
      {status : CallStatus} (ha : a = .move (.call k) choice)
      (hcall : y.startCall? (.call k) = some ⟨e, context, point⟩)
      (hmade : y.callMove? ⟨e, context, point⟩ choice = some (u, status))
      (hresumes : u.Resumes z) :
      Visit y a z e (some (k, context, point))
        (status.point?.map fun point' => (k, context, point'))

variable {o : Option (CallId × ContextId × CallPoint)}

theorem Sole.isUnderWay_eq (h : y.Sole e o) : y.isUnderWay e = o.isSome := by
  rw [Bool.eq_iff_iff, isUnderWay, Array.any_eq_true', Option.isSome_iff_exists]
  constructor
  · rintro ⟨call, hmem, hstart⟩
    obtain ⟨k, hk⟩ := Array.mem_iff_getElem?.1 hmem
    cases call with
    | start e' context point =>
        obtain rfl := beq_iff_eq.1 hstart
        exact ⟨_, (h.calls k context point).1 hk⟩
    | _ => cases hstart
  · rintro ⟨⟨k, context, point⟩, ho⟩
    have hk := (h.calls k context point).2 ho
    exact ⟨_, Array.mem_of_getElem? hk, beq_self_eq_true e⟩

/-- An executor that may be used from outside and of which no start call is under way. -/
theorem sole_none (hlends : y.lends e = true) (hidle : y.isUnderWay e = false) :
    y.Sole e none where
  lt := (lends_iff.1 hlends).1
  free := (lends_iff.1 hlends).2
  calls k context point := by
    refine ⟨fun hk => ?_, fun h => by cases h⟩
    have hunder : y.isUnderWay e = true :=
      Array.any_eq_true'.2 ⟨_, Array.mem_of_getElem? hk, beq_self_eq_true e⟩
    rw [hidle] at hunder
    cases hunder

/-- The calls of an executor are all there is to see to in a step. -/
theorem Sole.of_calls (h : y.Sole e o) (hz : y.step? a = some z)
    {o' : Option (CallId × ContextId × CallPoint)}
    (hcalls : ∀ k context point, z.calls[k]? = some (.start e context point) ↔
      o' = some (k, context, point)) : z.Sole e o' where
  lt := Nat.lt_of_lt_of_le h.lt (proceeds_of_step hz).executors_size
  free i j hemploys := by
    obtain hold | ⟨-, rfl, -⟩ := employs_of_step hz hemploys
    · exact h.free i j hold
    · exact Nat.lt_irrefl _ h.lt
  calls := hcalls

/-- No start call of an executor moves, begins or ends in a step that leaves it to itself. -/
theorem calls_of_leaves (hz : y.step? a = some z) (h : y.working a ≠ some e) (k : CallId)
    (context : ContextId) (point : CallPoint) :
    z.calls[k]? = some (.start e context point) ↔ y.calls[k]? = some (.start e context point) := by
  cases callsStep_of_step hz with
  | kept hkept => rw [hkept]
  | @made call _ hmade =>
      rw [hmade, Array.getElem?_push]
      split
      · rename_i hk
        subst hk
        rw [Array.getElem?_eq_none (Nat.le_refl _)]
        refine ⟨fun hcall => ?_, fun hcall => by cases hcall⟩
        cases hcall
        exact absurd rfl h
      · exact Iff.rfl
  | @moved k' choice call call' u hcall hmove hmoved =>
      have hother : ∀ context point, call ≠ .start e context point := by
        rintro context point rfl
        exact h (by simp only [working, hcall])
      have hu : u.calls[k']? = some call := hmove.calls ▸ hcall
      by_cases hk : k' = k
      · subst hk
        rw [hmoved, getElem?_callAt hu, hcall]
        refine ⟨fun hcall' => ?_, fun hcall' => absurd (Option.some.inj hcall') (hother _ _)⟩
        cases hcall'
        cases hmove with
        | goOn => exact absurd rfl (hother _ _)
      · have hlook : (u.callAt k' call').calls[k]? = u.calls[k]? :=
          Array.getElem?_modify.trans (if_neg hk)
        rw [hmoved, hlook, hmove.calls]

/-- The only start call of an executor goes where its move has led it. -/
theorem Sole.moves {k : CallId} {status : CallStatus} (h : y.Sole e (some (k, context, point)))
    (hz : y.step? (.move (.call k) choice) = some z)
    (hcall' : z.startCall? (.call k) = status.startCall? ⟨e, context, point⟩) :
    z.Sole e (status.point?.map fun point' => (k, context, point')) := by
  have hk := (h.calls k context point).2 rfl
  refine h.of_calls hz fun k' context' point' => ?_
  by_cases hsame : k' = k
  · subst hsame
    have hiff : z.startCall? (.call k') = some ⟨e, context', point'⟩ ↔
        z.calls[k']? = some (.start e context' point') := startCall?_call_iff
    rw [← hiff, hcall']
    cases status with
    | «at» point₁ =>
        simp only [CallStatus.startCall?, CallStatus.point?, Option.map_some, Option.some.injEq,
          StartCall.mk.injEq, Prod.mk.injEq, true_and]
    | ended => simp [CallStatus.startCall?, CallStatus.point?]
  · have hnone : y.calls[k']? ≠ some (.start e context' point') := fun hk' => by
      cases (h.calls k' context' point').1 hk'
      exact hsame rfl
    have hother : (status.point?.map fun point' => (k, context, point')) ≠
        some (k', context', point') := fun heq => by
      obtain ⟨_, -, heq⟩ := Option.map_eq_some_iff.1 heq
      cases heq
      exact hsame rfl
    have hlook : z.calls[k']? = y.calls[k']? := by
      cases callsStep_of_step hz with
      | kept hkept => rw [hkept]
      | @moved _ _ call call' u _ hmove hmoved =>
          have hlook : (u.callAt k call').calls[k']? = u.calls[k']? :=
            Array.getElem?_modify.trans (if_neg fun heq => hsame heq.symm)
          rw [hmoved, hlook, hmove.calls]
    rw [hlook]
    exact ⟨fun hk' => absurd hk' hnone, fun heq => absurd heq hother⟩

/-- While the users of an executor take turns there is at most one start call of it. -/
theorem Sole.step (h : y.Sole e o) (hy : y.ReachableBy allowed) (hz : y.step? a = some z)
    (ha : y.takesTurns e a = true) : ∃ o', z.Sole e o' ∧ y.Visit a z e o o' := by
  have hidle (hturn : (e != e || !y.isUnderWay e) = true) : o = none := by
    simpa [h.isUnderWay_eq] using hturn
  cases hy.use_of_step hz with
  | leaves hother =>
      refine ⟨o, h.of_calls hz fun k context point => ?_, .leaves hother⟩
      rw [calls_of_leaves hz hother]
      exact h.calls k context point
  | resets hreset hz' =>
      subst hreset
      obtain rfl := hidle ha
      exact ⟨none, h.of_calls hz (hz' ▸ h.calls), .resets rfl hz'⟩
  | @calls context hmade hz' =>
      subst hmade
      obtain rfl := hidle ha
      refine ⟨_, h.of_calls hz fun k context' point' => ?_, .calls rfl hz'⟩
      have hnone : y.calls[k]? ≠ some (.start e context' point') := fun hk => by
        cases (h.calls k context' point').1 hk
      rw [hz', Array.getElem?_push]
      split
      · rename_i hk
        simp [hk, eq_comm]
      · rename_i hk
        refine ⟨fun hk' => absurd hk' hnone, fun heq => ?_⟩
        cases heq
        exact absurd rfl hk
  | @moves who context point choice u status hmove hcall hmade hresumes hcall' =>
      cases who with
      | call k =>
          obtain rfl := (h.calls k context point).1 (startCall?_call_iff.1 hcall)
          subst hmove
          exact ⟨_, h.moves hz hcall', .moves rfl hcall hmade hresumes⟩
      | worker i j e' =>
          obtain ⟨s, n, w, hs, hn, hw, rfl, hc⟩ := hy.startCall?_worker_iff.1 hcall
          cases hc
          exact absurd (employs_of_mem hs hn hw) (h.free i j)

end System

end Scheduling
