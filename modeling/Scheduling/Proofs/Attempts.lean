import Scheduling.System.Executions
/-!
# Moves of start calls

What a start call can do in one move, said once for each function that it consists of: what it comes
to, and under which condition. Everything else that is proved of start calls comes from this list.
-/

namespace Scheduling.System

variable {y : System} {e : ExecutorId}

/-- After an attempt the start call ends with its outcome, or pauses before the next one. -/
theorem afterAttempt_eq (y : System) (e : ExecutorId) (x : Executor) (context : ContextId)
    (attempt halt : Nat) (outcome : Outcome) :
    (x.options.effectiveRetry = none ∧
        y.afterAttempt e x context attempt halt outcome = (y, .ended (.returned outcome))) ∨
      ∃ retry, x.options.effectiveRetry = some retry ∧
        (((outcome = .ok () ∨ ∃ err, outcome = .error err ∧
              y.endsCycle x context retry attempt halt err = true) ∧
            y.afterAttempt e x context attempt halt outcome =
              (y.modifyExecutor e (·.record attempt outcome), .ended (.returned outcome))) ∨
          ∃ err, outcome = .error err ∧
            y.endsCycle x context retry attempt halt err = false ∧
            y.afterAttempt e x context attempt halt outcome =
              (y.modifyExecutor e (·.record attempt outcome),
                .at (.pausing (attempt + 1) halt (Instant.wake y.now retry.delay) err))) := by
  unfold afterAttempt
  cases hretry : x.options.effectiveRetry with
  | none => exact .inl ⟨rfl, rfl⟩
  | some retry =>
      refine .inr ⟨retry, rfl, ?_⟩
      cases outcome with
      | ok => exact .inl ⟨.inl rfl, rfl⟩
      | error err =>
          cases hends : y.endsCycle x context retry attempt halt err with
          | true => exact .inl ⟨.inr ⟨err, rfl, hends⟩, by simp [hends]⟩
          | false => exact .inr ⟨err, rfl, hends, by simp [hends]⟩

/-- An attempt waits for the run that it has begun, or is over at once if there was none to
begin. -/
theorem beginAttempt_eq (y : System) (e : ExecutorId) (x : Executor) (context : ContextId)
    (attempt halt : Nat) :
    (y.attemptContext x context = none ∧
        y.beginAttempt e x context attempt halt = (y, .ended (.panicked Instant.overflowText))) ∨
      ∃ (c : ContextId) (z : System) (started : Bool) (u : System) (id : String),
        y.attemptContext x context = some (c, z) ∧ z.startTask x.task c = (started, u) ∧
          y.beginAttempt e x context attempt halt =
            if started then (u, .at (.running attempt halt c))
            else (u.cancelContext c).afterAttempt e x context attempt halt
              (.error (.alreadyRunning id)) := by
  unfold beginAttempt
  cases hmade : y.attemptContext x context with
  | none => exact .inl ⟨rfl, rfl⟩
  | some made =>
      obtain ⟨c, z⟩ := made
      cases hstart : z.startTask x.task c with
      | mk started u =>
          refine .inr ⟨c, z, started, u, (u.tasks[x.task]?.map Task.id).getD "", rfl, hstart, ?_⟩
          dsimp only
          rw [hstart]
          cases started <;> rfl

/-- When its run has ended an attempt is over, once the time of rest is set. -/
theorem endAttempt_eq (y : System) (e : ExecutorId) (x : Executor) (task : Task)
    (context : ContextId) (attempt halt : Nat) (runContext : ContextId) :
    y.endAttempt e x task context attempt halt runContext =
        (y.cancelContext runContext, .ended (.panicked Instant.overflowText)) ∨
      ∃ (u : System) (outcome : Outcome),
        (u = y.cancelContext runContext ∨ ∃ instant, u = (y.cancelContext runContext).modifyExecutor
          e fun x => { x with cooldownUntil := some instant }) ∧
        (outcome = match task.error with
          | none => .ok ()
          | some err => .error err) ∧
        y.endAttempt e x task context attempt halt runContext =
          u.afterAttempt e x context attempt halt outcome := by
  unfold endAttempt
  cases x.options.cooldown with
  | none => exact .inr ⟨_, _, .inl rfl, rfl, rfl⟩
  | some cooldown =>
      dsimp only
      cases Instant.add? (y.cancelContext runContext).now cooldown with
      | none => exact .inl rfl
      | some instant => exact .inr ⟨_, _, .inr ⟨instant, rfl⟩, rfl, rfl⟩

/-- A start call is refused, or takes a halt flag for its first attempt. -/
theorem enter_eq (y : System) (e : ExecutorId) (x : Executor) (task : Task)
    (context : ContextId) :
    (∃ err, y.enter e x task context = (y, .ended (.returned (.error err)))) ∨
      x.mayStart task y.now = .ok () ∧ y.contexts.error? context = none ∧
        y.enter e x task context =
          (y.modifyExecutor e Executor.renewHalt).beginAttempt e x.renewHalt context 0
            x.renewHalt.currentHalt := by
  unfold System.enter
  cases x.mayStart task y.now with
  | error err => exact .inl ⟨err, rfl⟩
  | ok =>
      cases y.contexts.error? context with
      | some err => exact .inl ⟨err, rfl⟩
      | none => exact .inr ⟨rfl, rfl, rfl⟩

/-- A start call that stands at a point can move to a system and a status. -/
inductive ExecutionMove (y : System) (e : ExecutorId) (x : Executor) (task : Task)
    (context : ContextId) : CallPoint → System × CallStatus → Prop
  | enter : ExecutionMove y e x task context .entered (y.enter e x task context)
  | endAttempt {attempt halt : Nat} {runContext : ContextId} (h : task.pending = false) :
      ExecutionMove y e x task context (.running attempt halt runContext)
        (y.endAttempt e x task context attempt halt runContext)
  | giveUp {attempt halt : Nat} {wake : Instant} {last : Error}
      (h : y.contexts.isDone context = true ∨ x.isHalted halt = true) :
      ExecutionMove y e x task context (.pausing attempt halt wake last)
        (y, .ended (.returned (.error last)))
  | retry {attempt halt : Nat} {wake : Instant} {last : Error} (h : wake ≤ y.now) :
      ExecutionMove y e x task context (.pausing attempt halt wake last)
        (y.beginAttempt e x context attempt halt)

theorem executionMove_of_mem {context : ContextId} {point : CallPoint}
    {made : System × CallStatus} (h : made ∈ y.executionMoves e context point) :
    ∃ (x : Executor) (task : Task), y.executors[e]? = some x ∧ y.tasks[x.task]? = some task ∧
      y.ExecutionMove e x task context point made := by
  unfold executionMoves at h
  split at h
  · simp at h
  · rename_i x hx
    split at h
    · simp at h
    · rename_i task htask
      refine ⟨x, task, hx, htask, ?_⟩
      split at h
      · obtain rfl := List.mem_singleton.1 h
        exact .enter
      · split at h
        · simp at h
        · rename_i hpending
          obtain rfl := List.mem_singleton.1 h
          exact .endAttempt (by simpa using hpending)
      · simp only [List.mem_append, List.mem_ite_nil_right, List.mem_singleton] at h
        obtain (⟨hdone, rfl⟩ | ⟨hhalted, rfl⟩) | ⟨hwake, rfl⟩ := h
        · exact .giveUp (.inl hdone)
        · exact .giveUp (.inr hhalted)
        · exact .retry hwake

end Scheduling.System
