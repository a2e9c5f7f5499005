import Scheduling.Proofs.RetryMoves
import Scheduling.Proofs.TaskStates
/-!
# Runs that fail

A body may end a run as it likes. If it does not end it well, however it comes to its end, the run
fails; and only a body makes a conflict of the end of a run.
-/

namespace Scheduling

/-- Whether a body that goes on like this fails, however it comes to its end. -/
def bodyFails : List Action → Bool
  | [] => false
  | .succeed :: _ => false
  | action :: rest => action.ends || bodyFails rest

/-- A body that fails in each run. -/
def AlwaysFails (body : Nat → List Action) : Prop := ∀ n, bodyFails (body n) = true

/-- Whether an action ends a body with a conflict. -/
def Action.conflicts : Action → Bool
  | .fail err => err.isConflict
  | _ => false

/-- Whether a body may end with a conflict. -/
def bodyConflicts (body : List Action) : Bool := body.any Action.conflicts

theorem bodyFails_cons {action : Action} (rest : List Action) (h : action.ends = false) :
    bodyFails (action :: rest) = bodyFails rest := by
  cases action <;> first | rfl | cases h

namespace RunPoint

variable {point : RunPoint} {rest : List Action}

/-- Whether a run at a point can only fail. -/
def fails : RunPoint → Bool
  | ended outcome => (failure? outcome).isSome
  | point => point.left?.all bodyFails

/-- Whether a run at a point may end with a conflict. -/
def conflicts : RunPoint → Bool
  | ended outcome => (failure? outcome).any Error.isConflict
  | point => point.left?.any bodyConflicts

theorem fails_of_left (h : point.left? = some rest) : point.fails = bodyFails rest := by
  cases point with
  | launched | ended => cases h
  | acting | sleeping | awaiting =>
      obtain rfl := Option.some.inj h
      rfl

theorem conflicts_of_left (h : point.left? = some rest) :
    point.conflicts = bodyConflicts rest := by
  cases point with
  | launched | ended => cases h
  | acting | sleeping | awaiting =>
      obtain rfl := Option.some.inj h
      rfl

/-- In a run of this number a body may have come to a point: it can only fail if it always does, and
it ends with a conflict only if it says so. -/
structure Permitted (body : Nat → List Action) (n : Nat) (point : RunPoint) : Prop where
  fails : AlwaysFails body → point.fails = true
  conflicts : point.conflicts = true → bodyConflicts (body n) = true

theorem permitted_launched (body : Nat → List Action) (n : Nat) : Permitted body n .launched :=
  ⟨fun _ => rfl, fun h => by cases h⟩

theorem permitted_acting (body : Nat → List Action) (n : Nat) :
    Permitted body n (.acting (body n)) := ⟨fun h => h n, id⟩

end RunPoint

namespace System

variable {y : System} {task : Task} {run : Run} {point : RunPoint}
  {allowed : System → Step → Bool}

theorem Completes.failure {completion : Completion} (h : y.Completes run completion)
    (hfails : run.point.fails = true) : (failure? completion.outcome).isSome = true := by
  cases h with
  | finishes h | succeeds h =>
      rw [RunPoint.fails_of_left (by rw [h]; rfl)] at hfails
      cases hfails
  | fails | failsWithContext | reportsUnkeyed | panics | overflows | wakes => rfl

theorem ReachableBy.isConflict_error? (h : y.ReachableBy allowed) (c : ContextId) {err : Error}
    (herr : err.isConflict = false) : ((y.contexts.error? c).getD err).isConflict = false := by
  cases hc : y.contexts.error? c with
  | none => exact herr
  | some err' => exact Error.isConflict_of_isContextError (h.isContextError hc)

/-- Only a body makes a conflict of the end of its run. -/
theorem Completes.conflicts {completion : Completion} (hy : y.ReachableBy allowed)
    (h : y.Completes run completion)
    (hconflict : (failure? completion.outcome).any Error.isConflict = true) :
    run.point.conflicts = true := by
  cases h with
  | fails h =>
      rw [RunPoint.conflicts_of_left (by rw [h]; rfl)]
      exact Bool.or_eq_true_iff.2 (.inl hconflict)
  | failsWithContext => exact absurd hconflict (Bool.eq_false_iff.1 (hy.isConflict_error? _ rfl))
  | wakes => exact absurd hconflict (Bool.eq_false_iff.1 (hy.isConflict_error? _ rfl))
  | finishes | succeeds | reportsUnkeyed | panics | overflows => cases hconflict

/-- What may become of a run does not grow while it goes on. -/
theorem Reaches.permitted {body : Nat → List Action} {n : Nat} (hy : y.ReachableBy allowed)
    (h : y.Reaches run point) (hlaunched : point ≠ .launched)
    (hrun : run.point.Permitted body n) : point.Permitted body n := by
  cases hleft : point.left? with
  | some rest =>
      obtain hsame | ⟨action, hpoint, hends⟩ := h.left rest hleft
      · refine ⟨fun halways => ?_, fun hconflicts => hrun.conflicts ?_⟩
        · rw [RunPoint.fails_of_left hleft, ← RunPoint.fails_of_left hsame]
          exact hrun.fails halways
        · rwa [RunPoint.conflicts_of_left hsame, ← RunPoint.conflicts_of_left hleft]
      · have hbefore : run.point.left? = some (action :: rest) := by rw [hpoint]; rfl
        refine ⟨fun halways => ?_, fun hconflicts => hrun.conflicts ?_⟩
        · rw [RunPoint.fails_of_left hleft, ← bodyFails_cons rest hends,
            ← RunPoint.fails_of_left hbefore]
          exact hrun.fails halways
        · rw [RunPoint.conflicts_of_left hleft] at hconflicts
          rw [RunPoint.conflicts_of_left hbefore]
          exact Bool.or_eq_true_iff.2 (.inr hconflicts)
  | none =>
      cases point with
      | launched => exact absurd rfl hlaunched
      | acting | sleeping | awaiting => cases hleft
      | ended outcome =>
          obtain ⟨completion, hcompletes, rfl⟩ := h.completes outcome rfl
          exact ⟨fun halways => hcompletes.failure (hrun.fails halways),
            fun hconflict => hrun.conflicts (hcompletes.conflicts hy hconflict)⟩

/-- A run that was not cancelled leaves its task with its outcome. -/
theorem finish_of_running (hrunning : task.state = .running) (outcome : Outcome)
    (err : Option Error) (now : Timestamp) :
    (task.finish outcome err now).outcome = outcome ∧
      (task.finish outcome err now).state ≠ .canceled := by
  unfold Task.finish Task.endState Task.outcome
  rw [hrunning]
  cases outcome <;> exact ⟨rfl, State.noConfusion⟩

end System

end Scheduling
