import Scheduling.Proofs.ExecutorUses
import Scheduling.Proofs.Retries
/-!
# What a refused start call leaves behind

A start call that is turned away before it is let in, because its task may run only once or has not
rested, or because its context is done, leaves its executor and all tasks as they were. One that is
let in while its task has a run in progress leaves all tasks as they were too, but counts as the
first attempt of a retry cycle of its own: under a retry policy the executor then has one attempt on
record and the conflict as its error, also if the run is that of another start call of the executor.
-/

namespace Scheduling

/-- A first attempt that fails changes nothing that is on record exactly if it is not recorded or is
just what was recorded last. -/
theorem Executor.sameRecords_settle_iff {x : Executor} {err : Error} :
    x.SameRecords (x.renewHalt.settle 0 (.error err)) ↔
      x.options.effectiveRetry = none ∨ (x.attempts = 1 ∧ x.errors.get? 0 = some err) := by
  have hsame : x.renewHalt.options.effectiveRetry = x.options.effectiveRetry := rfl
  unfold Executor.settle
  rw [hsame]
  cases hretry : x.options.effectiveRetry with
  | none => exact ⟨fun _ => .inl rfl, fun _ => ⟨rfl, fun _ => rfl⟩⟩
  | some policy =>
      constructor
      · rintro ⟨hattempts, herrors⟩
        have hfirst : (x.errors.insert 0 err).get? 0 = x.errors.get? 0 := herrors 0
        rw [Registry.get?_insert, if_pos rfl] at hfirst
        exact .inr ⟨hattempts.symm, hfirst.symm⟩
      · rintro (hnone | ⟨hattempts, hfirst⟩)
        · cases hnone
        · refine ⟨hattempts.symm, fun i => (Registry.get?_insert x.errors 0 i err).trans ?_⟩
          split
          · rename_i hi
            rw [hi, hfirst]
          · rfl

namespace System

variable {y z u v : System} {a : Step} {who : Caller} {e : ExecutorId} {x x' : Executor}
  {task : Task} {context : ContextId} {choice : Nat} {err : Error} {result : Outcome}

/-- Whether a run was launched in a move of a start call. -/
def CallStatus.launches : CallStatus → Bool
  | .at (.running _ _ _) => true
  | _ => false

/-- The error with which a start call has ended, if it has. -/
def CallStatus.error? : CallStatus → Option Error
  | .ended (.returned (.error err)) => some err
  | _ => none

/-- What the moves of someone's start call come to. -/
def seeStatus (who : Caller) (y : System) (a : Step) (_ : System) : List CallStatus :=
  ((y.ownMove? who a).map Prod.snd).toList

theorem eq_move_of_ownMove? {made : System × CallStatus} (h : y.ownMove? who a = some made) :
    ∃ choice, a = .move who.actor choice := by
  cases a with
  | move actor choice =>
      by_cases hactor : actor = who.actor
      · exact ⟨choice, by rw [hactor]⟩
      · rw [ownMove?, if_neg hactor] at h
        cases h
  | _ => cases h

/-- A start call is refused in a step with an error: it is turned away, or it is let in while its
task has a run in progress. -/
inductive Refusal (y : System) (e : ExecutorId) (context : ContextId) (x : Executor) (task : Task) :
    Executor → Error → Prop
  | bars {err : Error} (hlets : y.letsIn ⟨e, context, .entered⟩ = false)
      (hwhy : y.Bars x task context err) : Refusal y e context x task x err
  | conflicts (hlets : y.letsIn ⟨e, context, .entered⟩ = true)
      (hpending : task.state.isPending = true) :
      Refusal y e context x task (x.renewHalt.settle 0 (.error (.alreadyRunning task.id)))
        (.alreadyRunning task.id)

theorem Refusal.cooldownUntil_eq (h : y.Refusal e context x task x' err) :
    x'.cooldownUntil = x.cooldownUntil := by
  cases h with
  | bars => rfl
  | conflicts =>
      rw [Executor.cooldownUntil_settle]
      rfl

/-- The refusal of a call that is let in is put on record as if it had made an attempt. -/
theorem Refusal.sameRecords_iff (h : y.Refusal e context x task x' err) :
    x.SameRecords x' ↔ y.letsIn ⟨e, context, .entered⟩ = false ∨
      x.options.effectiveRetry = none ∨ (x.attempts = 1 ∧ x.errors.get? 0 = some err) := by
  cases h with
  | bars hlets => exact ⟨fun _ => .inl hlets, fun _ => ⟨rfl, fun _ => rfl⟩⟩
  | conflicts hlets =>
      rw [Executor.sameRecords_settle_iff, hlets]
      simp

/-- A start call whose first move is its last and does not panic was refused in it. -/
theorem Course.refusal (h : y.Course e x task context .entered (u, .ended (.returned result)))
    (hx : y.executors[e]? = some x) (htask : y.tasks[x.task]? = some task) :
    ∃ x' err, result = .error err ∧ y.Refusal e context x task x' err ∧ y.Sets e x' u ∧
      y.KeepsRuns u := by
  cases h with
  | bars hwhy =>
      exact ⟨x, _, rfl, .bars (hwhy.letsIn_eq_false hx htask) hwhy, sets_refl hx, .refl y⟩
  | conflicts hdue _ hpending hsets hkeeps =>
      have hlets := (hdue.letsIn_iff hx htask).2 rfl
      cases hdue
      exact ⟨_, _, rfl, .conflicts hlets hpending, hsets, hkeeps⟩

/-- In its first move a start call that does not end launches a run. -/
theorem Course.launches_of_entered {point : CallPoint}
    (h : y.Course e x task context .entered (u, .at point)) :
    (CallStatus.at point).launches = true := by
  cases h
  rfl

/-- As long as no move of a start call has launched a run it has made no move or has ended. -/
theorem entered_of_seeStatus (hy : y.Reachable)
    (hcall : y.startCall? who = some ⟨e, context, .entered⟩) (steps : List Step)
    (hnone : ∀ status ∈ y.observe (fun _ _ => true) (seeStatus who) steps,
      status.launches = false) :
    (y.run (fun _ _ => true) steps).startCall? who = some ⟨e, context, .entered⟩ ∨
      (y.run (fun _ _ => true) steps).startCall? who = none := by
  have hstart : y.Reachable ∧ y.Names who ∧
      ((∀ status ∈ ([] : List CallStatus), status.launches = false) →
        y.startCall? who = some ⟨e, context, .entered⟩ ∨ y.startCall? who = none) :=
    ⟨hy, hy.names_of_startCall? hcall, fun _ => .inl hcall⟩
  refine (observe_induction (P := fun y seen => y.Reachable ∧ y.Names who ∧
    ((∀ status ∈ seen, CallStatus.launches status = false) →
      y.startCall? who = some ⟨e, context, .entered⟩ ∨ y.startCall? who = none))
    (fun y a z seen _ hz hy => ⟨.step hy.1 rfl hz, hy.2.1.step hz, fun hseen => ?_⟩) hstart
    steps).2.2 hnone
  obtain ⟨hy, hnames, hbefore⟩ := hy
  replace hbefore := hbefore fun status hstatus => hseen status (List.mem_append_left _ hstatus)
  obtain ⟨-, hsame, -⟩ | ⟨c, choice, u, status, hcall, hmade, hown, -, hstatus⟩ :=
    hy.ownMove_cases hz hnames
  · rw [hsame]
    exact hbefore
  · rw [hcall] at hbefore
    obtain rfl := Option.some.inj (hbefore.resolve_right (Option.some_ne_none _))
    obtain ⟨x, task, -, -, hcourse⟩ := course_of_mem (List.mem_of_getElem? hmade)
    have hseen' := hseen status (List.mem_append_right _ (by simp [seeStatus, hown]))
    cases status with
    | «at» point =>
        rw [hcourse.launches_of_entered] at hseen'
        cases hseen'
    | ended => exact .inr hstatus

/-- A start call that has returned, in any run, without a run having been launched for it made one
move, and was refused in it. That move leaves all tasks and runs, the other executors and the end of
the rest as they were. It leaves the attempts and the errors on record as they were exactly if the
call was turned away before it was let in, or the executor has no retry policy, or it had one
attempt on record and this very error for it. -/
theorem refusal_keeps_records_iff (hy : y.Reachable)
    (hcall : y.startCall? who = some ⟨e, context, .entered⟩) (steps : List Step)
    (hnone : ∀ status ∈ y.observe (fun _ _ => true) (seeStatus who) steps,
      status.launches = false)
    (hreturns : CallStatus.ended (.returned result) ∈
      y.observe (fun _ _ => true) (seeStatus who) steps) :
    ∃ (past rest : List Step) (choice : Nat) (v z : System) (x x' : Executor) (task : Task)
      (err : Error), steps = past ++ .move who.actor choice :: rest ∧
        v = y.run (fun _ _ => true) past ∧ v.step? (.move who.actor choice) = some z ∧
        v.startCall? who = some ⟨e, context, .entered⟩ ∧ z.startCall? who = none ∧
        result = .error err ∧ v.executors[e]? = some x ∧ z.executors[e]? = some x' ∧
        v.tasks[x.task]? = some task ∧ v.Refusal e context x task x' err ∧ v.KeepsRuns z ∧
        (∀ e', e' ≠ e → z.executors[e']? = v.executors[e']?) ∧
        x'.cooldownUntil = x.cooldownUntil ∧
        (x.SameRecords x' ↔ v.letsIn ⟨e, context, .entered⟩ = false ∨
          x.options.effectiveRetry = none ∨
            (x.attempts = 1 ∧ x.errors.get? 0 = some err)) := by
  obtain ⟨past, rest, a, z, rfl, hnext, hstatus⟩ := exists_of_mem_observe hreturns
  obtain ⟨-, hz⟩ := next?_eq_some_iff.1 hnext
  have hunlaunched := entered_of_seeStatus hy hcall past fun status hmem =>
    hnone status (observe_append y past (a :: rest) ▸ List.mem_append_left _ hmem)
  have hv : (y.run (fun _ _ => true) past).Reachable := hy.run_any _ past
  have hnames : (y.run (fun _ _ => true) past).Names who :=
    run_induction (P := fun y => y.Names who) (fun _ _ _ _ hz h => h.step hz)
      (hy.names_of_startCall? hcall) past
  generalize hrun : y.run (fun _ _ => true) past = v at *
  obtain ⟨hown, -⟩ | ⟨c, choice, u, status, hentered, hmade, hown, hresumes, hended⟩ :=
    hv.ownMove_cases hz hnames
  · simp [seeStatus, hown] at hstatus
  · obtain rfl : CallStatus.ended (.returned result) = status := by
      simpa [seeStatus, hown] using hstatus
    rw [hentered] at hunlaunched
    obtain rfl := Option.some.inj (hunlaunched.resolve_right (Option.some_ne_none _))
    obtain ⟨x, task, hx, htask, hcourse⟩ := course_of_mem (List.mem_of_getElem? hmade)
    obtain ⟨x', err, hresult, hrefusal, hsets, hkeeps⟩ := hcourse.refusal hx htask
    obtain ⟨choice, rfl⟩ := eq_move_of_ownMove? hown
    exact ⟨past, rest, choice, v, z, x, x', task, err, rfl, hrun.symm, hz, hentered, hended,
      hresult, hx, hresumes.executors ▸ hsets.own, htask, hrefusal,
      hkeeps.trans ⟨hresumes.tasks, hresumes.runs, hresumes.nextRun⟩,
      fun e' he' => hresumes.executors ▸ hsets.others e' he', hrefusal.cooldownUntil_eq,
      hrefusal.sameRecords_iff⟩

theorem CallStatus.eq_of_error? {status : CallStatus} (h : status.error? = some err) :
    status = .ended (.returned (.error err)) := by
  unfold error? at h
  split at h
  · rw [Option.some.inj h]
  · cases h

/-- While the start call of an executor under some policies waits for the run of its task, another
one is made. -/
def crowdedSteps (o : ExecutorOptions) : List Step :=
  startSteps o ++ [.move (.call 0) 0, .request (.call (.start 0 0 .entered))]

/-- Without a retry policy the second call leaves nothing behind. -/
theorem refusal_keeps_records_crowdedSteps :
    ∃ (v z : System) (x x' : Executor), v = after (crowdedSteps {}) ∧
      v.step? (.move (.call 1) 0) = some z ∧ v.executors[0]? = some x ∧
      z.executors[0]? = some x' ∧ v.KeepsRuns z ∧ x'.cooldownUntil = x.cooldownUntil ∧
      x.SameRecords x' := by
  have hcall : (after (crowdedSteps {})).startCall? (.call 1) = some ⟨0, 0, .entered⟩ := by
    decide +kernel
  have hoptions : ((after (crowdedSteps {})).executors[0]?.all fun x =>
      x.options.effectiveRetry.isNone) = true := by
    decide +kernel
  have hrun : ((after (crowdedSteps {})).observe (fun _ _ => true) (seeStatus (.call 1))
        [.move (.call 1) 0]).all (!·.launches) = true ∧
      ((after (crowdedSteps {})).observe (fun _ _ => true) (seeStatus (.call 1))
        [.move (.call 1) 0]).any (·.error? == some (.alreadyRunning "a")) = true := by
    decide +kernel
  have hreach : (after (crowdedSteps {})).Reachable := reachable_after _
  obtain ⟨status, hmem, herror⟩ := List.any_eq_true.1 hrun.2
  obtain rfl := CallStatus.eq_of_error? (beq_iff_eq.1 herror)
  obtain ⟨past, rest, choice, v, z, x, x', task, err, hsteps, hv, hz, -, -, -, hx, hx', -, -,
    hkeeps, -, hrest, hiff⟩ := refusal_keeps_records_iff hreach hcall _
      (fun status hstatus => by simpa using List.all_eq_true.1 hrun.1 status hstatus) hmem
  cases past with
  | nil =>
      cases hsteps
      obtain rfl : v = after (crowdedSteps {}) := hv
      rw [hx] at hoptions
      exact ⟨_, z, x, x', rfl, hz, hx, hx', hkeeps, hrest,
        hiff.2 (.inr (.inl (Option.isNone_iff_eq_none.1 hoptions)))⟩
  | cons => simp at hsteps

/-- The third attempt of a start call is under way, after two that failed, and another call has been
made. -/
def thirdAttemptSteps : List Step :=
  [.request .newContext,
    .request (.newTask "a" [] fun run => if run < 2 then [.fail (.failed "no")] else []),
    .request (.newExecutor 0 { retry := some ⟨3, Duration.zero⟩ }),
    .request (.call (.start 0 0 .entered)), .move (.call 0) 0] ++
    bodySteps 0 ++ [.move (.call 0) 0, .move (.call 0) 0] ++
    bodySteps 1 ++ [.move (.call 0) 0, .move (.call 0) 0, .request (.call (.start 0 0 .entered))]

/-- The refusal of the second call takes an attempt of the first one off the record and overwrites
the error of another. -/
theorem refusal_spoils_thirdAttemptSteps :
    ∃ (v z : System) (x x' : Executor), v = after thirdAttemptSteps ∧
      (v.startCall? (.call 0)).map StartCall.point = some (.running 2 1 5) ∧
      v.step? (.move (.call 1) 0) = some z ∧
      (v.ownMove? (.call 1) (.move (.call 1) 0)).bind (·.2.error?) = some (.alreadyRunning "a") ∧
      v.executors[0]? = some x ∧ x.attempts = 2 ∧ x.errors.get? 0 = some (.failed "no") ∧
      x.errors.get? 1 = some (.failed "no") ∧ z.executors[0]? = some x' ∧ x'.attempts = 1 ∧
      x'.errors.get? 0 = some (.alreadyRunning "a") ∧ x'.errors.get? 1 = some (.failed "no") := by
  have hpoint : ((after thirdAttemptSteps).startCall? (.call 0)).map StartCall.point =
      some (.running 2 1 5) := by
    decide +kernel
  have herror : ((after thirdAttemptSteps).ownMove? (.call 1) (.move (.call 1) 0)).bind
      (·.2.error?) = some (.alreadyRunning "a") := by
    decide +kernel
  have hbefore : (after thirdAttemptSteps).executors[0]?.any (fun x => x.attempts == 2 &&
      x.errors.get? 0 == some (.failed "no") && x.errors.get? 1 == some (.failed "no")) = true := by
    decide +kernel
  have hafter : ((after thirdAttemptSteps).step? (.move (.call 1) 0)).any (fun z =>
      z.executors[0]?.any fun x => x.attempts == 1 &&
        x.errors.get? 0 == some (.alreadyRunning "a") &&
          x.errors.get? 1 == some (.failed "no")) = true := by
    decide +kernel
  generalize after thirdAttemptSteps = v at hpoint herror hbefore hafter
  obtain ⟨x, hx, hbefore⟩ := (Option.any_eq_true _ _).1 hbefore
  obtain ⟨z, hz, hafter⟩ := (Option.any_eq_true _ _).1 hafter
  obtain ⟨x', hx', hafter⟩ := (Option.any_eq_true _ _).1 hafter
  simp only [Bool.and_eq_true, beq_iff_eq] at hbefore hafter
  exact ⟨v, z, x, x', rfl, hpoint, hz, herror, hx, hbefore.1.1, hbefore.1.2, hbefore.2, hx',
    hafter.1.1, hafter.1.2, hafter.2⟩

end System

end Scheduling
