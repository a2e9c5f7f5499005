import Scheduling.Proofs.RetryCycles
/-!
# Retries

The log of an admitted start call always meets what its retry policy asks for, the executor has on
record what the log says, and the call does not stop on its way: it waits for a run, or for the end
of a pause. An attempt has a context of its own with a timeout of its own, and the timer of that
context does not tell the call to stop. The call fails to return only if the clock cannot count to
the end of a timeout or of a rest.
-/

namespace Scheduling

/-- The timer of a context leaves alone the contexts above it, the executors and the tasks. -/
def System.TimesApart (y : System) (runContext context : ContextId) : Prop :=
  ∀ (choice : Nat) (z : System), y.step? (.move (.deadline runContext) choice) = some z →
    z.executors = y.executors ∧ z.tasks = y.tasks ∧
      z.contexts.isDone context = y.contexts.isDone context

/-- Whether a start call can panic in its next move. -/
def System.MayPanic (y : System) (call : StartCall) : Prop :=
  ∃ made ∈ y.executionMoves call.executor call.context call.point, made.2.panics = true

/-- Where a start call stands for which a cycle is logged: it has ended; or it waits for the end of
an attempt, under whose context the run is; or it pauses after an attempt that has failed, until it
is told to stop or the next attempt is due. -/
inductive Cycle.Stands (c : Cycle) (who : Caller) (e : ExecutorId) (context : ContextId)
    (policy : RetryPolicy) (x : Executor) (y : System) : Prop
  | ended {result : CallEnd} (hresult : c.result = some result) (hgone : y.startCall? who = none)
      (hpanics : ∀ text, result = .panicked text →
        y.fits x.options = false ∨ y.restFits x.options = false)
  | attempting {begun : Instant} {runContext : ContextId} {halt : Nat} (hopened : c.result = none)
      (hcurrent : c.current = some begun)
      (hcall : y.startCall? who = some ⟨e, context, .running c.made.length halt runContext⟩)
      (htold : c.told.isSome = y.isTold e context)
      (hchild : y.contexts.ChildOf runContext context)
      (hdeadline : y.contexts.deadline runContext =
        y.contexts.deadlineWithin context begun x.options.timeout)
      (htimer : y.TimesApart runContext context)
      (hwaits : y.executionMoves e context (.running c.made.length halt runContext) = [] →
        (y.state x.task).isPending = true)
      (hpanics : y.MayPanic ⟨e, context, .running c.made.length halt runContext⟩ ↔
        (y.state x.task).isPending = false ∧ y.restFits x.options = false)
  | pausing {a : Attempt} {err : Error} {halt : Nat} (hopened : c.result = none)
      (hcurrent : c.current = none) (hlast : c.made.getLast? = some a)
      (houtcome : a.outcome = .error err)
      (hcall : y.startCall? who =
        some ⟨e, context, .pausing c.made.length halt (a.due policy) err⟩)
      (htold : c.told.isSome = y.isTold e context)
      (hwaits : y.executionMoves e context (.pausing c.made.length halt (a.due policy) err) = [] →
        y.isTold e context = false ∧ y.now < a.due policy)
      (hpanics : y.MayPanic ⟨e, context, .pausing c.made.length halt (a.due policy) err⟩ ↔
        a.due policy ≤ y.now ∧ y.fits x.options = false)

/-- The message with which a start call has panicked, if it has. -/
def Cycle.panicText? (c : Cycle) : Option String :=
  match c.result with
  | some (.panicked text) => some text
  | _ => none

/-- Whether a start call has returned without an error. -/
def Cycle.succeeded (c : Cycle) : Bool :=
  match c.result with
  | some (.returned (.ok ())) => true
  | _ => false

namespace System

variable {y z : System} {who : Caller} {e : ExecutorId} {context : ContextId} {policy : RetryPolicy}
  {x x' : Executor} {task : Task} {c : Cycle}

theorem mayPanic_iff {point : CallPoint} (hx : y.executors[e]? = some x)
    (htask : y.tasks[x.task]? = some task) :
    y.MayPanic ⟨e, context, point⟩ ↔ y.overflows x task context point = true := by
  rw [← any_panics hx htask point, List.any_eq_true]
  rfl

theorem timesApart_of_childOf {runContext : ContextId}
    (hchild : y.contexts.ChildOf runContext context) (hordered : y.contexts.Ordered) :
    y.TimesApart runContext context := by
  intro choice z hz
  have hmem : z ∈ y.moves (.deadline runContext) := List.mem_of_getElem? hz
  simp only [moves] at hmem
  split at hmem
  · obtain rfl := List.mem_singleton.1 hmem
    exact ⟨rfl, rfl, (ContextTree.agrees_hitWith (hchild.notMem_lineage hordered) _).isDone⟩
  · cases hmem

theorem stands_of_tracks (hy : y.Reachable) (h : c.Tracks who e context policy x y) :
    c.Stands who e context policy x y := by
  obtain ⟨x', hx, hcounts⟩ := h.counts
  obtain ⟨task, htask⟩ := h.task
  have hlook : y.tasks[x'.task]? = some task := hcounts.task ▸ htask
  cases h.stage with
  | ended hresult hgone hpanics => exact .ended hresult hgone hpanics
  | running hopened hcurrent hx₀ hcall htold hchild hdeadline hmoves =>
      obtain rfl := Option.some.inj (hx.symm.trans hx₀)
      have hstate : task.pending = (y.state x.task).isPending := by
        rw [state_eq htask, (hy.coherent htask).pending]
      refine .attempting hopened hcurrent hcall htold hchild hdeadline
        (timesApart_of_childOf hchild hy.ordered) (fun hnil => ?_) ?_
      · simpa [executionMoves, hx, hlook, hstate] using hnil
      · rw [mayPanic_iff hx hlook, overflows, hstate]
        simp [restFits, hcounts.options]
  | pausing hopened hcurrent hx₀ hcall htold hlast houtcome hstops hcount hmoves hnow htime =>
      obtain rfl := Option.some.inj (hx.symm.trans hx₀)
      refine .pausing hopened hcurrent hlast houtcome hcall htold (fun hnil => ?_) ?_
      · exact ⟨Cycle.isTold_of_nil hx hlook hnil, (Cycle.waits_pausing hx hlook hnil).2.2⟩
      · rw [mayPanic_iff hx hlook, overflows, hcounts.options]
        simp

/-- An admitted start call under a live context whose executor may retry, at any time of any run in
which nobody else starts or resets the executor and the clock waits for the call: its log meets the
policy whatever the runs of the task do and whenever the context is done or the executor cancelled,
the executor has on record what the log says, and the call ends or stands where it can go on. It
panics only if the clock cannot count to the end of a timeout or of a rest. -/
theorem retries (hy : y.Reachable) (h : y.Admits who e context policy x) (steps : List Step) :
    (y.MayPanic ⟨e, context, .entered⟩ ↔ y.fits x.options = false) ∧
      (y.startLog (leavesTo who e) who steps).Obeys policy ∧
      (∃ x', (y.startRun (leavesTo who e) who steps).executors[e]? = some x' ∧
        (y.startLog (leavesTo who e) who steps).Counts x x') ∧
      (y.startLog (leavesTo who e) who steps).Stands who e context policy x
        (y.startRun (leavesTo who e) who steps) := by
  obtain ⟨hv, htracks⟩ := tracks_startLog hy h steps
  obtain ⟨task, htask, hmay⟩ := h.mayStart
  refine ⟨?_, htracks.obeys, htracks.counts, stands_of_tracks hv htracks⟩
  rw [mayPanic_iff h.executor htask, overflows, hmay, h.live]
  simp [Except.toBool]

/-- A start call under some policies has been made, for a task whose first run is to fail. -/
def startSteps (o : ExecutorOptions) : List Step :=
  [.request .newContext,
    .request (.newTask "a" [] fun run => if run = 0 then [.fail (.failed "no")] else []),
    .request (.newExecutor 0 o), .request (.call (.start 0 0 .entered))]

/-- The call sees the first run fail, pauses for ten seconds and sees the second run succeed. -/
def secondRunSteps : List Step :=
  bodySteps 0 ++ [.move (.call 0) 0, .pass 10000, .move (.call 0) 0] ++ bodySteps 1 ++
    [.move (.call 0) 0]

theorem admits_startSteps (o : ExecutorOptions) (policy : RetryPolicy)
    (h : ((after (startSteps o)).executors[0]?.any fun x =>
      x.options == o && x.options.effectiveRetry == some policy &&
        (after (startSteps o)).tasks[x.task]?.any fun task =>
          (x.mayStart task (after (startSteps o)).now).toBool) = true)
    (hcall : (after (startSteps o)).startCall? (.call 0) = some ⟨0, 0, .entered⟩)
    (hlive : (after (startSteps o)).contexts.isDone 0 = false) :
    ∃ x, (after (startSteps o)).Admits (.call 0) 0 0 policy x ∧ x.options = o := by
  obtain ⟨x, hx, h⟩ := (Option.any_eq_true _ _).1 h
  simp only [Bool.and_eq_true, beq_iff_eq] at h
  obtain ⟨⟨hoptions, hretry⟩, h⟩ := h
  obtain ⟨task, htask, hmay⟩ := (Option.any_eq_true _ _).1 h
  refine ⟨x, ⟨hcall, hx, hretry, ⟨task, htask, ?_⟩, hlive⟩, hoptions⟩
  cases hok : x.mayStart task (after (startSteps o)).now with
  | ok => rfl
  | error err =>
      rw [hok] at hmay
      cases hmay

/-- The second of two attempts comes after the pause, and its success is what the call returns. -/
theorem retries_secondRunSteps :
    ∃ (x x' : Executor) (c : Cycle) (v : System), (after (startSteps retryTen)).Reachable ∧
      (after (startSteps retryTen)).Admits (.call 0) 0 0 ⟨2, Duration.ofSeconds 10⟩ x ∧
      c = (after (startSteps retryTen)).startLog (leavesTo (.call 0) 0) (.call 0) secondRunSteps ∧
      v = (after (startSteps retryTen)).startRun (leavesTo (.call 0) 0) (.call 0) secondRunSteps ∧
      c.begins = [0, 10000000000] ∧
      c.made.map Attempt.error? = [some (.failed "no"), none] ∧
      c.result = some (.returned (.ok ())) ∧ c.Obeys ⟨2, Duration.ofSeconds 10⟩ ∧
      c.Stands (.call 0) 0 0 ⟨2, Duration.ofSeconds 10⟩ x v ∧ v.executors[0]? = some x' ∧
      x'.attempts = 2 ∧ x'.errors.get? 0 = some (.failed "no") := by
  have hrun :
      (((after (startSteps retryTen)).startLog (leavesTo (.call 0) 0) (.call 0)
        secondRunSteps).begins == [0, 10000000000] &&
      ((after (startSteps retryTen)).startLog (leavesTo (.call 0) 0) (.call 0)
        secondRunSteps).made.map Attempt.error? == [some (.failed "no"), none] &&
      ((after (startSteps retryTen)).startLog (leavesTo (.call 0) 0) (.call 0)
        secondRunSteps).succeeded) = true := by
    decide +kernel
  have hreach : (after (startSteps retryTen)).Reachable := reachable_after _
  obtain ⟨x, hadmits, -⟩ := admits_startSteps retryTen ⟨2, Duration.ofSeconds 10⟩
    (by decide +kernel) (by decide +kernel) (by decide +kernel)
  obtain ⟨-, hobeys, ⟨x', hx', hcounts⟩, hstands⟩ := retries hreach hadmits secondRunSteps
  generalize (after (startSteps retryTen)).startLog (leavesTo (.call 0) 0) (.call 0)
    secondRunSteps = c at *
  simp only [Bool.and_eq_true, beq_iff_eq] at hrun
  obtain ⟨⟨hbegins, herrors⟩, hsucceeded⟩ := hrun
  have hresult : c.result = some (.returned (.ok ())) := by
    unfold Cycle.succeeded at hsucceeded
    split at hsucceeded
    · assumption
    · cases hsucceeded
  obtain ⟨a, b, hmade⟩ : ∃ a b, c.made = [a, b] :=
    List.length_eq_two.1 ((List.length_map _).symm.trans (congrArg List.length herrors))
  rw [hmade] at herrors
  have herror : a.error? = some (.failed "no") := (List.cons.inj herrors).1
  refine ⟨x, x', c, _, hreach, hadmits, rfl, rfl, hbegins, hmade ▸ herrors, hresult, hobeys,
    hstands, hx', ?_, ?_⟩
  · rw [hcounts.attempts, hmade]
    rfl
  · rw [hcounts.errors, hmade]
    simp [herror]

/-- A run may last longer than the clock can tell. -/
def endlessRun : ExecutorOptions :=
  { timeout := some (Duration.ofSeconds (2 ^ 64 - 1)), retry := some ⟨2, Duration.zero⟩ }

/-- The policies are accepted and the call is admitted, but it panics before its first attempt. -/
theorem panics_endlessRun :
    endlessRun.validate = .ok () ∧
      (∃ x, (after (startSteps endlessRun)).Admits (.call 0) 0 0 ⟨2, Duration.zero⟩ x) ∧
      ((after (startSteps endlessRun)).startLog (leavesTo (.call 0) 0) (.call 0) []).result =
        some (.panicked Instant.overflowText) ∧
      ((after (startSteps endlessRun)).startLog (leavesTo (.call 0) 0) (.call 0) []).begins =
        [] := by
  obtain ⟨x, hadmits, -⟩ := admits_startSteps endlessRun ⟨2, Duration.zero⟩ (by decide +kernel)
    (by decide +kernel) (by decide +kernel)
  have hrun : ((after (startSteps endlessRun)).startLog (leavesTo (.call 0) 0) (.call 0)
      []).panicText? = some Instant.overflowText := by
    decide +kernel
  refine ⟨rfl, ⟨x, hadmits⟩, ?_, by decide +kernel⟩
  unfold Cycle.panicText? at hrun
  split at hrun
  · rename_i hresult
    rw [hresult, Option.some.inj hrun]
  · cases hrun

end System

end Scheduling
