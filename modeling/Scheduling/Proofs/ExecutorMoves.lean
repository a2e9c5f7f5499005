import Scheduling.Proofs.RetryMoves
/-!
# What a move makes of its executor

What a start call does in one move to the executor that it runs under, whatever the policies of the
executor are: it is turned away, gives up in a pause, begins an attempt that a run is launched for
or that is refused, or sees the end of a run. `course_of_mem` says so once for all of them.
-/

namespace Scheduling

namespace Executor

/-- Puts the outcome of an attempt on record, which is done under a retry policy only. -/
def settle (x : Executor) (attempt : Nat) (outcome : Outcome) : Executor :=
  if x.options.effectiveRetry.isSome then x.record attempt outcome else x

/-- Sets the end of the rest after a run that has ended now, if the task is to rest. -/
def rest (x : Executor) (now : Instant) : Executor :=
  match x.options.cooldown with
  | none => x
  | some cooldown => { x with cooldownUntil := some (now + cooldown.nanos) }

/-- Two executors have the same attempts and errors on record. -/
structure SameRecords (x x' : Executor) : Prop where
  attempts : x'.attempts = x.attempts
  errors : ∀ i, x'.errors.get? i = x.errors.get? i

variable (x : Executor) (attempt : Nat) (outcome : Outcome) (now : Instant)

theorem task_settle : (x.settle attempt outcome).task = x.task := by
  unfold settle
  split
  · exact (x.records_record attempt outcome).task
  · rfl

theorem options_settle : (x.settle attempt outcome).options = x.options := by
  unfold settle
  split
  · exact (x.records_record attempt outcome).options
  · rfl

theorem halts_settle : (x.settle attempt outcome).halts = x.halts := by
  unfold settle
  split
  · exact (x.records_record attempt outcome).halts
  · rfl

theorem cooldownUntil_settle : (x.settle attempt outcome).cooldownUntil = x.cooldownUntil := by
  unfold settle
  split
  · cases outcome <;> rfl
  · rfl

theorem rest_eq : x.rest now = { x with cooldownUntil := (x.rest now).cooldownUntil } := by
  unfold rest
  split <;> rfl

theorem sameRecords_rest : x.SameRecords (x.rest now) := by
  rw [rest_eq]
  exact ⟨rfl, fun _ => rfl⟩

theorem task_rest : (x.rest now).task = x.task := by
  rw [rest_eq]

theorem options_rest : (x.rest now).options = x.options := by
  rw [rest_eq]

theorem halts_rest : (x.rest now).halts = x.halts := by
  rw [rest_eq]

theorem task_settle_rest : ((x.rest now).settle attempt outcome).task = x.task :=
  ((x.rest now).task_settle attempt outcome).trans (x.task_rest now)

theorem options_settle_rest : ((x.rest now).settle attempt outcome).options = x.options :=
  ((x.rest now).options_settle attempt outcome).trans (x.options_rest now)

end Executor

/-- Whether a start call waits for the end of a run. -/
def CallPoint.isRunning : CallPoint → Bool
  | .running _ _ _ => true
  | _ => false

namespace System

variable {y z u v : System} {e : ExecutorId} {x x' x'' : Executor} {task : Task}
  {context : ContextId} {point : CallPoint} {attempt halt : Nat} {made : System × CallStatus}

/-! ## Changes of one executor -/

/-- The second system comes from the first in no time and by changes of one executor, which is `x'`
after them. -/
structure Sets (y : System) (e : ExecutorId) (x' : Executor) (u : System) : Prop where
  own : u.executors[e]? = some x'
  others : ∀ e', e' ≠ e → u.executors[e']? = y.executors[e']?
  clock : u.clock = y.clock

theorem sets_refl (hx : y.executors[e]? = some x) : y.Sets e x y := ⟨hx, fun _ _ => rfl, rfl⟩

theorem Sets.trans (h : y.Sets e x u) (h' : u.Sets e x' z) : y.Sets e x' z where
  own := h'.own
  others e' he' := (h'.others e' he').trans (h.others e' he')
  clock := h'.clock.trans h.clock

theorem Sets.of_eq (h : y.Sets e x u) (hexecutors : z.executors = u.executors)
    (hclock : z.clock = u.clock) : y.Sets e x z where
  own := hexecutors ▸ h.own
  others e' he' := hexecutors ▸ h.others e' he'
  clock := hclock.trans h.clock

theorem Sets.cancelContext (h : y.Sets e x u) (c : ContextId) : y.Sets e x (u.cancelContext c) :=
  h.of_eq rfl rfl

theorem sets_modifyExecutor (f : Executor → Executor) (hx : y.executors[e]? = some x) :
    y.Sets e (f x) (y.modifyExecutor e f) where
  own := modifyExecutor_look y hx
  others _ he' := Array.getElem?_modify.trans (if_neg fun heq => he' heq.symm)
  clock := rfl

theorem executors_attemptContext {made : ContextId × System}
    (h : y.attemptContext x context = some made) : made.2.executors = y.executors := by
  unfold attemptContext at h
  split at h
  · cases h
    rfl
  · obtain ⟨expiry, -, rfl⟩ := Option.map_eq_some_iff.1 h
    rfl

theorem size_attemptContext {made : ContextId × System}
    (h : y.attemptContext x context = some made) :
    made.2.contexts.nodes.size = y.contexts.nodes.size + 1 := by
  unfold attemptContext at h
  split at h
  · cases h
    exact Array.size_push _
  · obtain ⟨expiry, -, rfl⟩ := Option.map_eq_some_iff.1 h
    exact Array.size_push _

theorem sets_afterAttempt (outcome : Outcome) (hx : y.executors[e]? = some x')
    (hoptions : x'.options = x.options) :
    y.Sets e (x'.settle attempt outcome) (y.afterAttempt e x context attempt halt outcome).1 := by
  obtain ⟨hnone, h⟩ | ⟨retry, hretry, ⟨-, h⟩ | ⟨err, -, -, h⟩⟩ :=
    afterAttempt_eq y e x context attempt halt outcome
  · rw [h, Executor.settle, hoptions, hnone]
    exact sets_refl hx
  · rw [h, Executor.settle, hoptions, hretry]
    exact sets_modifyExecutor (·.record attempt outcome) hx
  · rw [h, Executor.settle, hoptions, hretry]
    exact sets_modifyExecutor (·.record attempt outcome) hx

/-! ## What a move comes to -/

/-- Why a start call is turned away at once: its task is done and may run only once, or has not
rested; or its context is done. -/
inductive Bars (y : System) (x : Executor) (task : Task) (context : ContextId) : Error → Prop
  | once (hdone : task.isDone = true) (honce : x.options.once = true) :
      Bars y x task context (.onlyOnce task.id)
  | cooling (hdone : task.isDone = true) (honce : x.options.once = false)
      (hrest : x.cooldownRemaining y.now ≠ Duration.zero) :
      Bars y x task context (.coolingDown task.id (x.cooldownRemaining y.now))
  | done {err : Error} (hstart : x.mayStart task y.now = .ok ())
      (herr : y.contexts.error? context = some err) : Bars y x task context err

/-- An attempt is due in a move, by its index and its halt flag: the first one if the call is let
in, for which the executor makes a halt flag, and a further one when its pause is over. -/
inductive Due (y : System) (x : Executor) (task : Task) (context : ContextId) :
    CallPoint → Nat → Nat → Executor → Prop
  | enters (hstart : x.mayStart task y.now = .ok ()) (hlive : y.contexts.isDone context = false) :
      Due y x task context .entered 0 x.halts.size x.renewHalt
  | retries {attempt halt : Nat} {wake : Instant} {last : Error} (hwake : wake ≤ y.now) :
      Due y x task context (.pausing attempt halt wake last) attempt halt x

theorem Due.task_eq (h : y.Due x task context point attempt halt x') : x'.task = x.task := by
  cases h <;> rfl

theorem Due.options_eq (h : y.Due x task context point attempt halt x') :
    x'.options = x.options := by
  cases h <;> rfl

theorem Due.cooldownUntil_eq (h : y.Due x task context point attempt halt x') :
    x'.cooldownUntil = x.cooldownUntil := by
  cases h <;> rfl

theorem Due.isRunning_eq_false (h : y.Due x task context point attempt halt x') :
    point.isRunning = false := by
  cases h <;> rfl

/-- What a move of a start call comes to, and what it makes of the executor. -/
inductive Course (y : System) (e : ExecutorId) (x : Executor) (task : Task)
    (context : ContextId) : CallPoint → System × CallStatus → Prop
  | bars {err : Error} (hwhy : y.Bars x task context err) :
      Course y e x task context .entered (y, .ended (.returned (.error err)))
  | givesUp {attempt halt : Nat} {wake : Instant} {last : Error}
      (hwhy : y.contexts.isDone context = true ∨ x.isHalted halt = true) :
      Course y e x task context (.pausing attempt halt wake last)
        (y, .ended (.returned (.error last)))
  /-- The clock cannot count to the end of the timeout. -/
  | overruns {point : CallPoint} {attempt halt : Nat} {x' : Executor} {u : System}
      (hdue : y.Due x task context point attempt halt x') (hfits : y.fits x.options = false)
      (hsets : y.Sets e x' u) (hkeeps : y.KeepsRuns u)
      (hsame : u.contexts.nodes.size = y.contexts.nodes.size) :
      Course y e x task context point (u, .ended (.panicked Instant.overflowText))
  /-- The task has a run in progress. -/
  | conflicts {point : CallPoint} {attempt halt : Nat} {x' : Executor} {u : System}
      (hdue : y.Due x task context point attempt halt x') (hfits : y.fits x.options = true)
      (hpending : task.state.isPending = true)
      (hsets : y.Sets e (x'.settle attempt (.error (.alreadyRunning task.id))) u)
      (hkeeps : y.KeepsRuns u) (hnew : y.contexts.nodes.size < u.contexts.nodes.size) :
      Course y e x task context point (u, .ended (.returned (.error (.alreadyRunning task.id))))
  | launches {point : CallPoint} {attempt halt : Nat} {x' : Executor} {u : System} {c : ContextId}
      (hdue : y.Due x task context point attempt halt x') (hfits : y.fits x.options = true)
      (hidle : task.state.isPending = false) (hsets : y.Sets e x' u) (h : y.Launches x.task u)
      (hnew : y.contexts.nodes.size < u.contexts.nodes.size) :
      Course y e x task context point (u, .at (.running attempt halt c))
  /-- The clock cannot count to the end of the rest. -/
  | overrests {attempt halt : Nat} {runContext : ContextId} {u : System}
      (hdone : task.pending = false) (hrest : y.restFits x.options = false) (hsets : y.Sets e x u)
      (hkeeps : y.KeepsRuns u) (hsame : u.contexts.nodes.size = y.contexts.nodes.size) :
      Course y e x task context (.running attempt halt runContext)
        (u, .ended (.panicked Instant.overflowText))
  | returns {attempt halt : Nat} {runContext : ContextId} {u : System}
      (hdone : task.pending = false) (hrest : y.restFits x.options = true)
      (hsets : y.Sets e ((x.rest y.now).settle attempt task.outcome) u) (hkeeps : y.KeepsRuns u)
      (hsame : u.contexts.nodes.size = y.contexts.nodes.size) :
      Course y e x task context (.running attempt halt runContext)
        (u, .ended (.returned task.outcome))
  | pauses {attempt halt : Nat} {runContext : ContextId} {u : System} {err : Error}
      {policy : RetryPolicy} (hdone : task.pending = false) (hrest : y.restFits x.options = true)
      (hsets : y.Sets e ((x.rest y.now).settle attempt task.outcome) u) (hkeeps : y.KeepsRuns u)
      (hsame : u.contexts.nodes.size = y.contexts.nodes.size)
      (houtcome : task.outcome = .error err) (hretry : x.options.effectiveRetry = some policy)
      (hgoes : (y.cancelContext runContext).endsCycle x context policy attempt halt err = false) :
      Course y e x task context (.running attempt halt runContext)
        (u, .at (.pausing (attempt + 1) halt (Instant.wake y.now policy.delay) err))

/-- An attempt that is due is refused while the task has a run in progress, where `w` is the system
with the context that was made for the attempt. -/
theorem course_conflict {w : System} {c : ContextId}
    (hdue : y.Due x task context point attempt halt x') (hfits : y.fits x.options = true)
    (hpending : task.state.isPending = true) (hsets : y.Sets e x' w) (hkeeps : y.KeepsRuns w)
    (hnew : y.contexts.nodes.size < w.contexts.nodes.size) :
    y.Course e x task context point
      ((w.cancelContext c).afterAttempt e x' context attempt halt
        (.error (.alreadyRunning task.id))) := by
  have hconflict : (Error.alreadyRunning task.id).isConflict = true := rfl
  have hended := afterAttempt_of_isConflict (w.cancelContext c) e x' context attempt halt hconflict
  have hsettled : (w.cancelContext c).Sets e _ ((w.cancelContext c).afterAttempt e x' context
      attempt halt (.error (.alreadyRunning task.id))).1 := sets_afterAttempt _ hsets.own rfl
  have hafter := keepsRuns_afterAttempt (w.cancelContext c) e x' context attempt halt
    (.error (.alreadyRunning task.id))
  have hworks := works_afterAttempt (y := w.cancelContext c) (e := e) x' context attempt halt
    (.error (.alreadyRunning task.id))
  have hgrows := (ContextTree.grows_cancel w.contexts c).trans hworks.contexts
  have hcancel : w.KeepsRuns (w.cancelContext c) := ⟨rfl, rfl, rfl⟩
  generalize (w.cancelContext c).afterAttempt e x' context attempt halt
    (.error (.alreadyRunning task.id)) = made at *
  obtain ⟨u, status⟩ := made
  cases hended
  exact .conflicts hdue hfits hpending ((hsets.cancelContext c).trans hsettled)
    ((hkeeps.trans hcancel).trans hafter) (Nat.lt_of_lt_of_le hnew hgrows.size_le)

/-- An attempt that is due, where `v` is the system with the halt flag that was made for it. -/
theorem course_beginAttempt (htask : y.tasks[x.task]? = some task)
    (hdue : y.Due x task context point attempt halt x') (hsets : y.Sets e x' v)
    (hkeeps : y.KeepsRuns v) (hcontexts : v.contexts = y.contexts) :
    y.Course e x task context point (v.beginAttempt e x' context attempt halt) := by
  have hnow : v.now = y.now := congrArg Clock.now hsets.clock
  have hfits : v.fits x'.options = y.fits x.options := by
    rw [fits, hnow, hdue.options_eq, fits]
  have hlook : v.tasks[x'.task]? = some task := by rw [hkeeps.tasks, hdue.task_eq, htask]
  cases hmade : v.attemptContext x' context with
  | none =>
      have hbegin : v.beginAttempt e x' context attempt halt =
          (v, .ended (.panicked Instant.overflowText)) := by simp only [beginAttempt, hmade]
      rw [hbegin]
      exact .overruns hdue (hfits ▸ attemptContext_eq_none_iff.1 hmade) hsets hkeeps
        (by rw [hcontexts])
  | some made =>
      obtain ⟨c, w⟩ := made
      have hfits' : y.fits x.options = true := by
        have hiff : v.attemptContext x' context = none ↔ v.fits x'.options = false :=
          attemptContext_eq_none_iff
        rw [← hfits, ← Bool.not_eq_false, ← hiff, hmade]
        exact Option.some_ne_none _
      obtain ⟨hmake, hclock⟩ := keepsRuns_attemptContext hmade
      have hw : y.Sets e x' w := hsets.of_eq (executors_attemptContext hmade) hclock
      have hrests : y.Rests w := by
        refine ⟨hkeeps.trans hmake, ?_⟩
        rw [← hcontexts]
        exact (show v.Works none w from works_attemptContext hmade).contexts
      have hnew : y.contexts.nodes.size < w.contexts.nodes.size := by
        rw [size_attemptContext hmade, hcontexts]
        exact Nat.lt_succ_self _
      have hlook' : w.tasks[x'.task]? = some task := hmake.tasks ▸ hlook
      obtain ⟨hpending, hstart⟩ | ⟨hidle, w', hstart⟩ := startTask_cases c hlook'
      · have hid : (w.tasks[x'.task]?.map Task.id).getD "" = task.id := by
          rw [hlook']
          rfl
        have hbegin : v.beginAttempt e x' context attempt halt =
            (w.cancelContext c).afterAttempt e x' context attempt halt
              (.error (.alreadyRunning task.id)) := by
          simp only [beginAttempt, hmade, hstart, hid]
        rw [hbegin]
        exact course_conflict hdue hfits' hpending hw hrests.toKeepsRuns hnew
      · have hbegin : v.beginAttempt e x' context attempt halt =
            (w', .at (.running attempt halt c)) := by
          simp only [beginAttempt, hmade, hstart]
        have hworks : w.Works none (w.startTask x'.task c).2 := works_startTask w x'.task c
        have hsame := executors_startTask w x'.task c
        have hlaunch : y.Launches x'.task w' :=
          (launches_of_startTask hstart).of_rests hrests hw.clock
        rw [hstart] at hworks hsame
        rw [hbegin]
        exact .launches hdue hfits' hidle (hw.of_eq hsame hworks.clock) (hdue.task_eq ▸ hlaunch)
          (Nat.lt_of_lt_of_le hnew hworks.contexts.size_le)

theorem course_enter (hx : y.executors[e]? = some x) (htask : y.tasks[x.task]? = some task) :
    y.Course e x task context .entered (y.enter e x task context) := by
  cases hstart : x.mayStart task y.now with
  | error err =>
      have hbarred : y.enter e x task context = (y, .ended (.returned (.error err))) := by
        simp only [System.enter, hstart]
      rw [hbarred]
      unfold Executor.mayStart at hstart
      split at hstart
      · cases hstart
      · rename_i hdone
        replace hdone : task.isDone = true := by simpa using hdone
        split at hstart
        · cases hstart
          exact .bars (.once hdone ‹_›)
        · rename_i honce
          split at hstart
          · cases hstart
          · cases hstart
            exact .bars (.cooling hdone (by simpa using honce) ‹_›)
  | ok =>
      cases herr : y.contexts.error? context with
      | some err =>
          have hbarred : y.enter e x task context = (y, .ended (.returned (.error err))) := by
            simp only [System.enter, hstart, herr]
          rw [hbarred]
          exact .bars (.done hstart herr)
      | none =>
          have hlive : y.contexts.isDone context = false := by
            rw [← ContextTree.isSome_error?, herr]
            rfl
          have hhalt : x.renewHalt.currentHalt = x.halts.size := by
            simp [Executor.currentHalt, Executor.renewHalt]
          have hentered : y.enter e x task context =
              (y.modifyExecutor e Executor.renewHalt).beginAttempt e x.renewHalt context 0
                x.halts.size := by
            simp only [System.enter, hstart, herr, hhalt]
          rw [hentered]
          exact course_beginAttempt htask (.enters hstart hlive) (sets_modifyExecutor _ hx)
            ⟨rfl, rfl, rfl⟩ rfl

/-- What follows a run, where `v` is the system with the time of rest that was set for it. -/
theorem course_afterAttempt {runContext : ContextId} (hdone : task.pending = false)
    (hrest : y.restFits x.options = true) (hsets : y.Sets e (x.rest y.now) v)
    (hkeeps : y.KeepsRuns v) (hcontexts : v.contexts = (y.cancelContext runContext).contexts) :
    y.Course e x task context (.running attempt halt runContext)
      (v.afterAttempt e x context attempt halt task.outcome) := by
  have hkeeps' := hkeeps.trans (keepsRuns_afterAttempt v e x context attempt halt task.outcome)
  have hsets' : y.Sets e ((x.rest y.now).settle attempt task.outcome)
      (v.afterAttempt e x context attempt halt task.outcome).1 :=
    hsets.trans (sets_afterAttempt task.outcome hsets.own (x.options_rest y.now))
  have hnow : v.now = y.now := congrArg Clock.now hsets.clock
  have hsize : v.contexts.nodes.size = y.contexts.nodes.size := by
    rw [hcontexts]
    exact Array.size_modify
  revert hkeeps' hsets'
  obtain ⟨-, h⟩ | ⟨policy, hretry, ⟨-, h⟩ | ⟨err, houtcome, hgoes, h⟩⟩ :=
    afterAttempt_eq v e x context attempt halt task.outcome
  · rw [h]
    exact fun hkeeps' hsets' => .returns hdone hrest hsets' hkeeps' hsize
  · rw [h]
    exact fun hkeeps' hsets' => .returns hdone hrest hsets' hkeeps' hsize
  · rw [h, hnow]
    refine fun hkeeps' hsets' => .pauses hdone hrest hsets' hkeeps' hsize houtcome hretry ?_
    have hstate (t : TaskId) : v.state t = (y.cancelContext runContext).state t := by
      rw [state, hkeeps.tasks]
      rfl
    simpa only [endsCycle, hcontexts, hstate] using hgoes

theorem course_endAttempt {runContext : ContextId} (hx : y.executors[e]? = some x)
    (hdone : task.pending = false) :
    y.Course e x task context (.running attempt halt runContext)
      (y.endAttempt e x task context attempt halt runContext) := by
  have hcancel : y.KeepsRuns (y.cancelContext runContext) := ⟨rfl, rfl, rfl⟩
  unfold endAttempt
  cases hcooldown : x.options.cooldown with
  | none =>
      have hrest : x.rest y.now = x := by simp only [Executor.rest, hcooldown]
      refine course_afterAttempt hdone ?_ ?_ hcancel rfl
      · simp [restFits, hcooldown]
      · rw [hrest]
        exact (sets_refl hx).cancelContext runContext
  | some cooldown =>
      dsimp only
      cases hadd : Instant.add? (y.cancelContext runContext).now cooldown with
      | none =>
          replace hadd : Instant.add? y.now cooldown = none := hadd
          refine .overrests hdone ?_ ((sets_refl hx).cancelContext runContext) hcancel
            Array.size_modify
          simp [restFits, hcooldown, hadd]
      | some instant =>
          replace hadd : Instant.add? y.now cooldown = some instant := hadd
          obtain rfl : y.now + cooldown.nanos = instant := by
            unfold Instant.add? at hadd
            split at hadd
            · exact Option.some.inj hadd
            · cases hadd
          have hrest : x.rest y.now =
              { x with cooldownUntil := some (y.now + cooldown.nanos) } := by
            simp only [Executor.rest, hcooldown]
          refine course_afterAttempt hdone ?_ ?_ ⟨rfl, rfl, rfl⟩ rfl
          · simp [restFits, hcooldown, hadd]
          · have hset := sets_modifyExecutor (y := y.cancelContext runContext)
              (fun x => { x with cooldownUntil := some (y.now + cooldown.nanos) }) hx
            rw [hrest]
            exact ((sets_refl hx).cancelContext runContext).trans hset

/-- Every move of a start call takes one of these courses. -/
theorem course_of_mem (h : made ∈ y.executionMoves e context point) :
    ∃ (x : Executor) (task : Task), y.executors[e]? = some x ∧ y.tasks[x.task]? = some task ∧
      y.Course e x task context point made := by
  obtain ⟨x, task, hx, htask, hmove⟩ := executionMove_of_mem h
  refine ⟨x, task, hx, htask, ?_⟩
  cases hmove with
  | enter => exact course_enter hx htask
  | endAttempt hdone => exact course_endAttempt hx hdone
  | giveUp hwhy => exact .givesUp hwhy
  | retry hwake =>
      exact course_beginAttempt htask (.retries hwake) (sets_refl hx) (.refl y) rfl

end System

end Scheduling
