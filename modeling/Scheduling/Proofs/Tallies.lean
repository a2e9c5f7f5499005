import Scheduling.Proofs.Failures
import Scheduling.Proofs.RetryCycles
/-!
# Runs and attempts

As long as nobody else starts the task of a start call, or cancels it, the runs of the task are the
attempts of the call, one for one, and each attempt ends as the body of its run does.
-/

namespace Scheduling

namespace System

variable {y z u : System} {a : Step} {t : TaskId} {task : Task}

/-- The task `t`, which has this body, has been started `count` times since `first` runs of it had
begun. It was not cancelled, and its latest run is where its body may have come to. -/
structure Tallies (y : System) (t : TaskId) (body : Nat → List Action) (first count : Nat)
    (task : Task) : Prop where
  found : y.tasks[t]? = some task
  same : task.body = body
  state : task.state ≠ .canceling
  pending : task.state.isPending = true → ∃ r run, y.runs.get? r = some run ∧ run.task = t ∧
    task.runs + (if run.point.isLaunched then 1 else 0) = first + count ∧
      run.point.Permitted body (first + count - 1)
  idle : task.state.isPending = false → task.runs = first + count ∧
    (0 < count → task.state ≠ .canceled ∧
      (RunPoint.ended task.outcome).Permitted body (first + count - 1))

theorem tallies_zero (htask : y.tasks[t]? = some task) (hidle : task.state.isPending = false) :
    y.Tallies t task.body task.runs 0 task := by
  refine ⟨htask, rfl, fun hcanceling => ?_, fun hpending => ?_, fun _ => ⟨rfl, fun hlt => ?_⟩⟩
  · rw [hcanceling] at hidle
    cases hidle
  · rw [hidle] at hpending
    cases hpending
  · exact absurd hlt (Nat.lt_irrefl 0)

namespace Tallies

variable {body : Nat → List Action} {first count : Nat}

theorem keeps (h : y.Tallies t body first count task) (hk : y.KeepsRuns z) :
    z.Tallies t body first count task where
  found := hk.tasks ▸ h.found
  same := h.same
  state := h.state
  pending := hk.runs ▸ h.pending
  idle := h.idle

/-- A start call is granted. -/
theorem launch (h : y.Tallies t body first count task) (hidle : task.state.isPending = false)
    (hl : y.Launches t z) : ∃ task', z.Tallies t body first (count + 1) task' := by
  obtain ⟨c, htask, hrun, -⟩ := hl.task_begin h.found
  refine ⟨_, htask, h.same, State.noConfusion,
    fun _ => ⟨_, _, hrun, rfl, ?_, RunPoint.permitted_launched ..⟩, fun hidle => by cases hidle⟩
  exact congrArg (· + 1) (h.idle hidle).1

/-- A step while the task has a run in progress. -/
theorem goesOn (h : y.Tallies t body first count task) (hy : y.Reachable) (hdeed : y.Deed a z)
    (hpending : task.state.isPending = true) (hcancel : z.state t ≠ .canceling) :
    ∃ task', z.Tallies t body first count task' := by
  obtain ⟨r, run, hrun, rfl, hruns, hpermitted⟩ := h.pending hpending
  obtain ⟨task', htask', hfate⟩ := hdeed.fate hy.tracked (hy.manned.fresh hrun) hrun h.found
  rw [state_eq htask'] at hcancel
  generalize hlater : z.runs.get? r = later at hfate
  cases hfate with
  | rests _ hyields =>
      obtain rfl | ⟨-, rfl⟩ := hyields
      · exact ⟨_, htask', h.same, hcancel, fun _ => ⟨r, run, hlater, rfl, hruns, hpermitted⟩,
          h.idle⟩
      · exact absurd rfl hcancel
  | goesOn =>
      exact ⟨_, htask', h.same, hcancel, fun _ => ⟨r, run, hlater, rfl, hruns, hpermitted⟩, h.idle⟩
  | begins hpoint hpoint' hsame =>
      rw [hpoint] at hruns
      have hlast : first + count - 1 = task.runs := by rw [← hruns]; rfl
      refine ⟨_, htask', h.same, hcancel, fun _ => ⟨r, _, hlater, hsame, ?_, ?_⟩, fun hidle => ?_⟩
      · rw [hpoint']
        exact hruns
      · rw [hpoint', hlast, h.same]
        exact RunPoint.permitted_acting body task.runs
      · exact absurd hpending (Bool.eq_false_iff.1 hidle)
  | acts hpoint hpoint' hopen hreaches hreports =>
      obtain ⟨_, _, rfl⟩ := hreports
      refine ⟨_, htask', h.same, hcancel,
        fun _ => ⟨r, _, hlater, rfl, ?_, hreaches.permitted hy hpoint' hpermitted⟩, h.idle⟩
      rw [isLaunched_eq_false hpoint] at hruns
      dsimp only
      rw [isLaunched_eq_false hpoint']
      exact hruns
  | @ends outcome hpoint =>
      rw [hpoint] at hruns hpermitted
      have hrunning : task.state = .running := by
        cases hstate : task.state with
        | running => rfl
        | canceling => exact absurd hstate h.state
        | _ =>
            rw [hstate] at hpending
            cases hpending
      obtain ⟨houtcome, hcanceled⟩ :=
        finish_of_running hrunning outcome (y.contexts.error? run.context) y.clock.wall
      obtain ⟨hterminal, -⟩ :=
        task.finish_state outcome (y.contexts.error? run.context) y.clock.wall
      have hdone := State.isPending_eq_false_of_isTerminal hterminal
      refine ⟨_, htask', h.same, hcancel, fun hpending => ?_,
        fun _ => ⟨hruns, fun _ => ⟨hcanceled, houtcome.symm ▸ hpermitted⟩⟩⟩
      exact absurd hpending (Bool.eq_false_iff.1 hdone)

/-- A step that does not start the task, which has no run in progress. -/
theorem rests (h : y.Tallies t body first count task) (hy : y.Tracked) (hdeed : y.Deed a z)
    (hidle : task.state.isPending = false) (hkept : (z.state t).isPending = false) :
    ∃ task', z.Tallies t body first count task' := by
  obtain ⟨task', htask', hturn⟩ := hdeed.turn h.found
  rw [state_eq htask'] at hkept
  have hnone {r : RunId} {run : Run} (hrun : y.runs.get? r = some run) (ht : run.task = t) :
      False := by
    rw [hy.isPending hrun ht h.found] at hidle
    cases hidle
  cases hturn with
  | yields hyields =>
      obtain rfl | ⟨hrunning, -⟩ := hyields
      · exact ⟨_, htask', h.same, h.state,
          fun hpending => absurd hpending (Bool.eq_false_iff.1 hidle), h.idle⟩
      · rw [hrunning] at hidle
        cases hidle
  | begins => cases hkept
  | launches hrun ht | reports hrun ht | finishes hrun ht => exact (hnone hrun ht).elim

/-- A step that neither starts the task nor cancels it. -/
theorem step (h : y.Tallies t body first count task) (hy : y.Reachable) (hdeed : y.Deed a z)
    (hcancel : z.state t ≠ .canceling)
    (hkept : task.state.isPending = false → (z.state t).isPending = false) :
    ∃ task', z.Tallies t body first count task' := by
  cases hpending : task.state.isPending with
  | true => exact h.goesOn hy hdeed hpending hcancel
  | false => exact h.rests hy.tracked hdeed hpending (hkept hpending)

end Tallies

/-! ## Start calls -/

section StartCalls

variable {e : ExecutorId} {x : Executor} {context : ContextId} {attempt halt : Nat}
  {status : CallStatus}

/-- If the task is idle an attempt begins a run unless the clock cannot count to the end of it. -/
theorem beginAttempt_of_idle (htask : y.tasks[x.task]? = some task)
    (hidle : task.state.isPending = false)
    (hmade : y.beginAttempt e x context attempt halt = (u, status)) :
    (status.panics = true ∧ y.KeepsRuns u) ∨ status.panics = false ∧ y.Launches x.task u := by
  obtain ⟨-, h⟩ | ⟨c, v, started, w, id, hv, hstarts, h⟩ :=
    beginAttempt_eq y e x context attempt halt
  · cases hmade.symm.trans h
    exact .inl ⟨rfl, .refl y⟩
  · obtain ⟨hkeeps, hclock⟩ := keepsRuns_attemptContext hv
    have hlook : v.tasks[x.task]? = some task := hkeeps.tasks ▸ htask
    obtain ⟨hpending, -⟩ | ⟨-, w', hstart⟩ := startTask_cases c hlook
    · rw [hidle] at hpending
      cases hpending
    · obtain ⟨rfl, rfl⟩ := Prod.mk.inj (hstarts.symm.trans hstart)
      cases hmade.symm.trans h
      have hmake : y.Works none v := works_attemptContext hv
      exact .inr ⟨rfl, (launches_of_startTask hstart).of_rests ⟨hkeeps, hmake.contexts⟩ hclock⟩

theorem keepsRuns_endAttempt {runContext : ContextId} (hpending : task.pending = false)
    (hmade : (u, status) = y.endAttempt e x task context attempt halt runContext) :
    y.KeepsRuns u := by
  have h : y.Attempts x task context (.running attempt halt runContext) (u, status) := by
    rw [hmade]
    exact attempts_endAttempt hpending
  cases h with
  | pauses _ _ _ _ h | ends _ _ h => exact h

end StartCalls

end System

namespace Cycle

variable {c c' : Cycle} {y z u : System} {a : Step} {who : Caller} {e : ExecutorId}
  {context : ContextId} {policy : RetryPolicy} {x x' : Executor} {task : Task} {call : StartCall}
  {status : System.CallStatus} {t : TaskId} {body : Nat → List Action} {first : Nat}

/-- Each attempt has begun the body once, and ended as the body may; if the call is not told to stop
nothing but a conflict makes an attempt the last one. -/
structure Tallies (c : Cycle) (t : TaskId) (body : Nat → List Action) (first : Nat) (y : System) :
    Prop where
  runs : ∃ task, y.Tallies t body first c.begins.length task ∧
    (c.current = none → task.state.isPending = false)
  made : ∀ (i : Nat) (a : Attempt), c.made[i]? = some a →
    (RunPoint.ended a.outcome).Permitted body (first + i) ∧
      (c.told = none → a.stops = a.error?.any Error.isConflict)

namespace Tallies

theorem of_log (h : c.Tallies t body first y) (hmade : c'.made = c.made)
    (hcurrent : c'.current = c.current) (htold : c'.told = none → c.told = none) :
    c'.Tallies t body first y := by
  have hbegins : c'.begins = c.begins := by rw [begins, hmade, hcurrent, begins]
  refine ⟨?_, fun i a ha => ?_⟩
  · rw [hbegins, hcurrent]
    exact h.runs
  · obtain ⟨hpermitted, hstops⟩ := h.made i a (hmade ▸ ha)
    exact ⟨hpermitted, fun hnone => hstops (htold hnone)⟩

theorem keeps (h : c.Tallies t body first y) (hk : y.KeepsRuns z) : c.Tallies t body first z := by
  obtain ⟨task, hruns, hidle⟩ := h.runs
  exact ⟨⟨task, hruns.keeps hk, hidle⟩, h.made⟩

theorem hear (h : c.Tallies t body first z) : (c.hear z call).Tallies t body first z := by
  refine h.of_log (made_hear ..) (current_hear ..) fun hnone => ?_
  unfold Cycle.hear at hnone
  split at hnone
  · exact hnone
  · exact (Option.or_eq_none_iff.1 hnone).1

/-- An attempt begins while none is under way. -/
theorem begins (h : c.Tallies t body first y) (hcurrent : c.current = none)
    (hmade : status.panics = true ∧ y.KeepsRuns u ∨ status.panics = false ∧ y.Launches t u) :
    (c.move y call u status).Tallies t body first u := by
  obtain ⟨hpanics, hk⟩ | ⟨hsilent, hlaunches⟩ := hmade
  · rw [move_of_panics hpanics]
    exact (h.keeps hk).of_log rfl rfl id
  · obtain ⟨task, hruns, hidle⟩ := h.runs
    obtain ⟨_, -, -, hnext, -⟩ := hlaunches.effects
    obtain ⟨task', hruns'⟩ := hruns.launch (hidle hcurrent) hlaunches
    have hlen : ({ c with current := some y.now } : Cycle).begins.length = c.begins.length + 1 := by
      simp [Cycle.begins, hcurrent]
    rw [move_of_launch hsilent hcurrent (Nat.lt_of_lt_of_eq (Nat.lt_succ_self _) hnext.symm)]
    exact ⟨⟨task', hlen ▸ hruns', fun h => by cases h⟩, h.made⟩

/-- The attempt under way is over. -/
theorem ends {begun : Instant} (h : c.Tallies t body first y) (hcurrent : c.current = some begun)
    (hx : y.executors[call.executor]? = some x') (ht : x'.task = t)
    (htask : y.tasks[t]? = some task) (hidle : task.state.isPending = false)
    (htold : c.told = none → y.isTold call.executor call.context = false) (hk : y.KeepsRuns u) :
    (c.move y call u status).Tallies t body first u := by
  cases hpanics : status.panics with
  | true =>
      rw [move_of_panics hpanics]
      exact (h.keeps hk).of_log rfl rfl id
  | false =>
      obtain ⟨task₀, hruns, -⟩ := h.runs
      obtain rfl := Option.some.inj (hruns.found.symm.trans htask)
      subst ht
      have hbegins : (c.conclude y call begun task₀.outcome).begins = c.begins :=
        begins_conclude hcurrent
      have hlen : c.begins.length = c.made.length + 1 := length_begins hcurrent
      have hlast : first + c.begins.length - 1 = first + c.made.length := by rw [hlen]; rfl
      obtain ⟨hcanceled, hpermitted⟩ :=
        (hruns.idle hidle).2 (Nat.lt_of_lt_of_eq (Nat.succ_pos _) hlen.symm)
      rw [← System.state_eq htask] at hcanceled
      rw [move_of_current hpanics hcurrent, System.taskOf_eq hx htask]
      refine ⟨⟨task₀, hbegins ▸ hruns.keeps hk, fun _ => hidle⟩, fun i a ha => ?_⟩
      have hlt : i < c.made.length + 1 := by
        simpa [Cycle.conclude] using (List.getElem?_eq_some_iff.1 ha).1
      obtain hlt | rfl := Nat.lt_or_eq_of_le (Nat.le_of_lt_succ hlt)
      · refine h.made i a ?_
        rwa [Cycle.conclude, List.getElem?_append_left hlt] at ha
      · obtain rfl := Option.some.inj (List.getElem?_concat_length.symm.trans ha)
        refine ⟨hlast ▸ hpermitted, fun hnone => ?_⟩
        cases houtcome : task₀.outcome with
        | ok => simp [System.stopsAfter, htold hnone, hx, hcanceled, Attempt.error?, failure?]
        | error => simp [System.stopsAfter, htold hnone, hx, hcanceled, Attempt.error?, failure?]

/-- The call makes a move while its cycle lasts. -/
theorem moved {choice : Nat} (h : c.Tallies x.task body first y)
    (hstage : c.Stage who e context policy x y)
    (hmoved : c.Moved who policy x x' task y u z call status)
    (hpending : task.pending = task.state.isPending) (hcall : y.startCall? who = some call)
    (hmade : y.callMove? call choice = some (u, status)) :
    ((c.move y call u status).hear z call).Tallies x.task body first z := by
  have hmem := List.mem_of_getElem? hmade
  have hx := hmoved.executor
  have hsame : x'.task = x.task := hmoved.counts.task
  have hkeeps : u.KeepsRuns z :=
    ⟨hmoved.resumes.tasks, hmoved.resumes.runs, hmoved.resumes.nextRun⟩
  suffices hlog : (c.move y call u status).Tallies x.task body first u from (hlog.keeps hkeeps).hear
  cases hstage with
  | ended _ hgone _ =>
      rw [hgone] at hcall
      cases hcall
  | running hopened hcurrent hx₀ hat htold hchild hdeadline hmoves =>
      obtain rfl := Option.some.inj (hat.symm.trans hcall)
      obtain ⟨hdone, hended⟩ := System.executionMoves_running hx hmoved.look hmem
      have hk : y.KeepsRuns u := System.keepsRuns_endAttempt hdone hended
      refine h.ends hcurrent hx hsame hmoved.task (hpending.symm.trans hdone) (fun hnone => ?_) hk
      rw [← htold, hnone]
      rfl
  | pausing hopened hcurrent hx₀ hat htold hlast houtcome hstops hcount hmoves hnow htime =>
      obtain rfl := Option.some.inj (hat.symm.trans hcall)
      obtain ⟨-, hended⟩ | ⟨-, hbegun⟩ := System.executionMoves_pausing hx hmoved.look hmem
      · cases hended
        rw [move_of_pause hcurrent]
        exact h.of_log rfl rfl id
      · obtain ⟨task₀, hruns, hidle⟩ := h.runs
        obtain rfl := Option.some.inj (hruns.found.symm.trans hmoved.task)
        refine h.begins hcurrent ?_
        rw [← hsame]
        exact System.beginAttempt_of_idle hmoved.look (hidle hcurrent) hbegun.symm

end Tallies

end Cycle

namespace System

/-- Whether a step leaves an executor and its task to the start call of someone, for which the clock
waits: nobody else starts or resets the executor, nobody else starts the task, and nobody cancels
it. -/
def leavesTaskTo (who : Caller) (e : ExecutorId) (t : TaskId) (y : System) (a : Step) : Bool :=
  y.leavesTo who e a && (y.step? a).all fun z =>
    z.state t != .canceling &&
      (a.isMoveOf who || (y.state t).isPending || !(z.state t).isPending)

end System

namespace Cycle

variable {c : Cycle} {y z : System} {a : Step} {who : Caller} {e : ExecutorId}
  {context : ContextId} {policy : RetryPolicy} {x : Executor} {body : Nat → List Action}
  {first : Nat}

/-- A step by which the call makes no move. -/
theorem Tallies.others (hy : y.Reachable) (h : c.Tallies x.task body first y)
    (hz : y.step? a = some z) (ha : y.leavesTaskTo who e x.task a = true)
    (hidle : a.isMoveOf who = true → y.working a = none) : c.Tallies x.task body first z := by
  obtain ⟨task, hruns, hcurrent⟩ := h.runs
  have hdeed := System.deed_of_step hz
  obtain ⟨-, ha⟩ := Bool.and_eq_true_iff.1 ha
  rw [hz, Option.all_some, Bool.and_eq_true, bne_iff_ne] at ha
  obtain ⟨hcancel, hstarts⟩ := ha
  have hbegins (hbefore : task.state.isPending = false) : (z.state x.task).isPending = false := by
    rw [System.state_eq hruns.found, hbefore, Bool.or_false, Bool.or_eq_true] at hstarts
    obtain hmove | hkept := hstarts
    · -- The caller does nothing that could start a task.
      obtain ⟨task', htask', hturn⟩ := hdeed.turn hruns.found
      rw [System.state_eq htask', ← Bool.not_eq_true]
      intro hafter
      obtain ⟨c, rfl⟩ | ⟨_, _, e', _, rfl, hworking, -⟩ :=
        hturn.causes hy.tracked hruns.found hbefore hafter
      · cases hmove
      · rw [hidle hmove] at hworking
        cases hworking
    · simpa using hkept
  obtain ⟨task', hruns'⟩ := hruns.step hy hdeed hcancel hbegins
  refine ⟨⟨task', hruns', fun hnone => ?_⟩, h.made⟩
  rw [← System.state_eq hruns'.found]
  exact hbegins (hcurrent hnone)

theorem Tallies.step (hy : y.Reachable) (h : c.Tallies x.task body first y)
    (htracks : c.Tracks who e context policy x y)
    (hretry : x.options.effectiveRetry = some policy) (hz : y.step? a = some z)
    (ha : y.leavesTaskTo who e x.task a = true) :
    (c.next who y a z).Tallies x.task body first z := by
  obtain ⟨hown, hsame, hidle⟩ | ⟨call, choice, u, status, hcall, hmade, hown, hresumes, hstatus⟩ :=
    hy.ownMove_cases hz htracks.names
  · have hothers := h.others hy hz ha hidle
    cases hcall : y.startCall? who with
    | none =>
        rw [next_of_gone hcall]
        exact hothers
    | some call =>
        rw [next_of_other hcall hown]
        exact hothers.hear
  · obtain ⟨x', task, hmoved⟩ := htracks.moved hy hretry hz hcall hresumes hstatus
    rw [next_of_move hcall hown]
    exact h.moved htracks.stage hmoved (hy.coherent hmoved.task).pending hcall hmade

/-- The first move of a start call that is admitted, while the task has no run in progress. -/
theorem tallies_of_admits {task : Task} (hy : y.Reachable)
    (h : y.Admits who e context policy x) (htask : y.tasks[x.task]? = some task)
    (hidle : task.state.isPending = false)
    (hz : y.step? (.move who.actor 0) = some z) :
    (({} : Cycle).next who y (.move who.actor 0) z).Tallies x.task task.body task.runs z := by
  obtain ⟨u, status, hown, hresumes, -, hbegun⟩ := h.enters hy hz
  have hempty : ({} : Cycle).Tallies x.task task.body task.runs y :=
    ⟨⟨task, System.tallies_zero htask hidle, fun _ => hidle⟩, fun i a ha => by cases ha⟩
  have hrenew : y.Rests { y with executors := y.executors.modify e Executor.renewHalt } :=
    ⟨⟨rfl, rfl, rfl⟩, .refl _⟩
  have hmade : status.panics = true ∧ y.KeepsRuns u ∨
      status.panics = false ∧ y.Launches x.task u := by
    obtain ⟨hpanics, hk⟩ | ⟨hsilent, hlaunches⟩ :=
      System.beginAttempt_of_idle (y := { y with executors := y.executors.modify e _ })
        (x := x.renewHalt) htask hidle hbegun
    · exact .inl ⟨hpanics, hrenew.toKeepsRuns.trans hk⟩
    · exact .inr ⟨hsilent, hlaunches.of_rests hrenew rfl⟩
  have hkeeps : u.KeepsRuns z := ⟨hresumes.tasks, hresumes.runs, hresumes.nextRun⟩
  rw [next_of_move h.call hown]
  exact ((hempty.begins rfl hmade).keeps hkeeps).hear

end Cycle

namespace System

variable {y : System} {who : Caller} {e : ExecutorId} {context : ContextId} {policy : RetryPolicy}
  {x : Executor} {task : Task}

/-- In a run in which an executor and its task are left to a start call that is admitted, its
attempts are the runs of the task at all times. -/
theorem tallies_startLog (hy : y.Reachable) (h : y.Admits who e context policy x)
    (htask : y.tasks[x.task]? = some task) (hidle : task.state.isPending = false)
    (steps : List Step) :
    (y.startRun (leavesTaskTo who e x.task) who steps).Reachable ∧
      (y.startLog (leavesTaskTo who e x.task) who steps).Tracks who e context policy x
        (y.startRun (leavesTaskTo who e x.task) who steps) ∧
      (y.startLog (leavesTaskTo who e x.task) who steps).Tallies x.task task.body task.runs
        (y.startRun (leavesTaskTo who e x.task) who steps) := by
  refine startLog_induction (P := fun v c => c.Tracks who e context policy x v ∧
    c.Tallies x.task task.body task.runs v) hy h (fun z hz => ?_) (fun v a w c hv ha hw hc => ?_)
    steps
  · have hfirst := Cycle.tallies_of_admits hy h htask hidle hz
    obtain ⟨task', hruns, -⟩ := hfirst.runs
    refine ⟨?_, Cycle.tracks_of_admits hy h hz, hfirst⟩
    simp [leavesTaskTo, leavesTo_move, hz, state_eq hruns.found, hruns.state, Step.isMoveOf]
  · exact ⟨hc.1.step hv h.retry hw (Bool.and_eq_true_iff.1 ha).1, hc.2.step hv hc.1 h.retry hw ha⟩

end System

end Scheduling
