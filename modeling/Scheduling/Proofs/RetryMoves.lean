import Scheduling.Proofs.StartCalls
/-!
# Moves of start calls that may retry

What a start call does to its executor and to the contexts in each of its moves, if it has a retry
policy: it is refused or begins an attempt under a new context; it sees the end of the run, has the
attempt put on record and ends or pauses; in a pause it gives up or begins the next attempt.
-/

namespace Scheduling

/-- What those who wait for the end of a run are told. -/
def Task.outcome (task : Task) : Outcome :=
  match task.error with
  | none => .ok ()
  | some err => .error err

/-- The error of an outcome, if it is one. -/
def failure? : Outcome → Option Error
  | .ok () => none
  | .error err => some err

/-- The deadline of a context that is made below another one, for what has begun at an instant. -/
def ContextTree.deadlineWithin (t : ContextTree) (parent : ContextId) (begun : Instant) :
    Option Duration → Option Instant
  | none => t.deadline parent
  | some timeout =>
    some (((t.deadline parent).map (min · (begun + timeout.nanos))).getD (begun + timeout.nanos))

theorem ContextTree.deadlineWithin_congr {t u : ContextTree} {parent : ContextId}
    (h : u.deadline parent = t.deadline parent) (begun : Instant) (timeout : Option Duration) :
    u.deadlineWithin parent begun timeout = t.deadlineWithin parent begun timeout := by
  unfold deadlineWithin
  rw [h]

theorem Instant.le_wake (t : Instant) (d : Duration) : t ≤ t.wake d := by
  unfold wake add?
  split
  · exact Nat.le_add_right _ _
  · exact Nat.le_add_right _ _

theorem Clock.millis_le_ceilMillis {c : Clock} {t : Instant} (h : c.now ≤ t) :
    c.millis ≤ t.ceilMillis := by
  have hceil (n t : Nat) (h : 1000000 * n ≤ t) : n ≤ (t + 999999) / 1000000 := by omega
  exact hceil c.millis t h

theorem Clock.millis_lt_ceilMillis {c : Clock} {t : Instant} (h : c.now < t) :
    c.millis < t.ceilMillis := by
  have hceil (n t : Nat) (h : 1000000 * n < t) : n < (t + 999999) / 1000000 := by omega
  exact hceil c.millis t h

theorem Clock.le_now {c : Clock} {t : Instant} (h : t.ceilMillis ≤ c.millis) : t ≤ c.now := by
  have hceil (n t : Nat) (h : (t + 999999) / 1000000 ≤ n) : t ≤ 1000000 * n := by omega
  exact hceil c.millis t h

theorem Clock.ceilMillis_now (c : Clock) : c.now.ceilMillis = c.millis := by
  have hceil (n : Nat) : (1000000 * n + 999999) / 1000000 = n := by omega
  exact hceil c.millis

/-- What is beyond the clock at an instant is so at every later one. -/
theorem Instant.beyond_of_le {t t' : Instant} {d : Option Duration} (h : t ≤ t')
    (hbeyond : (d.all fun d => (t.add? d).isSome) = false) :
    (d.all fun d => (t'.add? d).isSome) = false := by
  cases d with
  | none => cases hbeyond
  | some d =>
      unfold Instant.add? at *
      have hlimit : ¬ t + d.nanos < Instant.limit := by
        intro hlt
        simp [hlt] at hbeyond
      have hlimit' : ¬ t' + d.nanos < Instant.limit := fun hlt =>
        hlimit (Nat.lt_of_le_of_lt (Nat.add_le_add_right h d.nanos) hlt)
      simp [hlimit']

/-- The second state of an executor has one attempt more on record. -/
structure Executor.Records (x x' : Executor) (attempt : Nat) (outcome : Outcome) : Prop where
  task : x'.task = x.task
  options : x'.options = x.options
  halts : x'.halts = x.halts
  attempts : x'.attempts = attempt + 1
  errors : ∀ i, x'.errors.get? i =
    if i = attempt then (failure? outcome).or (x.errors.get? i) else x.errors.get? i

theorem Executor.records_record (x : Executor) (attempt : Nat) (outcome : Outcome) :
    x.Records (x.record attempt outcome) attempt outcome := by
  cases outcome with
  | ok => exact ⟨rfl, rfl, rfl, rfl, fun i => (ite_self _).symm⟩
  | error err => exact ⟨rfl, rfl, rfl, rfl, fun i => Registry.get?_insert x.errors attempt i err⟩

namespace System

variable {y z u : System} {a : Step} {who : Caller} {e : ExecutorId} {x x' : Executor} {task : Task}
  {context : ContextId} {policy : RetryPolicy} {attempt halt : Nat}

/-! ## Moves of a start call that may retry -/

/-- Whether the start call of an executor under a context is told to stop: its context is done, or
the newest halt flag of the executor was raised. -/
def isTold (y : System) (e : ExecutorId) (context : ContextId) : Bool :=
  y.contexts.isDone context || y.executors[e]?.any fun x => x.isHalted x.currentHalt

/-- Whether an attempt that ends now is the last one, be there further ones allowed or not: the
start call is told to stop, the task was canceled, or the error is a conflict. -/
def stopsAfter (y : System) (e : ExecutorId) (context : ContextId) (outcome : Outcome) : Bool :=
  y.isTold e context || y.executors[e]?.any (fun x => y.state x.task == .canceled) ||
    match outcome with
    | .ok () => false
    | .error err => err.isConflict

/-- What the executor `e` makes of an attempt that is over, after which nothing has changed but its
record: the start call ends if it is the last one and pauses otherwise. -/
structure EndsAttempt (y u : System) (e : ExecutorId) (x : Executor) (policy : RetryPolicy)
    (attempt halt : Nat) (outcome : Outcome) (stops : Bool) (status : CallStatus) : Prop where
  clock : u.clock = y.clock
  tasks : u.tasks = y.tasks
  runs : u.runs = y.runs
  nextRun : u.nextRun = y.nextRun
  executor : ∃ x', u.executors[e]? = some x' ∧ x.Records x' attempt outcome
  status : (status = .ended (.returned outcome) ∧
      (outcome = .ok () ∨ stops = true ∨ max policy.attempts 1 ≤ attempt + 1)) ∨
    ∃ err, outcome = .error err ∧ stops = false ∧ attempt + 1 < max policy.attempts 1 ∧
      status = .at (.pausing (attempt + 1) halt (Instant.wake y.now policy.delay) err)

theorem EndsAttempt.silent {outcome : Outcome} {stops : Bool} {status : CallStatus}
    (h : y.EndsAttempt u e x policy attempt halt outcome stops status) : status.panics = false := by
  obtain ⟨rfl, -⟩ | ⟨err, -, -, -, rfl⟩ := h.status <;> rfl

theorem modifyExecutor_look (y : System) {f : Executor → Executor}
    (hx : y.executors[e]? = some x) : (y.modifyExecutor e f).executors[e]? = some (f x) := by
  change (y.executors.modify e f)[e]? = some (f x)
  rw [Array.getElem?_modify, if_pos rfl, hx]
  rfl

/-- After an attempt, where `v` is the system before the executor and the attempt's context were set
to its end. -/
theorem endsAttempt_afterAttempt {v : System} {outcome : Outcome} {stops : Bool}
    (hretry : x.options.effectiveRetry = some policy) (hx : y.executors[e]? = some x')
    (hrecord : ∀ x'', x'.Records x'' attempt outcome → x.Records x'' attempt outcome)
    (hclock : y.clock = v.clock) (htasks : y.tasks = v.tasks) (hruns : y.runs = v.runs)
    (hnext : y.nextRun = v.nextRun)
    (hstops : ∀ err, outcome = .error err → stops =
      (y.state x.task == .canceled || y.contexts.isDone context || x.isHalted halt ||
        err.isConflict)) :
    v.EndsAttempt (y.afterAttempt e x context attempt halt outcome).1 e x policy attempt halt
      outcome stops (y.afterAttempt e x context attempt halt outcome).2 := by
  have hrecorded : ∃ x'', (y.modifyExecutor e (·.record attempt outcome)).executors[e]? = some x'' ∧
      x.Records x'' attempt outcome :=
    ⟨_, modifyExecutor_look y hx, hrecord _ (x'.records_record attempt outcome)⟩
  have hnow : y.now = v.now := congrArg Clock.now hclock
  have hends {err : Error} (herr : outcome = .error err) :
      y.endsCycle x context policy attempt halt err =
        (stops || decide (max policy.attempts 1 ≤ attempt + 1)) := by
    rw [hstops err herr]
    rfl
  obtain ⟨hnone, -⟩ | ⟨retry, hsome, ⟨hlast, h⟩ | ⟨err, rfl, hgoes, h⟩⟩ :=
    afterAttempt_eq y e x context attempt halt outcome
  · rw [hretry] at hnone
    cases hnone
  · obtain rfl := Option.some.inj (hretry.symm.trans hsome)
    rw [h]
    refine ⟨hclock, htasks, hruns, hnext, hrecorded, .inl ⟨rfl, ?_⟩⟩
    obtain hok | ⟨err, herr, hlast⟩ := hlast
    · exact .inl hok
    · rw [hends herr, Bool.or_eq_true, decide_eq_true_eq] at hlast
      exact .inr hlast
  · obtain rfl := Option.some.inj (hretry.symm.trans hsome)
    rw [h, hnow]
    rw [hends rfl, Bool.or_eq_false_iff, decide_eq_false_iff_not] at hgoes
    exact ⟨hclock, htasks, hruns, hnext, hrecorded,
      .inr ⟨err, rfl, hgoes.1, Nat.lt_of_not_le hgoes.2, rfl⟩⟩

theorem stopsAfter_error {v : System} {err : Error} (hx : v.executors[e]? = some x) :
    v.stopsAfter e context (.error err) =
      (v.state x.task == .canceled || v.contexts.isDone context || x.isHalted x.currentHalt ||
        err.isConflict) := by
  unfold stopsAfter isTold
  rw [hx, Option.any_some, Option.any_some, Bool.or_comm, Bool.or_comm (_ || _)]
  simp only [Bool.or_assoc, Bool.or_comm, Bool.or_left_comm]

/-- What a start call does when the run of an attempt has ended: nothing if the end of the rest is
beyond the clock. -/
theorem endAttempt_cases {v : System} {runContext : ContextId} (task : Task)
    (hretry : x.options.effectiveRetry = some policy) (hx : v.executors[e]? = some x)
    (hapart : runContext ∉ v.contexts.lineage context) :
    (v.restFits x.options = false ∧
        v.endAttempt e x task context attempt x.currentHalt runContext =
          (v.cancelContext runContext, .ended (.panicked Instant.overflowText))) ∨
      v.EndsAttempt (v.endAttempt e x task context attempt x.currentHalt runContext).1 e x policy
        attempt x.currentHalt task.outcome (v.stopsAfter e context task.outcome)
        (v.endAttempt e x task context attempt x.currentHalt runContext).2 := by
  have hcancel : v.contexts.Agrees (v.cancelContext runContext).contexts context :=
    ContextTree.agrees_cancel hapart
  have hstops (err : Error) (herr : task.outcome = .error err) :
      v.stopsAfter e context task.outcome = (v.state x.task == .canceled ||
        (v.cancelContext runContext).contexts.isDone context || x.isHalted x.currentHalt ||
          err.isConflict) := by
    rw [herr, stopsAfter_error hx, hcancel.isDone]
  unfold endAttempt
  cases hrest : x.options.cooldown with
  | none =>
      exact .inr (endsAttempt_afterAttempt hretry hx (fun _ => id) rfl rfl rfl rfl hstops)
  | some cooldown =>
      dsimp only
      cases hadd : Instant.add? (v.cancelContext runContext).now cooldown with
      | none =>
          refine .inl ⟨?_, rfl⟩
          have hnone : Instant.add? v.now cooldown = none := hadd
          simp [restFits, hrest, hnone]
      | some instant =>
          refine .inr (endsAttempt_afterAttempt hretry (modifyExecutor_look _ hx) ?_ rfl rfl rfl rfl
            hstops)
          exact fun x'' h => ⟨h.task, h.options, h.halts, h.attempts, h.errors⟩

/-- A context for an attempt lies below that of the start call and expires after the timeout. -/
structure OpensContext (y u : System) (c context : ContextId) (timeout : Option Duration) :
    Prop where
  contexts : y.contexts.Grows u.contexts
  new : y.contexts.nodes.size < u.contexts.nodes.size
  child : u.contexts.ChildOf c context
  deadline : u.contexts.deadline c = u.contexts.deadlineWithin context y.now timeout

theorem OpensContext.grows {c : ContextId} {timeout : Option Duration}
    (h : y.OpensContext u c context timeout) (hgrows : u.contexts.Grows z.contexts) :
    y.OpensContext z c context timeout where
  contexts := h.contexts.trans hgrows
  new := Nat.lt_of_lt_of_le h.new hgrows.size_le
  child := h.child.grows hgrows
  deadline := by
    rw [hgrows.deadline_eq h.child.made, h.deadline,
      ContextTree.deadlineWithin_congr (hgrows.deadline_eq h.child.parent)]

theorem opensContext_attemptContext {c : ContextId} (hcontext : y.hasContext context = true)
    (h : y.attemptContext x context = some (c, u)) :
    y.OpensContext u c context x.options.timeout ∧ u.executors = y.executors := by
  have hlt : context < y.contexts.nodes.size := of_decide_eq_true hcontext
  unfold attemptContext at h
  cases htimeout : x.options.timeout with
  | none =>
      rw [htimeout] at h
      cases h
      have hgrows := ContextTree.grows_child y.contexts context
      refine ⟨⟨hgrows, ?_, ContextTree.childOf_child hlt, ?_⟩, rfl⟩
      · exact Nat.lt_of_lt_of_eq (Nat.lt_succ_self _) (Array.size_push _).symm
      · exact (ContextTree.deadline_child _ _).trans (hgrows.deadline_eq hlt).symm
  | some timeout =>
      rw [htimeout] at h
      obtain ⟨expiry, hexpiry, hmade⟩ := Option.map_eq_some_iff.1 h
      cases hmade
      obtain rfl : y.now + timeout.nanos = expiry := by
        unfold Instant.add? at hexpiry
        split at hexpiry
        · exact Option.some.inj hexpiry
        · cases hexpiry
      have hgrows := ContextTree.grows_childUntil y.contexts context (y.now + timeout.nanos)
      refine ⟨⟨hgrows, ?_, ContextTree.childOf_childUntil hlt _, ?_⟩, rfl⟩
      · exact Nat.lt_of_lt_of_eq (Nat.lt_succ_self _) (Array.size_push _).symm
      · exact (ContextTree.deadline_childUntil _ _ _).trans
          (ContextTree.deadlineWithin_congr (hgrows.deadline_eq hlt) y.now (some timeout)).symm

theorem executors_startTask (y : System) (t : TaskId) (parent : ContextId) :
    (y.startTask t parent).2.executors = y.executors := by
  unfold startTask
  split
  · rfl
  · split <;> rfl

/-- What a start call does when an attempt is to begin: nothing if the end of its timeout is beyond
the clock; otherwise it begins a run unless the task has one in progress. -/
theorem beginAttempt_outcome (attempt halt : Nat)
    (hretry : x.options.effectiveRetry = some policy) (hx : y.executors[e]? = some x)
    (htask : y.tasks[x.task]? = some task) (hcontext : y.hasContext context = true) :
    (y.fits x.options = false ∧
        y.beginAttempt e x context attempt halt = (y, .ended (.panicked Instant.overflowText))) ∨
      (∃ u c status, y.beginAttempt e x context attempt halt = (u, status) ∧
        y.OpensContext u c context x.options.timeout ∧
        y.EndsAttempt u e x policy attempt halt (.error (.alreadyRunning task.id)) true status) ∨
      ∃ u c, y.beginAttempt e x context attempt halt = (u, .at (.running attempt halt c)) ∧
        y.OpensContext u c context x.options.timeout ∧ u.clock = y.clock ∧
        u.executors = y.executors ∧ u.nextRun = y.nextRun + 1 := by
  cases hmade : y.attemptContext x context with
  | none => exact .inl ⟨attemptContext_eq_none_iff.1 hmade, by simp [beginAttempt, hmade]⟩
  | some made =>
      obtain ⟨c, v⟩ := made
      obtain ⟨hopens, hexecutors⟩ := opensContext_attemptContext hcontext hmade
      obtain ⟨hkeeps, hclock⟩ := keepsRuns_attemptContext hmade
      dsimp only at hkeeps hclock
      have hlook : v.tasks[x.task]? = some task := hkeeps.tasks ▸ htask
      obtain ⟨-, hstart⟩ | ⟨-, w, hstart⟩ := startTask_cases c hlook
      · have hid : (v.tasks[x.task]?.map Task.id).getD "" = task.id := by
          rw [hlook]
          rfl
        have hbegin : y.beginAttempt e x context attempt halt =
            (v.cancelContext c).afterAttempt e x context attempt halt
              (.error (.alreadyRunning task.id)) := by
          simp only [beginAttempt, hmade, hstart, hid]
        have hlook' : (v.cancelContext c).executors[e]? = some x := hexecutors ▸ hx
        have hworks : v.Works (some e) ((v.cancelContext c).afterAttempt e x context attempt halt
            (.error (.alreadyRunning task.id))).1 :=
          (works_cancelContext v c).trans (works_afterAttempt _ _ _ _ _)
        refine .inr (.inl ⟨_, c, _, hbegin, hopens.grows hworks.contexts, ?_⟩)
        refine endsAttempt_afterAttempt hretry hlook' (fun _ => id) hclock hkeeps.tasks hkeeps.runs
          hkeeps.nextRun fun err herr => ?_
        cases herr
        exact (Bool.or_true _).symm
      · have hbegin : y.beginAttempt e x context attempt halt =
            (w, .at (.running attempt halt c)) := by
          simp only [beginAttempt, hmade, hstart]
        have hw : v.Works none w := by simpa only [hstart] using works_startTask v x.task c
        obtain ⟨_, -, -, hnext, -⟩ := effects_of_startTask hstart
        have hsame := executors_startTask v x.task c
        rw [hstart] at hsame
        exact .inr (.inr ⟨w, c, hbegin, hopens.grows hw.contexts, hw.clock.trans hclock,
          hsame.trans hexecutors, hnext.trans (congrArg (· + 1) hkeeps.nextRun)⟩)

/-- A start call that has not been looked at is made under a live context and will be admitted by
its executor, which may retry. -/
structure Admits (y : System) (who : Caller) (e : ExecutorId) (context : ContextId)
    (policy : RetryPolicy) (x : Executor) : Prop where
  call : y.startCall? who = some ⟨e, context, .entered⟩
  executor : y.executors[e]? = some x
  retry : x.options.effectiveRetry = some policy
  mayStart : ∃ task, y.tasks[x.task]? = some task ∧ x.mayStart task y.now = .ok ()
  live : y.contexts.isDone context = false

/-- The task of an executor. -/
def taskOf (y : System) (e : ExecutorId) : Task :=
  (y.executors[e]?.bind fun x => y.tasks[x.task]?).getD default

theorem taskOf_eq (hx : y.executors[e]? = some x) (htask : y.tasks[x.task]? = some task) :
    y.taskOf e = task := by
  rw [taskOf, hx, Option.bind_some, htask]
  rfl

/-! ## Moves of a start call on its way -/

variable {made : System × CallStatus}

/-- While an attempt is under way the only move is its end. -/
theorem executionMoves_running {runContext : ContextId} (hx : y.executors[e]? = some x)
    (htask : y.tasks[x.task]? = some task)
    (h : made ∈ y.executionMoves e context (.running attempt halt runContext)) :
    task.pending = false ∧ made = y.endAttempt e x task context attempt halt runContext := by
  simp only [executionMoves, hx, htask] at h
  split at h
  · cases h
  · rename_i hpending
    exact ⟨by simpa using hpending, List.mem_singleton.1 h⟩

/-- A pause ends when the call is told to stop or an attempt begins. -/
theorem executionMoves_pausing {wake : Instant} {last : Error} (hx : y.executors[e]? = some x)
    (htask : y.tasks[x.task]? = some task)
    (h : made ∈ y.executionMoves e context (.pausing attempt halt wake last)) :
    ((y.contexts.isDone context || x.isHalted halt) = true ∧
        made = (y, .ended (.returned (.error last)))) ∨
      wake ≤ y.now ∧ made = y.beginAttempt e x context attempt halt := by
  simp only [executionMoves, hx, htask, List.mem_append] at h
  obtain (h | h) | h := h <;> split at h
  · rename_i hdone
    exact .inl ⟨by rw [hdone, Bool.true_or], List.mem_singleton.1 h⟩
  · cases h
  · rename_i hhalted
    exact .inl ⟨by rw [hhalted, Bool.or_true], List.mem_singleton.1 h⟩
  · cases h
  · exact .inr ⟨‹_›, List.mem_singleton.1 h⟩
  · cases h

/-- In its first move a start call that is admitted renews the halt flag of its executor and begins
its first attempt. -/
theorem Admits.enters {allowed : System → Step → Bool} (hy : y.ReachableBy allowed)
    (h : y.Admits who e context policy x) (hz : y.step? (.move who.actor 0) = some z) :
    ∃ u status, y.ownMove? who (.move who.actor 0) = some (u, status) ∧ u.Resumes z ∧
      z.startCall? who = status.startCall? ⟨e, context, .entered⟩ ∧
        { y with executors := y.executors.modify e Executor.renewHalt }.beginAttempt e x.renewHalt
          context 0 x.renewHalt.currentHalt = (u, status) := by
  obtain ⟨task, htask, hmay⟩ := h.mayStart
  obtain ⟨u, status, hmade, hresumes, hstatus⟩ := hy.startCall?_of_move hz h.call
  refine ⟨u, status, by simp [ownMove?, h.call, hmade], hresumes, hstatus, ?_⟩
  have hentered : y.enter e x task context = (u, status) := by
    simpa [callMove?, executionMoves, h.executor, htask] using hmade
  have hlive : y.contexts.error? context = none := by
    rw [← Option.isNone_iff_eq_none, ← Option.not_isSome, ContextTree.isSome_error?, h.live]
    rfl
  rwa [enter, hmay, hlive] at hentered

end System

end Scheduling
