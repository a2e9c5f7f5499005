import Scheduling.Proofs.RetryLogs
import Scheduling.Proofs.TableChanges
/-!
# Retry cycles

What a start call under a retry policy does from its admission to its end: one attempt after the
other, each under a context of its own, until one succeeds, is told to be the last or is the last
that the policy allows. Where the call stands between two of its moves is a stage of the cycle, from
which each step leads to a stage again; the log of the cycle meets what the policy asks for all the
while.
-/

namespace Scheduling

namespace Cycle

/-! ## The stages of a cycle -/

/-- Where the start call stands for whom the cycle is logged, between its moves. -/
inductive Stage (c : Cycle) (who : Caller) (e : ExecutorId) (context : ContextId)
    (policy : RetryPolicy) (x : Executor) (y : System) : Prop
  | ended {result : CallEnd} (hresult : c.result = some result) (hgone : y.startCall? who = none)
      (hpanics : ∀ text, result = .panicked text →
        y.fits x.options = false ∨ y.restFits x.options = false)
  | running {x' : Executor} {begun : Instant} {runContext : ContextId} (hopened : c.result = none)
      (hcurrent : c.current = some begun) (hx : y.executors[e]? = some x')
      (hcall : y.startCall? who =
        some ⟨e, context, .running c.made.length x'.currentHalt runContext⟩)
      (htold : c.told.isSome = y.isTold e context)
      (hchild : y.contexts.ChildOf runContext context)
      (hdeadline : y.contexts.deadline runContext =
        y.contexts.deadlineWithin context begun x.options.timeout)
      (hmoves : c.moves = 2 * c.made.length + 1)
  | pausing {x' : Executor} {a : Attempt} {err : Error} (hopened : c.result = none)
      (hcurrent : c.current = none) (hx : y.executors[e]? = some x')
      (hcall : y.startCall? who =
        some ⟨e, context, .pausing c.made.length x'.currentHalt (a.due policy) err⟩)
      (htold : c.told.isSome = y.isTold e context)
      (hlast : c.made.getLast? = some a) (houtcome : a.outcome = .error err)
      (hstops : a.stops = false) (hcount : c.made.length < max policy.attempts 1)
      (hmoves : c.moves = 2 * c.made.length) (hnow : ∀ t, c.told = some t → t = y.now)
      (htime : y.clock.millis ≤ (a.due policy).ceilMillis)

/-- The log of a cycle that the executor began as `x` agrees with the system. -/
structure Tracks (c : Cycle) (who : Caller) (e : ExecutorId) (context : ContextId)
    (policy : RetryPolicy) (x : Executor) (y : System) : Prop where
  names : y.Names who
  task : ∃ task, y.tasks[x.task]? = some task
  counts : ∃ x', y.executors[e]? = some x' ∧ c.Counts x x'
  obeys : c.Obeys policy
  past : ∀ t ∈ c.begins, t ≤ y.now
  stage : c.Stage who e context policy x y

end Cycle

namespace System

theorem clock_of_step {y z : System} {a : Step} (hz : y.step? a = some z) :
    z.clock = y.clockAfter a := (tableChange_of_step hz 0).2

theorem now_le_of_step {y z : System} {a : Step} (hz : y.step? a = some z) : y.now ≤ z.now := by
  cases a with
  | pass millis =>
      obtain ⟨hlt, rfl⟩ := step_pass_iff.1 hz
      exact Nat.mul_le_mul_left _ (Nat.le_max_left _ _)
  | _ => exact Nat.le_of_eq (congrArg Clock.now (clock_of_step hz)).symm

end System

namespace Cycle

variable {c : Cycle} {y z u : System} {a : Step} {who : Caller} {e : ExecutorId}
  {context : ContextId} {policy : RetryPolicy} {x x' x'' : Executor} {task : Task}
  {point : CallPoint} {status : System.CallStatus}

/-! ## Steps of others -/

theorem isTold_mono (hgrows : y.contexts.Grows z.contexts) (hx : y.executors[e]? = some x')
    (hx' : z.executors[e]? = some x'') (hhalted : x'.Halted → x''.Halted)
    (h : y.isTold e context = true) : z.isTold e context = true := by
  unfold System.isTold at h ⊢
  rw [hx, Option.any_some, Bool.or_eq_true] at h
  rw [hx', Option.any_some, Bool.or_eq_true]
  exact h.imp hgrows.isDone hhalted

theorem waits_pausing {attempt halt : Nat} {wake : Instant} {last : Error}
    (hx : y.executors[e]? = some x') (htask : y.tasks[x'.task]? = some task)
    (hnil : y.executionMoves e context (.pausing attempt halt wake last) = []) :
    y.contexts.isDone context = false ∧ x'.isHalted halt = false ∧ y.now < wake := by
  simp only [System.executionMoves, hx, htask, List.append_eq_nil_iff, ite_eq_right_iff] at hnil
  obtain ⟨⟨hdone, hhalted⟩, hwake⟩ := hnil
  refine ⟨?_, ?_, ?_⟩
  · simpa using hdone
  · simpa using hhalted
  · simpa using hwake

/-- The call is not told to stop when time passes in a pause. -/
theorem isTold_of_nil {attempt : Nat} {wake : Instant} {last : Error}
    (hx : y.executors[e]? = some x') (htask : y.tasks[x'.task]? = some task)
    (hnil : y.executionMoves e context (.pausing attempt x'.currentHalt wake last) = []) :
    y.isTold e context = false := by
  obtain ⟨hdone, hhalted, -⟩ := waits_pausing hx htask hnil
  rw [System.isTold, hdone, hx, Option.any_some, hhalted]
  rfl

theorem currentHalt_of_follows (h : x'.Follows False x'') : x''.currentHalt = x'.currentHalt := by
  rw [Executor.currentHalt, h.kept not_false, Executor.currentHalt]

theorem task_of_step {t : TaskId} (hz : y.step? a = some z)
    (htask : ∃ task, y.tasks[t]? = some task) : ∃ task, z.tasks[t]? = some task := by
  obtain ⟨task, htask⟩ := htask
  obtain ⟨task', htask', -⟩ := (System.proceeds_of_step hz).tasks _ task htask
  exact ⟨task', htask'⟩

/-- Between the moves of the call its cycle only waits. -/
theorem Stage.others (h : c.Stage who e context policy x y) (hcounts : c.Counts x x')
    (hx : y.executors[e]? = some x') (htask : ∃ task, y.tasks[x.task]? = some task)
    (hz : y.step? a = some z) (hx' : z.executors[e]? = some x'') (hfollows : x'.Follows False x'')
    (ha : y.onTime who a = true) (hown : y.ownMove? who a = none)
    (hsame : z.startCall? who = y.startCall? who) :
    (c.next who y a z).Stage who e context policy x z := by
  have hgrows := (System.proceeds_of_step hz).contexts
  have hmono {context : ContextId} (h : y.isTold e context = true) : z.isTold e context = true :=
    isTold_mono hgrows hx hx' (hfollows.halted not_false) h
  cases h with
  | ended hresult hgone hpanics =>
      rw [next_of_gone hgone]
      exact .ended hresult (hsame.trans hgone) fun text htext =>
        (hpanics text htext).imp (Instant.beyond_of_le (System.now_le_of_step hz))
          (Instant.beyond_of_le (System.now_le_of_step hz))
  | @running x₀ begun runContext hopened hcurrent hx₀ hcall htold hchild hdeadline hmoves =>
      obtain rfl := Option.some.inj (hx.symm.trans hx₀)
      rw [next_of_other hcall hown]
      refine hear_cases (P := fun c => c.Stage who e context policy x z) hopened
        (fun hsome => hmono (htold.symm.trans hsome)) fun told htold' _ => ?_
      refine .running hopened hcurrent hx' ?_ htold' (hchild.grows hgrows) ?_ hmoves
      · rw [hsame, hcall, currentHalt_of_follows hfollows]
      · rw [hgrows.deadline_eq hchild.made, hdeadline,
          ContextTree.deadlineWithin_congr (hgrows.deadline_eq hchild.parent)]
  | @pausing x₀ at₀ err hopened hcurrent hx₀ hcall htold hlast houtcome hstops hcount hmoves hnow
      htime =>
      obtain rfl := Option.some.inj (hx.symm.trans hx₀)
      obtain ⟨task, htask⟩ := htask
      -- Time passes only while the call is not told to stop.
      have hpass (millis : Nat) (hp : a = .pass millis) :
          c.told = none ∧ millis ≤ (at₀.due policy).ceilMillis := by
        subst hp
        simp only [System.onTime, hcall, Option.all_some, Bool.and_eq_true, List.isEmpty_iff,
          CallPoint.wake?, decide_eq_true_eq] at ha
        refine ⟨?_, ha.2⟩
        rw [isTold_of_nil hx (hcounts.task ▸ htask) ha.1] at htold
        simpa using htold
      rw [next_of_other hcall hown]
      refine hear_cases (P := fun c => c.Stage who e context policy x z) hopened
        (fun hsome => hmono (htold.symm.trans hsome)) fun told htold' hwhen => ?_
      refine .pausing hopened hcurrent hx' ?_ htold' hlast houtcome hstops hcount hmoves
        (fun t ht => ?_) ?_
      · rw [hsame, hcall, currentHalt_of_follows hfollows]
      · obtain hold | hnew := hwhen t ht
        · have hclock : z.clock = y.clock := by
            rw [System.clock_of_step hz]
            cases a with
            | pass millis =>
                rw [(hpass millis rfl).1] at hold
                cases hold
            | _ => rfl
          exact (hnow t hold).trans (congrArg Clock.now hclock).symm
        · exact hnew
      · rw [System.clock_of_step hz]
        cases a with
        | pass millis => exact (hpass millis rfl).2
        | _ => exact htime

theorem Tracks.others (h : c.Tracks who e context policy x y) (hz : y.step? a = some z)
    (ha : y.leavesTo who e a = true) (hown : y.ownMove? who a = none)
    (hsame : z.startCall? who = y.startCall? who)
    (hidle : a.isMoveOf who = true → y.working a = none) :
    (c.next who y a z).Tracks who e context policy x z := by
  obtain ⟨x', hx, hcounts⟩ := h.counts
  obtain ⟨x'', hx', hfollows⟩ := System.follows_of_leavesTo hz ha hidle hx
  have hnow := System.now_le_of_step hz
  have hpast (t : Instant) (ht : t ∈ c.begins) : t ≤ z.now := Nat.le_trans (h.past t ht) hnow
  have hstage := h.stage.others hcounts hx h.task hz hx' hfollows (Bool.and_eq_true_iff.1 ha).1 hown
    hsame
  cases hcall : y.startCall? who with
  | none =>
      rw [next_of_gone hcall] at hstage ⊢
      exact ⟨h.names.step hz, task_of_step hz h.task, ⟨x'', hx', hcounts.follows hfollows⟩, h.obeys,
        hpast, hstage⟩
  | some call =>
      rw [next_of_other hcall hown] at hstage ⊢
      exact ⟨h.names.step hz, task_of_step hz h.task, ⟨x'', hx', (hcounts.follows hfollows).hear⟩,
        h.obeys.hear hpast, fun t ht => hpast t (begins_hear c z call ▸ ht), hstage⟩

/-! ## Moves of the call -/

/-- What the log says of the executor and of the attempts is right after a move, wherever it has led
the call. -/
structure Agrees (c : Cycle) (who : Caller) (e : ExecutorId) (policy : RetryPolicy)
    (x x' : Executor) (z : System) : Prop where
  names : z.Names who
  task : ∃ task, z.tasks[x.task]? = some task
  executor : z.executors[e]? = some x'
  counts : c.Counts x x'
  past : ∀ t ∈ c.begins, t ≤ z.now
  obeys : c.Obeys policy

namespace Agrees

variable {m : Nat}

/-- The call panics. -/
theorem panics {text : String} (h : c.Agrees who e policy x x' z)
    (hm : m ≤ 2 * max policy.attempts 1) (hgone : z.startCall? who = none)
    (hbeyond : z.fits x.options = false ∨ z.restFits x.options = false) :
    { c with
      result := some (.panicked text)
      moves := m }.Tracks who e context policy x z :=
  ⟨h.names, h.task, ⟨x', h.executor, h.counts.of_made rfl⟩,
    h.obeys.goOn (fun _ hreturned => by cases hreturned) hm, h.past,
    .ended rfl hgone fun _ _ => hbeyond⟩

/-- The call returns the outcome of its last attempt. -/
theorem returns {a : Attempt} (h : c.Agrees who e policy x x' z) (hcurrent : c.current = none)
    (hlast : c.made.getLast? = some a)
    (hwhy : a.outcome = .ok () ∨ a.stops = true ∨ c.made.length = max policy.attempts 1 ∨
      ∃ t, c.told = some t ∧ t.ceilMillis ≤ (a.due policy).ceilMillis)
    (hm : m ≤ 2 * max policy.attempts 1) (hgone : z.startCall? who = none) :
    { c with
      result := some (.returned a.outcome)
      moves := m }.Tracks who e context policy x z := by
  refine ⟨h.names, h.task, ⟨x', h.executor, h.counts.of_made rfl⟩,
    ⟨h.obeys.count, h.obeys.goesOn, fun outcome hreturned => ?_, hm⟩, h.past,
    .ended rfl hgone fun _ hpanicked => by cases hpanicked⟩
  cases hreturned
  exact ⟨hcurrent, a, hlast, rfl, hwhy⟩

/-- The call lasts, and it is put on record whether it is told to stop. -/
theorem lasts (h : c.Agrees who e policy x x' z) (hm : m ≤ 2 * max policy.attempts 1)
    (htold : c.told.isSome = true → z.isTold e context = true)
    (hstage : ∀ told : Option Instant, told.isSome = z.isTold e context →
      (∀ t, told = some t → c.told = some t ∨ t = z.now) →
        { c with
          told := told
          result := none
          moves := m }.Stage who e context policy x z) :
    ({ c with
        result := none
        moves := m }.hear z ⟨e, context, point⟩).Tracks who e context policy x z := by
  refine hear_cases (P := fun c => c.Tracks who e context policy x z) rfl htold
    fun told htold' hwhen => ?_
  have hobeys : { c with
      result := none
      moves := m }.Obeys policy := h.obeys.goOn (fun _ hreturned => by cases hreturned) hm
  exact ⟨h.names, h.task, ⟨x', h.executor, h.counts.of_made rfl⟩,
    hobeys.tell rfl h.past hwhen, h.past, hstage told htold' hwhen⟩

end Agrees

/-- The attempt under way is over, and the call ends or pauses. -/
theorem tracks_of_endsAttempt {m : Nat} {begun : Instant} {outcome : Outcome} {stops : Bool}
    (hobeys : c.Obeys policy) (hcurrent : c.current = some begun) (hopened : c.result = none)
    (hpast : ∀ t ∈ c.begins, t ≤ y.now) (hcounts : c.Counts x x')
    (hquiet : stops = false → c.told = none)
    (hends : y.EndsAttempt u e x' policy c.made.length x'.currentHalt outcome stops status)
    (hstops : stops = y.stopsAfter e context outcome) (hle : m ≤ 2 * (c.made.length + 1))
    (hm : stops = false → m = 2 * (c.made.length + 1)) (hresumes : u.Resumes z)
    (hcall : z.startCall? who = status.startCall? ⟨e, context, point⟩) (hnames : z.Names who)
    (htask : ∃ task, z.tasks[x.task]? = some task) :
    ({ c.conclude y ⟨e, context, point⟩ begun outcome with
        result := status.end?
        moves := m }.hear z ⟨e, context, point⟩).Tracks who e context policy x z := by
  have hclock : z.clock = y.clock := hresumes.clock.trans hends.clock
  have hnow : z.now = y.now := congrArg Clock.now hclock
  have hcount : c.made.length + 1 ≤ max policy.attempts 1 := length_begins hcurrent ▸ hobeys.count
  have hmoves : m ≤ 2 * max policy.attempts 1 := Nat.le_trans hle (Nat.mul_le_mul_left 2 hcount)
  have hmade : (c.conclude y ⟨e, context, point⟩ begun outcome).made.length = c.made.length + 1 :=
    List.length_append ..
  have hlatest : (c.conclude y ⟨e, context, point⟩ begun outcome).made.getLast? =
      some ⟨begun, y.now, outcome, stops⟩ := by
    rw [hstops]
    exact List.getLast?_concat
  obtain ⟨x'', hx'', hrecords⟩ := hends.executor
  have hagrees : (c.conclude y ⟨e, context, point⟩ begun outcome).Agrees who e policy x x'' z := by
    refine ⟨hnames, htask, hresumes.executors ▸ hx'', hcounts.conclude hrecords, ?_,
      hobeys.conclude hcurrent hopened⟩
    rw [begins_conclude hcurrent, hnow]
    exact hpast
  obtain ⟨rfl, hlast⟩ | ⟨err, rfl, hgoes, hlt, rfl⟩ := hends.status
  · rw [hear_of_result rfl]
    refine hagrees.returns rfl hlatest (hlast.imp_right (Or.imp_right fun hmax => .inl ?_)) hmoves
      hcall
    exact hmade.trans (Nat.le_antisymm hcount hmax)
  · -- The call pauses; it was not told to stop before.
    replace hquiet : c.told = none := hquiet hgoes
    have hhalt : x''.currentHalt = x'.currentHalt := by
      rw [Executor.currentHalt, hrecords.halts, Executor.currentHalt]
    have hnever {p : Prop} {t : Instant} (ht : c.told = some t) : p := by
      rw [hquiet] at ht
      cases ht
    refine hagrees.lasts hmoves (fun hsome => ?_) fun told htold hwhen =>
      .pausing rfl rfl hagrees.executor ?_ htold hlatest rfl hgoes ?_ ?_ (fun t ht => ?_) ?_
    · obtain ⟨t, ht⟩ := Option.isSome_iff_exists.1 hsome
      exact hnever ht
    · rw [hcall, hhalt]
      exact congrArg _ (congrArg _ (congrArg (CallPoint.pausing · _ _ _) hmade.symm))
    · exact Nat.lt_of_le_of_lt (Nat.le_of_eq hmade) hlt
    · exact (hm hgoes).trans (congrArg (2 * ·) hmade.symm)
    · obtain hold | hnew := hwhen t ht
      · exact hnever hold
      · exact hnew
    · rw [hclock]
      exact Clock.millis_le_ceilMillis (Instant.le_wake y.now policy.delay)

/-- The call begins an attempt, where its executor has a new halt flag if it is the first one. -/
theorem tracks_of_begin (xs : Array Executor) (hready : c.Ready policy y)
    (hretry : x.options.effectiveRetry = some policy) (hx : xs[e]? = some x')
    (hcounts : c.Counts x x') (htask : y.tasks[x.task]? = some task) (htaskOf : y.taskOf e = task)
    (hcontext : y.hasContext context = true)
    (htold : c.told.isSome = true → { y with executors := xs }.isTold e context = true)
    (hmade : { y with executors := xs }.beginAttempt e x' context c.made.length x'.currentHalt =
      (u, status))
    (hresumes : u.Resumes z)
    (hcall : z.startCall? who = status.startCall? ⟨e, context, point⟩) (hnames : z.Names who)
    (htask' : ∃ task, z.tasks[x.task]? = some task) (hnow : y.now ≤ z.now) :
    ((c.move y ⟨e, context, point⟩ u status).hear z ⟨e, context, point⟩).Tracks who e context policy
      x z := by
  have hretry' : x'.options.effectiveRetry = some policy := by rw [hcounts.options, hretry]
  have hpast (t : Instant) (ht : t ∈ { c with current := some y.now }.begins) : t ≤ y.now := by
    obtain hold | hnew := List.mem_append.1 ht
    · exact hready.past t (begins_of_idle hready.idle ▸ hold)
    · obtain rfl : t = y.now := by simpa using hnew
      exact Nat.le_refl _
  have hbegin := hready.begin
  obtain ⟨hfits, hpanic⟩ | ⟨v, c', status', hrefused, hopens, hends⟩ | ⟨v, c', hlaunched, hopens,
      hclock, hexecutors, hnext⟩ :=
    System.beginAttempt_outcome (y := { y with executors := xs }) (e := e) c.made.length
      x'.currentHalt hretry' hx (hcounts.task ▸ htask) hcontext
  · -- The clock cannot count to the end of the timeout.
    cases hpanic.symm.trans hmade
    have hagrees : c.Agrees who e policy x x' z :=
      ⟨hnames, htask', hresumes.executors ▸ hx, hcounts,
        fun t ht => Nat.le_trans (hready.past t ht) hnow, hready.obeys⟩
    rw [hcounts.options] at hfits
    rw [move_of_panics rfl, hear_of_result rfl]
    exact hagrees.panics hready.moves_lt hcall (.inl (Instant.beyond_of_le hnow hfits))
  · -- The task has a run in progress.
    cases hrefused.symm.trans hmade
    have hlast : y.stopsAfter e context (.error (.alreadyRunning task.id)) = true := Bool.or_true _
    have hends' : y.EndsAttempt u e x' policy c.made.length x'.currentHalt
        (.error (.alreadyRunning task.id)) true status :=
      ⟨hends.clock, hends.tasks, hends.runs, hends.nextRun, hends.executor, hends.status⟩
    have hmoves : c.moves + 1 ≤ 2 * (c.made.length + 1) := by
      rw [hready.moves]
      exact Nat.le_succ _
    have hnever {p : Prop} (h : true = false) : p := by cases h
    rw [move_of_refusal hends'.silent hready.idle hends'.nextRun hopens.new, htaskOf]
    exact tracks_of_endsAttempt (c := { c with current := some y.now }) hbegin rfl hready.opened
      hpast (hcounts.of_made rfl) hnever hends' hlast.symm hmoves hnever hresumes hcall hnames
      htask'
  · cases hlaunched.symm.trans hmade
    have hrun : y.nextRun < u.nextRun := Nat.lt_of_lt_of_eq (Nat.lt_succ_self _) hnext.symm
    rw [move_of_launch rfl hready.idle hrun]
    have hnow' : z.now = y.now := congrArg Clock.now (hresumes.clock.trans hclock)
    have hagrees : { c with current := some y.now }.Agrees who e policy x x' z := by
      refine ⟨hnames, htask', ?_, hcounts.of_made rfl, hnow' ▸ hpast, hbegin⟩
      rw [hresumes.executors, hexecutors]
      exact hx
    have hopens' := hopens.grows hresumes.contexts
    have hmoves : c.moves + 1 = 2 * c.made.length + 1 := congrArg (· + 1) hready.moves
    refine hagrees.lasts hready.moves_lt
      (fun hsome => isTold_mono hopens'.contexts hx hagrees.executor id (htold hsome))
      fun told htold' _ => .running rfl rfl hagrees.executor hcall htold' hopens'.child ?_ hmoves
    rw [hopens'.deadline, hcounts.options]
    rfl

/-- What holds around a move of the call while its cycle lasts. -/
structure Moved (c : Cycle) (who : Caller) (policy : RetryPolicy) (x x' : Executor) (task : Task)
    (y u z : System) (call : StartCall) (status : System.CallStatus) : Prop where
  obeys : c.Obeys policy
  past : ∀ t ∈ c.begins, t ≤ y.now
  counts : c.Counts x x'
  retry : x.options.effectiveRetry = some policy
  executor : y.executors[call.executor]? = some x'
  task : y.tasks[x.task]? = some task
  context : y.hasContext call.context = true
  resumes : u.Resumes z
  status : z.startCall? who = status.startCall? call
  names : z.Names who
  lasts : ∃ task, z.tasks[x.task]? = some task
  now : y.now ≤ z.now

theorem Moved.agrees {call : StartCall} (h : c.Moved who policy x x' task y u z call status)
    (hsame : u.executors = y.executors) : c.Agrees who call.executor policy x x' z where
  names := h.names
  task := h.lasts
  executor := by rw [h.resumes.executors, hsame, h.executor]
  counts := h.counts
  past t ht := Nat.le_trans (h.past t ht) h.now
  obeys := h.obeys

theorem Moved.look {call : StartCall} (h : c.Moved who policy x x' task y u z call status) :
    y.tasks[x'.task]? = some task := h.counts.task ▸ h.task

/-- The call sees the end of a run. -/
theorem Moved.ends {begun : Instant} {runContext : ContextId}
    (h : c.Moved who policy x x' task y u z ⟨e, context, point⟩ status)
    (hapart : runContext ∉ y.contexts.lineage context) (hopened : c.result = none)
    (hcurrent : c.current = some begun) (htold : c.told.isSome = y.isTold e context)
    (hmoves : c.moves = 2 * c.made.length + 1)
    (hmade : (u, status) =
      y.endAttempt e x' task context c.made.length x'.currentHalt runContext) :
    ((c.move y ⟨e, context, point⟩ u status).hear z ⟨e, context, point⟩).Tracks who e context policy
      x z := by
  have hretry : x'.options.effectiveRetry = some policy := by rw [h.counts.options, h.retry]
  have hlen : c.begins.length = c.made.length + 1 := length_begins hcurrent
  have hmoves' : c.moves + 1 = 2 * (c.made.length + 1) := by
    rw [hmoves]
    rfl
  obtain ⟨hrest, hpanic⟩ | hends :=
    System.endAttempt_cases task hretry h.executor hapart
  · -- The clock cannot count to the end of the rest.
    cases hmade.trans hpanic
    rw [h.counts.options] at hrest
    rw [move_of_panics rfl, hear_of_result rfl]
    refine (h.agrees rfl).panics ?_ h.status (.inr (Instant.beyond_of_le h.now hrest))
    exact Nat.le_trans (Nat.le_of_eq hmoves') (Nat.mul_le_mul_left 2 (hlen ▸ h.obeys.count))
  · rw [← hmade] at hends
    have hsilent : status.panics = false := hends.silent
    have hquiet (hgoes : y.stopsAfter e context task.outcome = false) : c.told = none := by
      simp only [System.stopsAfter, Bool.or_assoc] at hgoes
      have hnot : y.isTold e context = false := (Bool.or_eq_false_iff.1 hgoes).1
      rw [← htold] at hnot
      simpa using hnot
    rw [move_of_current hsilent hcurrent, System.taskOf_eq h.executor h.look]
    exact tracks_of_endsAttempt h.obeys hcurrent hopened h.past h.counts hquiet hends rfl
      (Nat.le_of_eq hmoves') (fun _ => hmoves') h.resumes h.status h.names h.lasts

/-- In a pause the call is told to stop and returns the error from before. -/
theorem Moved.givesUp {a : Attempt} {err : Error}
    (h : c.Moved who policy x x' task y y z ⟨e, context, point⟩
      (.ended (.returned (.error err))))
    (hcurrent : c.current = none) (hlast : c.made.getLast? = some a)
    (houtcome : a.outcome = .error err) (hcount : c.made.length < max policy.attempts 1)
    (hmoves : c.moves = 2 * c.made.length) (htold : c.told = some y.now)
    (htime : y.clock.millis ≤ (a.due policy).ceilMillis) :
    ((c.move y ⟨e, context, point⟩ y (.ended (.returned (.error err)))).hear z
      ⟨e, context, point⟩).Tracks who e context policy x z := by
  have hmoves' : c.moves + 1 ≤ 2 * max policy.attempts 1 := by
    rw [hmoves]
    omega
  have hearly : y.now.ceilMillis ≤ (a.due policy).ceilMillis :=
    Nat.le_trans (Nat.le_of_eq (Clock.ceilMillis_now y.clock)) htime
  rw [move_of_pause hcurrent, hear_of_result rfl, ← houtcome]
  exact (h.agrees rfl).returns hcurrent hlast (.inr (.inr (.inr ⟨_, htold, hearly⟩))) hmoves'
    h.status

/-- The call makes a move while its cycle lasts. -/
theorem Stage.moved {call : StartCall} {choice : Nat} (h : c.Stage who e context policy x y)
    (hmoved : c.Moved who policy x x' task y u z call status) (hordered : y.contexts.Ordered)
    (hcall : y.startCall? who = some call)
    (hmade : y.callMove? call choice = some (u, status)) :
    ((c.move y call u status).hear z call).Tracks who e context policy x z := by
  have hmem := List.mem_of_getElem? hmade
  have hx := hmoved.executor
  cases h with
  | ended _ hgone _ =>
      rw [hgone] at hcall
      cases hcall
  | running hopened hcurrent hx₀ hat htold hchild hdeadline hmoves =>
      obtain rfl := Option.some.inj (hat.symm.trans hcall)
      obtain rfl := Option.some.inj (hx.symm.trans hx₀)
      obtain ⟨-, hended⟩ := System.executionMoves_running hx hmoved.look hmem
      exact hmoved.ends (hchild.notMem_lineage hordered) hopened hcurrent htold hmoves hended
  | @pausing _ a err hopened hcurrent hx₀ hat htold hlast houtcome hstops hcount hmoves hnow
      htime =>
      obtain rfl := Option.some.inj (hat.symm.trans hcall)
      obtain rfl := Option.some.inj (hx.symm.trans hx₀)
      obtain ⟨hstop, hended⟩ | ⟨hwake, hbegun⟩ :=
        System.executionMoves_pausing hx hmoved.look hmem
      · cases hended
        have htold' : y.isTold e context = true := by
          rw [System.isTold, hx]
          exact hstop
        obtain ⟨t, ht⟩ := Option.isSome_iff_exists.1 (htold.trans htold')
        exact hmoved.givesUp hcurrent hlast houtcome hcount hmoves (hnow t ht ▸ ht) htime
      · have hready : c.Ready policy y := by
          refine ⟨hmoved.obeys, hcurrent, hopened, hcount, hmoves, hmoved.past, fun a' ha' => ?_⟩
          obtain rfl := Option.some.inj (hlast.symm.trans ha')
          refine ⟨?_, hstops, hwake, fun t ht => ?_⟩
          · rw [Attempt.error?, houtcome]
            rfl
          · rw [hnow t ht]
            exact hwake
        exact tracks_of_begin y.executors hready hmoved.retry hx hmoved.counts hmoved.task
          (System.taskOf_eq hx hmoved.look) hmoved.context (fun hsome => htold ▸ hsome) hbegun.symm
          hmoved.resumes hmoved.status hmoved.names hmoved.lasts hmoved.now

/-- The only call that is made while the cycle lasts is that of the executor. -/
theorem Stage.call {call : StartCall} (h : c.Stage who e context policy x y)
    (hcall : y.startCall? who = some call) : call.executor = e ∧ call.context = context := by
  cases h with
  | ended _ hgone _ =>
      rw [hgone] at hcall
      cases hcall
  | running _ _ _ hat | pausing _ _ _ hat =>
      obtain rfl := Option.some.inj (hat.symm.trans hcall)
      exact ⟨rfl, rfl⟩

variable {allowed : System → Step → Bool}

/-- What holds around a move of the call. -/
theorem Tracks.moved {call : StartCall} (hy : y.ReachableBy allowed)
    (h : c.Tracks who e context policy x y) (hretry : x.options.effectiveRetry = some policy)
    (hz : y.step? a = some z) (hcall : y.startCall? who = some call) (hresumes : u.Resumes z)
    (hstatus : z.startCall? who = status.startCall? call) :
    ∃ x' task, c.Moved who policy x x' task y u z call status := by
  obtain ⟨x', hx, hcounts⟩ := h.counts
  obtain ⟨task, htask⟩ := h.task
  obtain ⟨hexecutor, -⟩ := h.stage.call hcall
  exact ⟨x', task, h.obeys, h.past, hcounts, hretry, hexecutor ▸ hx, htask,
    hy.hasContext_of_startCall? hcall, hresumes, hstatus, h.names.step hz, task_of_step hz h.task,
    System.now_le_of_step hz⟩

theorem Tracks.step (hy : y.ReachableBy allowed) (h : c.Tracks who e context policy x y)
    (hretry : x.options.effectiveRetry = some policy) (hz : y.step? a = some z)
    (ha : y.leavesTo who e a = true) :
    (c.next who y a z).Tracks who e context policy x z := by
  obtain ⟨hown, hsame, hidle⟩ | ⟨call, choice, u, status, hcall, hmade, hown, hresumes, hstatus⟩ :=
    hy.ownMove_cases hz h.names
  · exact h.others hz ha hown hsame hidle
  · obtain ⟨x', task, hmoved⟩ := h.moved hy hretry hz hcall hresumes hstatus
    rw [next_of_move hcall hown]
    exact h.stage.moved hmoved hy.ordered hcall hmade

theorem ready_empty (y : System) (policy : RetryPolicy) : ({} : Cycle).Ready policy y where
  obeys := ⟨Nat.zero_le _, (fun _ _ _ h => by cases h), (fun _ h => by cases h), Nat.zero_le _⟩
  idle := rfl
  opened := rfl
  count := Nat.lt_of_lt_of_le Nat.zero_lt_one (Nat.le_max_right _ _)
  moves := rfl
  past _ h := by cases h
  last _ h := by cases h

/-- The first move of a start call that is admitted begins its first attempt. -/
theorem tracks_of_admits (hy : y.ReachableBy allowed) (h : y.Admits who e context policy x)
    (hz : y.step? (.move who.actor 0) = some z) :
    (({} : Cycle).next who y (.move who.actor 0) z).Tracks who e context policy x z := by
  obtain ⟨task, htask, -⟩ := h.mayStart
  obtain ⟨u, status, hown, hresumes, hstatus, hbegun⟩ := h.enters hy hz
  have hx : (y.executors.modify e Executor.renewHalt)[e]? = some x.renewHalt :=
    System.modifyExecutor_look y h.executor
  rw [next_of_move h.call hown]
  exact tracks_of_begin _ (ready_empty y policy) h.retry hx ⟨rfl, rfl, rfl, fun i => rfl⟩ htask
    (System.taskOf_eq h.executor htask) (hy.hasContext_of_startCall? h.call) (fun h => by cases h)
    hbegun hresumes hstatus ((hy.names_of_startCall? h.call).step hz)
    (task_of_step hz ⟨task, htask⟩) (System.now_le_of_step hz)

end Cycle

namespace System

/-- The run in which a start call makes its first move and then those steps are taken that can be
taken and are allowed. -/
def startRun (y : System) (allowed : System → Step → Bool) (who : Caller) (steps : List Step) :
    System :=
  y.run allowed (.move who.actor 0 :: steps)

/-- The log of the start call in this run. -/
def startLog (y : System) (allowed : System → Step → Bool) (who : Caller) (steps : List Step) :
    Cycle :=
  y.track allowed (Cycle.next who) {} (.move who.actor 0 :: steps)

variable {y : System} {who : Caller} {e : ExecutorId} {context : ContextId} {policy : RetryPolicy}
  {x : Executor}

theorem leavesTo_move (y : System) (who : Caller) (e : ExecutorId) (choice : Nat) :
    y.leavesTo who e (.move who.actor choice) = true := by
  simp [leavesTo, onTime, Step.isMoveOf]

/-- What the first move of an admitted start call brings about, and each step keeps, holds of the
system and of the log of the call. -/
theorem startLog_induction {allowed : System → Step → Bool} {P : System → Cycle → Prop}
    (hy : y.Reachable) (h : y.Admits who e context policy x)
    (hfirst : ∀ z, y.step? (.move who.actor 0) = some z →
      allowed y (.move who.actor 0) = true ∧
        P z (({} : Cycle).next who y (.move who.actor 0) z))
    (hstep : ∀ v a w c, v.Reachable → allowed v a = true → v.step? a = some w → P v c →
      P w (c.next who v a w)) (steps : List Step) :
    (y.startRun allowed who steps).Reachable ∧
      P (y.startRun allowed who steps) (y.startLog allowed who steps) := by
  obtain ⟨task, htask, -⟩ := h.mayStart
  have hmade : y.callMove? ⟨e, context, .entered⟩ 0 = some (y.enter e x task context) := by
    simp [callMove?, executionMoves, h.executor, htask]
  obtain ⟨z, hz⟩ := exists_step_of_callMove? h.call hmade
  obtain ⟨hallowed, hbegun⟩ := hfirst z hz
  have hnext : y.next? allowed (.move who.actor 0) = some z := next?_eq_some_iff.2 ⟨hallowed, hz⟩
  rw [startLog, startRun, track, hnext, run_cons_of_some hnext]
  refine track_induction (P := fun v c => v.Reachable ∧ P v c) ?_ ⟨hy.step rfl hz, hbegun⟩ steps
  intro v a w c ha hw hv
  exact ⟨hv.1.step rfl hw, hstep v a w c hv.1 ha hw hv.2⟩

/-- The log of a start call that is admitted agrees with the system at all times. -/
theorem tracks_startLog (hy : y.Reachable) (h : y.Admits who e context policy x)
    (steps : List Step) :
    (y.startRun (leavesTo who e) who steps).Reachable ∧
      (y.startLog (leavesTo who e) who steps).Tracks who e context policy x
        (y.startRun (leavesTo who e) who steps) :=
  startLog_induction (P := fun v c => c.Tracks who e context policy x v) hy h
    (fun _ hz => ⟨leavesTo_move y who e 0, Cycle.tracks_of_admits hy h hz⟩)
    (fun _ _ _ _ hv ha hw htracks => htracks.step hv h.retry hw ha) steps

end System

end Scheduling
