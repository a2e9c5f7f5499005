import Scheduling.Proofs.ExecutorUses
import Scheduling.Proofs.Cooldown
import Scheduling.Proofs.Retries
/-!
# Starts while a task rests

While the users of an executor take turns and nobody else starts its task, the end of the rest that
the executor keeps is the end of the latest run since the last reset plus the cooldown. It is set
when the start call finds the run over, for which the clock waits. So a start of a task that is done
is refused before that instant and not from then on, or at any time if the task may run only once,
and is told how long the rest still lasts.
-/

namespace Scheduling

/-- When the rest after a run that ended at an instant is over. -/
def restEnd (o : ExecutorOptions) (ended : Option Instant) : Option Instant :=
  ended.bind fun instant => o.cooldown.map fun cooldown => instant + cooldown.nanos

/-- How long that rest still lasts. -/
def restLeft (o : ExecutorOptions) (ended : Option Instant) (now : Instant) : Duration :=
  ((restEnd o ended).map (Instant.until_ now)).getD Duration.zero

theorem restLeft_eq_zero_iff {o : ExecutorOptions} {ended : Option Instant} {now : Instant} :
    restLeft o ended now = Duration.zero ↔ ∀ till, restEnd o ended = some till → till ≤ now := by
  unfold restLeft
  cases restEnd o ended with
  | none => simp
  | some till =>
      have hzero : Instant.until_ now till = Duration.zero ↔ till - now = 0 :=
        ⟨congrArg Duration.nanos, congrArg Duration.mk⟩
      simp only [Option.map_some, Option.getD_some, hzero, Option.some.injEq, forall_eq']
      exact Nat.sub_eq_zero_iff_le

namespace Executor

variable {x : Executor} {task : Task} {now : Instant} {ended : Option Instant}

theorem mayStart_eq_ok_iff :
    x.mayStart task now = .ok () ↔
      (task.isDone = true → x.options.once = false ∧ x.cooldownRemaining now = Duration.zero) := by
  unfold mayStart
  cases task.isDone <;> cases x.options.once <;>
    by_cases hrest : x.cooldownRemaining now = Duration.zero <;> simp [hrest]

theorem cooldownRemaining_eq (h : x.cooldownUntil = restEnd x.options ended) :
    x.cooldownRemaining now = restLeft x.options ended now := by
  unfold cooldownRemaining restLeft
  rw [h]
  cases restEnd x.options ended <;> rfl

/-- The end of the rest that is set when a run has ended now. -/
theorem cooldownUntil_rest (h : x.options.cooldown = none → x.cooldownUntil = none) :
    (x.rest now).cooldownUntil = restEnd x.options (some now) := by
  unfold rest restEnd
  cases hcooldown : x.options.cooldown with
  | none => exact h hcooldown
  | some cooldown => rfl

end Executor

namespace System

variable {y z u v : System} {a : Step} {e : ExecutorId} {x x' : Executor} {task task' : Task}
  {t : TaskId} {context : ContextId} {point : CallPoint} {status : CallStatus} {choice : Nat}
  {ended : Option Instant} {o : ExecutorOptions} {pending : Bool}
  {place : Option CallPoint} {made : System × CallStatus}

/-! ## Uses of an executor that is left alone -/

/-- Whether the clock waits for the start calls of an executor: time passes only while none of them
can make a move. -/
def waitsFor (e : ExecutorId) (y : System) : Step → Bool
  | .pass _ => y.calls.all fun call =>
    match call with
    | .start e' context point => e' != e || (y.executionMoves e context point).isEmpty
    | _ => true
  | _ => true

/-- Whether a step begins no run of the task of an executor, unless the executor does so. -/
def keepsTask (e : ExecutorId) (y : System) (a : Step) : Bool :=
  y.working a == some e || (y.step? a).all fun z =>
    y.executors[e]?.all fun x => (y.state x.task).isPending || !(z.state x.task).isPending

/-- Whether a step leaves an executor and its task to one start call at a time, for which the clock
waits. -/
def usesAlone (e : ExecutorId) (y : System) (a : Step) : Bool :=
  y.takesTurns e a && y.waitsFor e a && y.keepsTask e a

/-- Whether a step is a reset of an executor. -/
def isReset (e : ExecutorId) : Step → Bool
  | .request (.resetExecutor e') => e' == e
  | _ => false

/-- When the latest run of the task of an executor has ended since the executor was reset last. -/
def lastEnd (e : ExecutorId) (y : System) (a : Step) (z : System) (ended : Option Instant) :
    Option Instant :=
  if isReset e a then none
  else if y.executors[e]?.any fun x =>
      (y.state x.task).isPending && !(z.state x.task).isPending then some y.now
  else ended

theorem lastEnd_eq (ha : isReset e a = false) (hx : y.executors[e]? = some x)
    (htask : y.tasks[x.task]? = some task) (htask' : z.tasks[x.task]? = some task') :
    lastEnd e y a z ended =
      if task.state.isPending && !task'.state.isPending then some y.now else ended := by
  simp [lastEnd, ha, hx, state_eq htask, state_eq htask']

theorem isReset_of_leaves (h : y.working a ≠ some e) : isReset e a = false := by
  cases a with
  | request r =>
      cases r with
      | resetExecutor e' => exact beq_eq_false_iff_ne.2 fun heq => h (congrArg some heq)
      | _ => rfl
  | _ => rfl

theorem restFits_of_clock (h : z.clock = y.clock) : z.restFits o = y.restFits o := by
  rw [restFits, restFits, now, h, now]

/-- A rest that fits the clock has done so before. -/
theorem restFits_of_step (hz : y.step? a = some z) (h : z.restFits o = true) :
    y.restFits o = true := by
  by_contra hnot
  rw [Bool.not_eq_true] at hnot
  have hbeyond : z.restFits o = false := Instant.beyond_of_le (now_le_of_step hz) hnot
  rw [h] at hbeyond
  cases hbeyond

/-! ## The end of the rest -/

/-- What an executor knows of the latest end of a run, where the only start call of it stands at a
point, if there is one: the end of the rest, unless the call has not yet found its run over, which
was so just now. -/
structure Minds (y : System) (x : Executor) (pending : Bool) (place : Option CallPoint)
    (ended : Option Instant) : Prop where
  running : pending = true → place.any CallPoint.isRunning = true
  settled : pending = false → place.any CallPoint.isRunning = true → ended = some y.now
  restless : x.options.cooldown = none → x.cooldownUntil = none
  rest : y.restFits x.options = true → (place.any CallPoint.isRunning = true → pending = true) →
    x.cooldownUntil = restEnd x.options ended

theorem minds_of_idle (hat : place.any CallPoint.isRunning = false)
    (hrestless : x.options.cooldown = none → x.cooldownUntil = none)
    (hrest : y.restFits x.options = true → x.cooldownUntil = restEnd x.options ended) :
    y.Minds x false place ended where
  running hpending := by cases hpending
  settled _ hrunning := by
    rw [hat] at hrunning
    cases hrunning
  restless := hrestless
  rest hfits _ := hrest hfits

/-- No run is in progress while the start call waits for none. -/
theorem Minds.idle (h : y.Minds x pending place ended)
    (hat : place.any CallPoint.isRunning = false) : pending = false := by
  cases pending with
  | true =>
      rw [h.running rfl] at hat
      cases hat
  | false => rfl

theorem Minds.congr (h : y.Minds x pending place ended) (hclock : z.clock = y.clock)
    (hoptions : x'.options = x.options) (hrest : x'.cooldownUntil = x.cooldownUntil) :
    z.Minds x' pending place ended where
  running := h.running
  settled := by
    rw [now, hclock]
    exact h.settled
  restless := by
    rw [hoptions, hrest]
    exact h.restless
  rest := by
    rw [hoptions, hrest, restFits_of_clock hclock]
    exact h.rest

/-- A start call that finds its run over sets the end of the rest. -/
theorem Minds.settle {attempt : Nat} {outcome : Outcome} (h : y.Minds x false (some point) ended)
    (hpoint : point.isRunning = true) (hplace : place.any CallPoint.isRunning = false) :
    u.Minds ((x.rest y.now).settle attempt outcome) false place ended := by
  have hoptions := x.options_settle_rest attempt outcome y.now
  have htill : ((x.rest y.now).settle attempt outcome).cooldownUntil =
      restEnd x.options ended := by
    rw [Executor.cooldownUntil_settle, x.cooldownUntil_rest h.restless, h.settled rfl hpoint]
  refine minds_of_idle hplace (fun hnone => ?_) fun _ => hoptions ▸ htill
  rw [htill, restEnd, ← hoptions, hnone]
  cases ended <;> rfl

/-- In a move of its start call an executor is given the end of the rest, if a run has ended. -/
theorem Course.minds (h : y.Course e x task context point (u, status))
    (hx : y.executors[e]? = some x) (htask : y.tasks[x.task]? = some task)
    (hcoherent : task.pending = task.state.isPending)
    (hminds : y.Minds x task.state.isPending (some point) ended) :
    ∃ x' task', u.executors[e]? = some x' ∧ u.clock = y.clock ∧ x'.task = x.task ∧
      x'.options = x.options ∧ u.tasks[x.task]? = some task' ∧
      (task.state.isPending = true → task'.state.isPending = true) ∧
      u.Minds x' task'.state.isPending status.point? ended := by
  -- A move that sets no end of the rest, and after which no run is waited for.
  have hidle {x' : Executor} (hclock : u.clock = y.clock) (hpoint : point.isRunning = false)
      (hoptions : x'.options = x.options) (hrest : x'.cooldownUntil = x.cooldownUntil) :
      u.Minds x' task.state.isPending none ended := by
    have hkept := hminds.congr hclock hoptions hrest
    have hrunning : (some point).any CallPoint.isRunning = false := hpoint
    have hpending := hkept.idle hrunning
    rw [hpending]
    exact minds_of_idle rfl hkept.restless fun hfits => hkept.rest hfits fun hpoint' => by
      rw [hrunning] at hpoint'
      cases hpoint'
  have hended (hdone : task.pending = false) : task.state.isPending = false :=
    hcoherent ▸ hdone
  cases h with
  | bars =>
      exact ⟨x, task, hx, rfl, rfl, rfl, htask, id, hidle rfl rfl rfl rfl⟩
  | givesUp =>
      exact ⟨x, task, hx, rfl, rfl, rfl, htask, id, hidle rfl rfl rfl rfl⟩
  | overruns hdue _ hsets hkeeps =>
      exact ⟨_, task, hsets.own, hsets.clock, hdue.task_eq, hdue.options_eq,
        hkeeps.tasks ▸ htask, id,
        hidle hsets.clock hdue.isRunning_eq_false hdue.options_eq hdue.cooldownUntil_eq⟩
  | conflicts hdue _ hpending =>
      rw [hminds.idle hdue.isRunning_eq_false] at hpending
      cases hpending
  | launches hdue _ hpending hsets hlaunches =>
      obtain ⟨c, htasks, -⟩ := hlaunches.effects
      obtain ⟨-, hbegun⟩ | ⟨hne, -⟩ := some_of_modify htasks htask
      · refine ⟨_, _, hsets.own, hsets.clock, hdue.task_eq, hdue.options_eq, hbegun,
          fun _ => rfl, ?_⟩
        have hkept := hminds.congr hsets.clock hdue.options_eq hdue.cooldownUntil_eq
        refine ⟨fun _ => rfl, fun hidle => (by cases hidle), hkept.restless, fun hfits _ => ?_⟩
        refine hkept.rest hfits fun hpoint => ?_
        have hpoint' : (some point).any CallPoint.isRunning = false := hdue.isRunning_eq_false
        rw [hpoint'] at hpoint
        cases hpoint
      · exact absurd rfl hne
  | overrests hdone hfits hsets hkeeps =>
      refine ⟨x, task, hsets.own, hsets.clock, rfl, rfl, hkeeps.tasks ▸ htask, id, ?_⟩
      rw [hended hdone]
      refine minds_of_idle rfl hminds.restless fun hfits' => ?_
      rw [restFits_of_clock hsets.clock, hfits] at hfits'
      cases hfits'
  | returns hdone _ hsets hkeeps =>
      rw [hended hdone] at hminds
      refine ⟨_, task, hsets.own, hsets.clock, x.task_settle_rest _ _ _,
        x.options_settle_rest _ _ _, hkeeps.tasks ▸ htask, id, ?_⟩
      rw [hended hdone]
      exact hminds.settle rfl rfl
  | pauses hdone _ hsets hkeeps =>
      rw [hended hdone] at hminds
      refine ⟨_, task, hsets.own, hsets.clock, x.task_settle_rest _ _ _,
        x.options_settle_rest _ _ _, hkeeps.tasks ▸ htask, id, ?_⟩
      rw [hended hdone]
      exact hminds.settle rfl rfl

/-- While others move, a run can end, of which the executor learns when its start call moves. -/
theorem Minds.others {pending' : Bool} (h : y.Minds x pending place ended)
    (hz : y.step? a = some z) (hstarts : pending = false → pending' = false)
    (hends : pending ≠ pending' → z.clock = y.clock)
    (hwaits : pending = false → place.any CallPoint.isRunning = true → z.clock = y.clock)
    (hoptions : x'.options = x.options) (hrest : x'.cooldownUntil = x.cooldownUntil) :
    z.Minds x' pending' place (if pending && !pending' then some y.now else ended) := by
  have hrestless : x'.options.cooldown = none → x'.cooldownUntil = none := by
    rw [hoptions, hrest]
    exact h.restless
  have hkept (hfits : z.restFits x'.options = true) : y.restFits x.options = true :=
    restFits_of_step hz (hoptions ▸ hfits)
  cases pending with
  | false =>
      rw [hstarts rfl]
      refine ⟨fun hpending => (by cases hpending), fun _ hrunning => ?_, hrestless,
        fun hfits hpoint => ?_⟩
      · have hnow : z.now = y.now := congrArg Clock.now (hwaits rfl hrunning)
        rw [hnow]
        exact h.settled rfl hrunning
      · rw [hrest, hoptions]
        exact h.rest (hkept hfits) hpoint
  | true =>
      cases pending' with
      | true =>
          refine ⟨h.running, fun hidle => (by cases hidle), hrestless, fun hfits hpoint => ?_⟩
          rw [hrest, hoptions]
          exact h.rest (hkept hfits) hpoint
      | false =>
          refine ⟨fun hpending => (by cases hpending), fun _ _ => ?_, hrestless,
            fun _ hpoint => ?_⟩
          · have hnow : z.now = y.now := congrArg Clock.now (hends Bool.noConfusion)
            rw [hnow]
            rfl
          · cases hpoint (h.running rfl)

/-- An executor has a task and options and minds the runs of the task. -/
def Tends (y : System) (e : ExecutorId) (t : TaskId) (o : ExecutorOptions)
    (place : Option CallPoint) (ended : Option Instant) : Prop :=
  ∃ (x : Executor) (task : Task), y.executors[e]? = some x ∧ x.task = t ∧ x.options = o ∧
    y.tasks[t]? = some task ∧ y.Minds x task.state.isPending place ended

variable {sole : Option (CallId × ContextId × CallPoint)}

/-- Where the only start call of an executor stands. -/
def placeOf (sole : Option (CallId × ContextId × CallPoint)) : Option CallPoint :=
  sole.map (·.2.2)

/-- While a start call could find its run over, no time passes. -/
theorem clock_of_waitsFor (hsole : y.Sole e sole) (hz : y.step? a = some z)
    (ha : y.waitsFor e a = true) (hx : y.executors[e]? = some x)
    (htask : y.tasks[x.task]? = some task) (hidle : task.pending = false)
    (hrunning : (placeOf sole).any CallPoint.isRunning = true) : z.clock = y.clock := by
  rw [clock_of_step hz]
  cases a with
  | pass millis =>
      obtain ⟨⟨k, context, point⟩, rfl, hpoint⟩ := (Option.any_eq_true _ _).1
        (Option.any_map ▸ hrunning)
      have hk := (hsole.calls k context point).2 rfl
      have hnil := Array.all_eq_true'.1 ha _ (Array.mem_of_getElem? hk)
      cases point with
      | running attempt halt runContext =>
          simp [executionMoves, hx, htask, hidle] at hnil
      | _ => cases hpoint
  | _ => rfl

theorem Tends.leaves (h : y.Tends e t o (placeOf sole) ended) (hy : y.Reachable)
    (hsole : y.Sole e sole) (hz : y.step? a = some z) (hwaits : y.waitsFor e a = true)
    (hkeeps : y.keepsTask e a = true) (hother : y.working a ≠ some e) :
    z.Tends e t o (placeOf sole) (lastEnd e y a z ended) := by
  obtain ⟨x, task, hx, rfl, rfl, htask, hminds⟩ := h
  obtain ⟨x', hx', hfollows⟩ := follows_of_leaves hz hx hother
  obtain ⟨task', htask', -⟩ := (deed_of_step hz).turn htask
  have hrest : x'.cooldownUntil = x.cooldownUntil := by rw [hfollows.idle not_false]
  refine ⟨x', task', hx', hfollows.task, hfollows.options, htask', ?_⟩
  rw [lastEnd_eq (isReset_of_leaves hother) hx htask htask']
  refine hminds.others hz (fun hidle => ?_) (fun hne => ?_) (fun hidle hrunning => ?_)
    hfollows.options hrest
  · simpa [keepsTask, hother, hz, hx, state_eq htask, state_eq htask', hidle] using hkeeps
  · rw [clock_of_step hz]
    cases a with
    | pass millis =>
        obtain ⟨-, rfl⟩ := step_pass_iff.1 hz
        have hsame : task = task' := Option.some.inj (htask.symm.trans htask')
        exact absurd (congrArg (·.state.isPending) hsame) hne
    | _ => rfl
  · exact clock_of_waitsFor hsole hz hwaits hx htask
      ((hy.coherent htask).pending.trans hidle) hrunning

theorem Tends.resets (h : y.Tends e t o none ended) (ha : isReset e a = true) :
    (y.modifyExecutor e Executor.reset).Tends e t o none (lastEnd e y a z ended) := by
  obtain ⟨x, task, hx, rfl, rfl, htask, hminds⟩ := h
  have hidle : task.state.isPending = false := hminds.idle rfl
  have hnone : lastEnd e y a z ended = none := if_pos ha
  refine ⟨x.reset, task, modifyExecutor_look y hx, rfl, rfl, htask, ?_⟩
  rw [hidle, hnone]
  exact minds_of_idle rfl (fun _ => rfl) fun _ => rfl

/-- A start call that has just been made waits for no run. -/
theorem Tends.calls (h : y.Tends e t o none ended) (hz : y.step? a = some z)
    (ha : isReset e a = false) (hexecutors : z.executors = y.executors)
    (htasks : z.tasks = y.tasks) :
    z.Tends e t o (some .entered) (lastEnd e y a z ended) := by
  obtain ⟨x, task, hx, rfl, rfl, htask, hminds⟩ := h
  have hidle : task.state.isPending = false := hminds.idle rfl
  have htask' : z.tasks[x.task]? = some task := htasks ▸ htask
  refine ⟨x, task, hexecutors ▸ hx, rfl, rfl, htask', ?_⟩
  rw [lastEnd_eq ha hx htask htask', hidle]
  rw [hidle] at hminds
  exact minds_of_idle rfl hminds.restless fun hfits =>
    hminds.rest (restFits_of_step hz hfits) fun hrunning => (by cases hrunning)

theorem Tends.moves (h : y.Tends e t o (some point) ended) (hy : y.Reachable)
    (ha : isReset e a = false)
    (hmade : y.callMove? ⟨e, context, point⟩ choice = some (u, status))
    (hresumes : u.Resumes z) : z.Tends e t o status.point? (lastEnd e y a z ended) := by
  obtain ⟨x, task, hx, rfl, rfl, htask, hminds⟩ := h
  obtain ⟨x₀, task₀, hx₀, htask₀, hcourse⟩ := course_of_mem (List.mem_of_getElem? hmade)
  obtain rfl := Option.some.inj (hx.symm.trans hx₀)
  obtain rfl := Option.some.inj (htask.symm.trans htask₀)
  obtain ⟨x', task', hx', hclock, htask_eq, hoptions, htask', hpending, hminds'⟩ :=
    hcourse.minds hx htask (hy.coherent htask).pending hminds
  have hz' : z.tasks[x.task]? = some task' := hresumes.tasks ▸ htask'
  -- No run ends in a move of a start call.
  have hnone : (task.state.isPending && !task'.state.isPending) = false := by
    cases hp : task.state.isPending with
    | true => rw [hpending hp, Bool.not_true, Bool.and_false]
    | false => rfl
  refine ⟨x', task', hresumes.executors ▸ hx', htask_eq, hoptions, hz', ?_⟩
  rw [lastEnd_eq ha hx htask hz', hnone]
  exact hminds'.congr hresumes.clock rfl rfl

/-- The users of an executor take turns, and it minds the runs of its task. -/
structure Tended (y : System) (e : ExecutorId) (t : TaskId) (o : ExecutorOptions)
    (ended : Option Instant) : Prop where
  reachable : y.Reachable
  tends : ∃ sole, y.Sole e sole ∧ y.Tends e t o (placeOf sole) ended

/-- What one step does to the end of the rest. -/
theorem Tended.step (h : y.Tended e t o ended) (hz : y.step? a = some z)
    (ha : y.usesAlone e a = true) : z.Tended e t o (lastEnd e y a z ended) where
  reachable := h.reachable.step rfl hz
  tends := by
    obtain ⟨sole, hsole, htends⟩ := h.tends
    simp only [usesAlone, Bool.and_eq_true] at ha
    obtain ⟨⟨hturns, hwaits⟩, hkeeps⟩ := ha
    obtain ⟨sole', hsole', hvisit⟩ := hsole.step h.reachable hz hturns
    refine ⟨sole', hsole', ?_⟩
    cases hvisit with
    | leaves hother => exact htends.leaves h.reachable hsole hz hwaits hkeeps hother
    | resets ha hz' =>
        have hreset : isReset e a = true := ha ▸ beq_self_eq_true e
        have hnext := htends.resets (z := z) hreset
        rwa [← hz'] at hnext
    | calls ha hz' => exact htends.calls hz (ha ▸ rfl) (hz' ▸ rfl) (hz' ▸ rfl)
    | @moves k context point choice u status ha _ hmade hresumes =>
        have hplace : placeOf (status.point?.map fun point' => (k, context, point')) =
            status.point? := by
          rw [placeOf, Option.map_map]
          exact Option.map_id'
        rw [hplace]
        exact htends.moves h.reachable (ha ▸ rfl) hmade hresumes

/-! ## Starts -/

/-- A start is let in exactly if its task is not done, or may run again and has rested. -/
theorem mayStart_iff_of_rest (hrest : x.cooldownUntil = restEnd x.options ended) :
    x.mayStart task y.now = .ok () ↔
      ¬ (task.isDone = true ∧
        (x.options.once = true ∨ ∃ till, restEnd x.options ended = some till ∧ y.now < till)) := by
  rw [Executor.mayStart_eq_ok_iff, Executor.cooldownRemaining_eq hrest, restLeft_eq_zero_iff]
  simp only [not_and, not_or, Bool.not_eq_true, not_exists, Nat.not_lt]

/-- What a start call is told, whether it is refused or not: it is refused for a task that is done
and may run only once or has not rested, and any other one under a live context begins a run. -/
structure Answers (y : System) (x : Executor) (task : Task) (context : ContextId)
    (ended : Option Instant) (made : System × CallStatus) : Prop where
  refuses : y.Refuses made ↔ task.isDone = true ∧
    (x.options.once = true ∨ ∃ till, restEnd x.options ended = some till ∧ y.now < till)
  told : y.Refuses made → made.2 = .ended (.returned (.error
    (if x.options.once then .onlyOnce task.id
    else .coolingDown task.id (restLeft x.options ended y.now))))
  begins : ¬ y.Refuses made → y.contexts.isDone context = false → y.fits x.options = true →
    y.Begins x.task made

/-- A start call that is let in is not refused, as its first move begins a run or panics. -/
theorem answers_of_start (hrest : x.cooldownUntil = restEnd x.options ended)
    (hstart : x.mayStart task y.now = .ok ()) (hnot : ¬ y.Refuses made)
    (hbegins : y.contexts.isDone context = false → y.fits x.options = true →
      y.Begins x.task made) : y.Answers x task context ended made where
  refuses := ⟨fun hrefuses => absurd hrefuses hnot,
    fun hrefused => absurd hrefused ((mayStart_iff_of_rest hrest).1 hstart)⟩
  told hrefuses := absurd hrefuses hnot
  begins _ := hbegins

theorem answers_of_refusal {err : Error} (hdone : task.isDone = true)
    (hwhy : x.options.once = true ∨ ∃ till, restEnd x.options ended = some till ∧ y.now < till)
    (hconflict : err.isConflict = true)
    (htold : err = if x.options.once then .onlyOnce task.id
      else .coolingDown task.id (restLeft x.options ended y.now)) :
    y.Answers x task context ended (y, .ended (.returned (.error err))) := by
  have hrefuses : y.Refuses (y, .ended (.returned (.error err))) :=
    ⟨⟨err, rfl, hconflict⟩, rfl, rfl⟩
  exact ⟨⟨fun _ => ⟨hdone, hwhy⟩, fun _ => hrefuses⟩, fun _ => by rw [htold],
    fun hnot => absurd hrefuses hnot⟩

/-- What the first move of a start call comes to for a task without a run in progress. -/
theorem Course.answers (h : y.Course e x task context .entered made)
    (hidle : task.state.isPending = false)
    (hcontext : ∀ err, y.contexts.error? context = some err → err.isConflict = false)
    (hrest : x.cooldownUntil = restEnd x.options ended) :
    y.Answers x task context ended made := by
  have hleft : x.cooldownRemaining y.now = restLeft x.options ended y.now :=
    Executor.cooldownRemaining_eq hrest
  cases h with
  | @bars err hwhy =>
      cases hwhy with
      | once hdone honce =>
          exact answers_of_refusal hdone (.inl honce) rfl (if_pos honce).symm
      | cooling hdone honce hlasts =>
          refine answers_of_refusal hdone (.inr ?_) rfl (by rw [honce, hleft]; rfl)
          rw [hleft, Ne, restLeft_eq_zero_iff] at hlasts
          obtain ⟨till, hnot⟩ := Classical.not_forall.1 hlasts
          obtain ⟨htill, hlater⟩ := Classical.not_imp.1 hnot
          exact ⟨till, htill, Nat.lt_of_not_le hlater⟩
      | done hstart herr =>
          refine answers_of_start hrest hstart ?_ fun hlive => ?_
          · rintro ⟨⟨_, hended, hconflict⟩, -⟩
            cases hended
            rw [hcontext err herr] at hconflict
            cases hconflict
          · rw [← ContextTree.isSome_error?, herr] at hlive
            cases hlive
  | overruns hdue hfits =>
      cases hdue with
      | enters hstart =>
          refine answers_of_start hrest hstart ?_ fun _ hfits' => ?_
          · rintro ⟨⟨_, hended, -⟩, -⟩
            cases hended
          · rw [hfits] at hfits'
            cases hfits'
  | conflicts _ _ hpending =>
      rw [hidle] at hpending
      cases hpending
  | launches hdue _ _ _ hlaunches =>
      cases hdue with
      | enters hstart =>
          obtain ⟨c, htasks, -⟩ := hlaunches.effects
          refine answers_of_start hrest hstart ?_ fun _ _ => ⟨_, _, _, c, rfl, htasks⟩
          rintro ⟨⟨_, hended, -⟩, -⟩
          cases hended

/-- An executor without a rest on record that may be used from outside and whose task has no run in
progress, and any run in which its users take turns, the clock waits for their calls and nobody else
starts the task, as long as the clock can count to the end of a rest. As soon as its start call, if
there is one, has found its run over, the executor tells how long the rest of its task still lasts:
until the end of the latest run since the last reset plus the cooldown. A start is refused with a
conflict and without a run exactly if the task is done and may run only once, or has not rested till
then, and is told which, with the time that is left. Any other start under a live context begins a
run, as long as the clock can count to the end of the timeout. -/
theorem refuses_iff_resting (hy : y.Reachable) (hlends : y.lends e = true)
    (hfree : y.isUnderWay e = false) (hx : y.executors[e]? = some x)
    (hrest : x.cooldownUntil = none) (htask : y.tasks[x.task]? = some task)
    (hidle : task.state.isPending = false) (steps : List Step)
    (hv : y.run (usesAlone e) steps = v)
    (hended : y.track (usesAlone e) (lastEnd e) none steps = ended)
    (hfits : v.restFits x.options = true) :
    ∃ x' task', v.executors[e]? = some x' ∧ x'.task = x.task ∧ x'.options = x.options ∧
      v.tasks[x.task]? = some task' ∧
      ((∀ k context attempt halt runContext, v.startCall? (.call k) =
          some ⟨e, context, .running attempt halt runContext⟩ → task'.state.isPending = true) →
        (v.executorStats x').cooldownRemaining = restLeft x.options ended v.now ∧
          ((v.executorStats x').cooldownRemaining = Duration.zero ↔
            ∀ till, restEnd x.options ended = some till → till ≤ v.now)) ∧
      ∀ k context, v.startCall? (.call k) = some ⟨e, context, .entered⟩ →
        ∃ made, v.executionMoves e context .entered = [made] ∧
          (v.Refuses made ↔ task'.state.isTerminal = true ∧ (x.options.once = true ∨
            ∃ till, restEnd x.options ended = some till ∧ v.now < till)) ∧
          (v.Refuses made → made.2 = .ended (.returned (.error
            (if x.options.once then .onlyOnce task'.id
            else .coolingDown task'.id (restLeft x.options ended v.now))))) ∧
          (¬ v.Refuses made → v.contexts.isDone context = false → v.fits x.options = true →
            v.Begins x.task made) := by
  have hstart : y.Tended e x.task x.options none := by
    refine ⟨hy, none, sole_none hlends hfree, x, task, hx, rfl, rfl, htask, ?_⟩
    rw [hidle]
    exact minds_of_idle rfl (fun _ => hrest) fun _ => hrest
  have hrun : (y.run (usesAlone e) steps).Tended e x.task x.options
      (y.track (usesAlone e) (lastEnd e) none steps) :=
    track_induction (P := fun y ended => y.Tended e x.task x.options ended)
      (fun _ _ _ _ ha hz h => h.step hz ha) hstart steps
  rw [hv, hended] at hrun
  obtain ⟨hreach, sole, hsole, x', task', hx', htask_eq, hoptions, htask', hminds⟩ := hrun
  rw [← hoptions] at hfits
  refine ⟨x', task', hx', htask_eq, hoptions, htask', fun hfound => ?_,
    fun k context hcall => ?_⟩
  · have htill : x'.cooldownUntil = restEnd x.options ended := by
      rw [← hoptions]
      refine hminds.rest hfits fun hrunning => ?_
      obtain ⟨⟨k, context, point⟩, rfl, hpoint⟩ := (Option.any_eq_true _ _).1
        (Option.any_map ▸ hrunning)
      have hk := (hsole.calls k context point).2 rfl
      cases point with
      | running attempt halt runContext =>
          exact hfound k context attempt halt runContext (startCall?_call_iff.2 hk)
      | _ => cases hpoint
    have hleft : (v.executorStats x').cooldownRemaining = restLeft x.options ended v.now :=
      hoptions ▸ Executor.cooldownRemaining_eq (hoptions ▸ htill)
    rw [hleft]
    exact ⟨rfl, restLeft_eq_zero_iff⟩
  · obtain rfl := (hsole.calls k context .entered).1 (startCall?_call_iff.1 hcall)
    have hpending := hminds.idle rfl
    have htill : x'.cooldownUntil = restEnd x'.options ended :=
      hminds.rest hfits fun hrunning => by cases hrunning
    have hlook : v.tasks[x'.task]? = some task' := htask_eq ▸ htask'
    have hmoves : v.executionMoves e context .entered = [v.enter e x' task' context] := by
      simp only [executionMoves, hx', hlook]
    have hcourse : v.Course e x' task' context .entered (v.enter e x' task' context) :=
      course_enter hx' hlook
    obtain ⟨hrefuses, htold, hbegins⟩ := hcourse.answers hpending
      (fun err herr => Error.isConflict_of_isContextError (hreach.isContextError herr)) htill
    rw [hoptions] at hrefuses htold
    rw [hoptions, htask_eq] at hbegins
    exact ⟨_, hmoves, hrefuses, htold, hbegins⟩

/-- An executor whose task is to rest for ten seconds. -/
def restfulSteps : List Step :=
  [.request .newContext, .request (.newTask "a" [] fun _ => []),
    .request (.newExecutor 0 (restTen false))]

/-- A start call sees a run, and another one is made after some time. -/
def startAgainSteps (millis : Nat) : List Step :=
  [.request (.call (.start 0 0 .entered)), .move (.call 0) 0] ++ bodySteps 0 ++
    [.move (.call 0) 0, .pass millis, .request (.call (.start 0 0 .entered))]

/-- The start call after four seconds is told to come back after six, and one after ten seconds
begins a run. -/
theorem refuses_iff_resting_startAgainSteps :
    ∃ (y v w : System) (refused begun : System × CallStatus), y = after restfulSteps ∧
      v = y.run (usesAlone 0) (startAgainSteps 4000) ∧
      w = y.run (usesAlone 0) (startAgainSteps 10000) ∧
      v.executionMoves 0 0 .entered = [refused] ∧ v.Refuses refused ∧
      refused.2 = .ended (.returned (.error (.coolingDown "a" (Duration.ofSeconds 6)))) ∧
      w.executionMoves 0 0 .entered = [begun] ∧ w.Begins 0 begun := by
  have hreach : (after restfulSteps).Reachable := reachable_after _
  have hstart : (after restfulSteps).lends 0 = true ∧
      (after restfulSteps).isUnderWay 0 = false := by
    decide +kernel
  have hx : (after restfulSteps).executors[0]? = some (Executor.create 0 (restTen false)) := by
    with_unfolding_all rfl
  have htask : (after restfulSteps).tasks[0]? =
      some (Task.create "a" [] (.ofMillis 0) fun _ => []) := by
    with_unfolding_all rfl
  have hearly : ((after restfulSteps).run (usesAlone 0) (startAgainSteps 4000)).restFits
        (restTen false) = true ∧
      ((after restfulSteps).run (usesAlone 0) (startAgainSteps 4000)).startCall? (.call 1) =
        some ⟨0, 0, .entered⟩ ∧
      ((after restfulSteps).run (usesAlone 0) (startAgainSteps 4000)).now = 4000000000 ∧
      (((after restfulSteps).run (usesAlone 0) (startAgainSteps 4000)).tasks[0]?.any fun task =>
        task.state.isTerminal && task.id == "a") = true ∧
      (after restfulSteps).track (usesAlone 0) (lastEnd 0) none (startAgainSteps 4000) =
        some 0 := by
    decide +kernel
  have hlate : ((after restfulSteps).run (usesAlone 0) (startAgainSteps 10000)).restFits
        (restTen false) = true ∧
      ((after restfulSteps).run (usesAlone 0) (startAgainSteps 10000)).startCall? (.call 1) =
        some ⟨0, 0, .entered⟩ ∧
      ((after restfulSteps).run (usesAlone 0) (startAgainSteps 10000)).now = 10000000000 ∧
      ((after restfulSteps).run (usesAlone 0) (startAgainSteps 10000)).contexts.isDone 0 = false ∧
      (after restfulSteps).track (usesAlone 0) (lastEnd 0) none (startAgainSteps 10000) =
        some 0 := by
    decide +kernel
  obtain ⟨hfits, hcall, hnow, hdone, hended⟩ := hearly
  obtain ⟨hfits', hcall', hnow', hlive, hended'⟩ := hlate
  obtain ⟨_, task, -, -, -, htask', -, hrefuses⟩ := refuses_iff_resting hreach hstart.1 hstart.2 hx
    rfl htask rfl (startAgainSteps 4000) rfl hended hfits
  obtain ⟨_, _, -, -, -, -, -, hbegins⟩ := refuses_iff_resting hreach hstart.1 hstart.2 hx rfl htask
    rfl (startAgainSteps 10000) rfl hended' hfits'
  obtain ⟨refused, hrefused, hiff, htold, -⟩ := hrefuses 1 0 hcall
  obtain ⟨begun, hbegun, hiff', -, hstarted⟩ := hbegins 1 0 hcall'
  replace htask' : ((after restfulSteps).run (usesAlone 0) (startAgainSteps 4000)).tasks[0]? =
    some task := htask'
  rw [htask', Option.any_some, Bool.and_eq_true, beq_iff_eq] at hdone
  have hend : restEnd (restTen false) (some 0) = some 10000000000 := rfl
  have hsoon := hiff.2 ⟨hdone.1, .inr ⟨10000000000, hend, hnow ▸ by decide⟩⟩
  refine ⟨_, _, _, refused, begun, rfl, rfl, rfl, hrefused, hsoon, ?_, hbegun, ?_⟩
  · rw [htold hsoon, hnow, hdone.2]
    rfl
  · refine hstarted (fun hlate => ?_) hlive rfl
    obtain ⟨-, honce | ⟨till, htill, hlt⟩⟩ := hiff'.1 hlate
    · cases honce
    · obtain rfl := Option.some.inj (hend.symm.trans htill)
      rw [hnow'] at hlt
      exact absurd hlt (Nat.lt_irrefl _)

end System

end Scheduling
