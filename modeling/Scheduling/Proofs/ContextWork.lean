import Scheduling.Proofs.Deadlines
import Scheduling.Proofs.Frames
/-!
# Work on contexts

In every step but the end of a timer, contexts are only made and cancelled. A step makes at most one
context with a timeout of its own, which is then the first that it makes: the one that is asked for,
that of a sleep of a run, or that of an attempt.
-/

namespace Scheduling

/-- Whether a step may cancel a context: the one that it is asked to cancel, or any if it does the
work of a task, an executor or a scheduler. -/
def Step.cancels : Step → ContextId → Bool
  | .request (.cancelContext d), c | .request (.cancelSilently d), c => c == d
  | .request (.cancelTask _), _ | .request (.cancelExecutor _), _ => true
  | .request (.removePlan _ _), _ | .request (.cancelPlan _ _), _ => true
  | .move (.run _) _, _ | .move (.call _) _, _ => true
  | .move (.dispatch _ _) _, _ | .move (.worker _ _ _) _, _ => true
  | _, _ => false

namespace System

variable {ends : ContextId → Option Instant} {cut : ContextId → Prop} {y z u : System}
  {e : ExecutorId}

/-! ## Contexts, tasks and runs -/

theorem develops_cancelContext (y : System) {c : ContextId} (hc : cut c) :
    y.contexts.Develops ends cut (y.cancelContext c).contexts :=
  .cancel .refl hc

theorem develops_newChild (parent : ContextId) (hends : ends y.contexts.nodes.size = none) :
    y.contexts.Develops ends cut (y.newChild parent).2.contexts :=
  .child .refl hends parent

theorem expiry_of_add? {now expiry : Instant} {d : Duration}
    (h : Instant.add? now d = some expiry) : expiry = now + d.nanos := by
  unfold Instant.add? at h
  split at h
  · exact (Option.some.inj h).symm
  · cases h

theorem develops_newChildFor {parent : ContextId} {timeout : Duration} {made : ContextId × System}
    (h : y.newChildFor parent timeout = some made)
    (hends : ends y.contexts.nodes.size = some (y.now + timeout.nanos)) :
    y.contexts.Develops ends cut made.2.contexts := by
  obtain ⟨expiry, hexpiry, rfl⟩ := Option.map_eq_some_iff.1 h
  obtain rfl := expiry_of_add? hexpiry
  exact .childUntil .refl hends parent

theorem develops_startTask (y : System) (t : TaskId) (parent : ContextId)
    (hends : ends y.contexts.nodes.size = none) :
    y.contexts.Develops ends cut (y.startTask t parent).2.contexts := by
  unfold startTask
  split
  · exact .refl
  · split
    · exact .refl
    · exact develops_newChild parent hends

theorem develops_cancelTask (hcut : ∀ c, cut c) (y : System) (t : TaskId) :
    y.contexts.Develops ends cut (y.cancelTask t).2.contexts := by
  unfold cancelTask
  split
  · exact .refl
  · split
    · dsimp only
      split
      · exact .cancel .refl (hcut _)
      · exact .refl
    · exact .refl

theorem contexts_endSleep (y : System) (r : RunId) (run : Run) (strict : Bool) (rest : List Action)
    (outcome : Outcome) : (y.endSleep r run strict rest outcome).contexts = y.contexts := by
  unfold endSleep
  split
  · split <;> rfl
  · rfl

theorem develops_act (hcut : ∀ c, cut c) (y : System) (r : RunId) (run : Run) (action : Action)
    (rest : List Action) (hends : ∀ timeout d, action = .childSleep timeout d →
      ends y.contexts.nodes.size = some (y.now + timeout.nanos)) :
    y.contexts.Develops ends cut (y.act r run action rest).contexts := by
  cases action with
  | cancelContext => exact develops_cancelContext y (hcut _)
  | childSleep timeout d =>
      dsimp only [act]
      split
      · exact .refl
      · rename_i hmade
        exact develops_newChildFor hmade (hends timeout d rfl)
  | _ => exact .refl

/-- A run makes a context only when it sleeps in one of its own. -/
theorem develops_of_mem_runMoves {r : RunId} (hcut : ∀ c, cut c) (h : z ∈ y.runMoves r)
    (hends : ∀ run timeout d rest, y.runs.get? r = some run →
      run.point = .acting (.childSleep timeout d :: rest) →
        ends y.contexts.nodes.size = some (y.now + timeout.nanos)) :
    y.contexts.Develops ends cut z.contexts := by
  unfold runMoves at h
  split at h
  · cases h
  · rename_i run hrun
    split at h
    · split at h
      · cases h
      · obtain rfl := List.mem_singleton.1 h
        exact .refl
    · obtain rfl := List.mem_singleton.1 h
      exact .refl
    · rename_i action rest hpoint
      obtain rfl := List.mem_singleton.1 h
      exact develops_act hcut y _ _ _ _ fun timeout d haction =>
        hends run timeout d rest hrun (haction ▸ hpoint)
    · obtain h | h := List.mem_append.1 h
      · split at h
        · obtain ⟨-, rfl⟩ := of_mem_guarded h
          rw [contexts_endSleep]
          exact .refl
        · cases h
      · obtain ⟨-, rfl⟩ := of_mem_guarded h
        rw [contexts_endSleep]
        exact .refl
    · obtain ⟨-, rfl⟩ := of_mem_guarded h
      exact .refl
    · obtain rfl := List.mem_singleton.1 h
      exact develops_cancelContext y (hcut _)

/-! ## Executors -/

theorem develops_cancelExecutor (hcut : ∀ c, cut c) (y : System) (e : ExecutorId) :
    y.contexts.Develops ends cut (y.cancelExecutor e).2.contexts := by
  unfold cancelExecutor
  split
  · exact .refl
  · exact develops_cancelTask hcut (y.modifyExecutor e Executor.raiseHalt) _

theorem develops_cancelExecution (hcut : ∀ c, cut c) (y : System) (x : Execution) :
    y.contexts.Develops ends cut (y.cancelExecution x).contexts :=
  .cancel (develops_cancelExecutor hcut y x.executor) (hcut _)

theorem develops_foldl_cancelExecution (hcut : ∀ c, cut c) (y : System) (xs : List Execution) :
    y.contexts.Develops ends cut (xs.foldl cancelExecution y).contexts := by
  induction xs generalizing y with
  | nil => exact .refl
  | cons x xs ih => exact (develops_cancelExecution hcut y x).trans (ih _)

section StartCall

variable {executor : Executor} {context : ContextId} {attempt halt : Nat}

theorem contexts_afterAttempt (y : System) (outcome : Outcome) :
    (y.afterAttempt e executor context attempt halt outcome).1.contexts = y.contexts := by
  obtain ⟨-, h⟩ | ⟨_, -, ⟨-, h⟩ | ⟨_, -, -, h⟩⟩ :=
    afterAttempt_eq y e executor context attempt halt outcome <;>
    rw [h] <;> rfl

theorem develops_attemptContext {made : ContextId × System}
    (h : y.attemptContext executor context = some made)
    (hends : ends y.contexts.nodes.size =
      executor.options.timeout.map fun timeout => y.now + timeout.nanos) :
    y.contexts.Develops ends cut made.2.contexts ∧
      made.2.contexts.nodes.size = y.contexts.nodes.size + 1 := by
  unfold attemptContext at h
  split at h
  · rename_i htimeout
    rw [htimeout] at hends
    cases h
    exact ⟨develops_newChild context hends, Array.size_push _⟩
  · rename_i timeout htimeout
    rw [htimeout] at hends
    refine ⟨develops_newChildFor h hends, ?_⟩
    obtain ⟨expiry, -, rfl⟩ := Option.map_eq_some_iff.1 h
    exact Array.size_push _

/-- An attempt makes a context with its timeout, and below that the one of its run. -/
theorem develops_beginAttempt (hcut : ∀ c, cut c) (y : System)
    (hends : ends y.contexts.nodes.size =
      executor.options.timeout.map fun timeout => y.now + timeout.nanos)
    (hnext : ends (y.contexts.nodes.size + 1) = none) :
    y.contexts.Develops ends cut (y.beginAttempt e executor context attempt halt).1.contexts := by
  obtain ⟨-, h⟩ | ⟨c, z, started, u, _, hmade, hstart, h⟩ :=
    beginAttempt_eq y e executor context attempt halt
  · rw [h]
    exact .refl
  · obtain ⟨hmake, hsize⟩ := develops_attemptContext hmade hends
    have hbegin : z.contexts.Develops ends cut u.contexts := by
      have hstarts : z.contexts.Develops ends cut (z.startTask executor.task c).2.contexts :=
        develops_startTask z executor.task c (hsize ▸ hnext)
      rwa [hstart] at hstarts
    rw [h]
    cases started with
    | true => exact hmake.trans hbegin
    | false =>
        rw [if_neg Bool.false_ne_true, contexts_afterAttempt]
        exact .cancel (hmake.trans hbegin) (hcut c)

theorem develops_endAttempt (hcut : ∀ c, cut c) (y : System) (task : Task)
    (runContext : ContextId) :
    y.contexts.Develops ends cut
      (y.endAttempt e executor task context attempt halt runContext).1.contexts := by
  obtain h | ⟨u, outcome, hu, -, h⟩ :=
    endAttempt_eq y e executor task context attempt halt runContext
  · rw [h]
    exact develops_cancelContext y (hcut _)
  · rw [h, contexts_afterAttempt]
    obtain rfl | ⟨instant, rfl⟩ := hu
    · exact develops_cancelContext y (hcut _)
    · exact develops_cancelContext y (hcut _)

theorem develops_enter (hcut : ∀ c, cut c) (y : System) (task : Task)
    (hends : ends y.contexts.nodes.size =
      executor.options.timeout.map fun timeout => y.now + timeout.nanos)
    (hnext : ends (y.contexts.nodes.size + 1) = none) :
    y.contexts.Develops ends cut (y.enter e executor task context).1.contexts := by
  obtain ⟨_, h⟩ | ⟨-, -, h⟩ := enter_eq y e executor task context
  · rw [h]
    exact .refl
  · rw [h]
    exact develops_beginAttempt hcut (y.modifyExecutor e Executor.renewHalt) hends hnext

theorem develops_of_mem_executionMoves {point : CallPoint} {made : System × CallStatus}
    (hcut : ∀ c, cut c) (h : made ∈ y.executionMoves e context point)
    (hends : ends y.contexts.nodes.size = (y.executors[e]?.bind fun x => x.options.timeout).map
      fun timeout => y.now + timeout.nanos)
    (hnext : ends (y.contexts.nodes.size + 1) = none) :
    y.contexts.Develops ends cut made.1.contexts := by
  obtain ⟨x, task, hx, -, hmove⟩ := executionMove_of_mem h
  rw [hx, Option.bind_some] at hends
  cases hmove with
  | enter => exact develops_enter hcut y task hends hnext
  | endAttempt => exact develops_endAttempt hcut y task _
  | giveUp => exact .refl
  | retry => exact develops_beginAttempt hcut y hends hnext

end StartCall

/-! ## Steps -/

/-- The timeout that a step gives to the first context that it makes, if it makes any. -/
def timeout? (y : System) : Step → Option Duration
  | .request (.newChildFor _ timeout) => some timeout
  | .move (.run r) _ =>
    match (y.runs.get? r).map Run.point with
    | some (.acting (.childSleep timeout _ :: _)) => some timeout
    | _ => none
  | a => (y.working a).bind fun e => y.executors[e]?.bind fun x => x.options.timeout

/-- When the timeouts end that a step gives to the contexts that it makes. -/
def newEnds (y : System) (a : Step) (c : ContextId) : Option Instant :=
  if c = y.contexts.nodes.size then (y.timeout? a).map fun timeout => y.now + timeout.nanos
  else none

theorem newEnds_first (y : System) (a : Step) : y.newEnds a y.contexts.nodes.size =
    (y.timeout? a).map fun timeout => y.now + timeout.nanos := if_pos rfl

theorem newEnds_second (y : System) (a : Step) : y.newEnds a (y.contexts.nodes.size + 1) = none :=
  if_neg (Nat.succ_ne_self _)

theorem develops_removePlan (hcut : ∀ c, cut c) (y : System) (i : SchedulerId) (p : Plan) :
    y.contexts.Develops ends cut (y.removePlan i p).contexts := by
  unfold removePlan
  split
  · exact .refl
  · dsimp only
    split
    · exact develops_cancelExecution hcut (y.setScheduler i _) _
    · exact develops_cancelTask hcut (y.setScheduler i _) _

theorem develops_cancelPlan (hcut : ∀ c, cut c) (y : System) (i : SchedulerId) (key : String) :
    y.contexts.Develops ends cut ((y.cancelPlan i key).toOption.getD y).contexts := by
  unfold cancelPlan
  split
  · exact .refl
  · exact develops_cancelExecution hcut y _

theorem develops_carryOut (y : System) (r : Request) :
    y.contexts.Develops (y.newEnds (.request r)) ((Step.request r).cancels ·)
      (y.carryOut r).contexts := by
  have hfirst := newEnds_first y (.request r)
  cases r with
  | newContext => exact .background .refl hfirst
  | newChild parent => exact develops_newChild parent hfirst
  | newChildFor parent timeout =>
      cases hmade : y.newChildFor parent timeout with
      | none =>
          simp only [carryOut, hmade]
          exact .refl
      | some made =>
          simp only [carryOut, hmade]
          exact develops_newChildFor hmade hfirst
  | cancelContext c => exact develops_cancelContext y (beq_self_eq_true c)
  | cancelSilently c => exact .cancelSilently .refl (beq_self_eq_true c)
  | startTask t c => exact develops_startTask y t c hfirst
  | cancelTask t => exact develops_cancelTask (fun _ => rfl) y t
  | cancelExecutor e => exact develops_cancelExecutor (fun _ => rfl) y e
  | removePlan i p => exact develops_removePlan (fun _ => rfl) y i p
  | cancelPlan i key => exact develops_cancelPlan (fun _ => rfl) y i key
  | startScheduler i c =>
      simp only [carryOut]
      obtain hsame | ⟨_, -, -, hstart⟩ := startScheduler_cases y i c
      · rw [hsame]
        exact .refl
      · rw [hstart]
        exact develops_newChild c hfirst
  | addPlans i plans =>
      simp only [carryOut]
      obtain hsame | ⟨_, _, -, -, hset⟩ := addPlans_cases y i plans
      · rw [hsame]
        exact .refl
      · rw [hset]
        exact .refl
  | addEntry | newScheduler =>
      simp only [carryOut]
      split <;> exact .refl
  | _ => exact .refl

theorem CallMove.develops {k : CallId} {choice : Nat} {call call' : Call}
    (h : y.CallMove call u call') (hcall : y.calls[k]? = some call) :
    y.contexts.Develops (y.newEnds (.move (.call k) choice))
      ((Step.move (.call k) choice).cancels ·) u.contexts := by
  have hfirst := newEnds_first y (.move (.call k) choice)
  have hsecond := newEnds_second y (.move (.call k) choice)
  cases h with
  | goOn hmade | returns hmade | panics hmade =>
      simp only [timeout?, working, hcall, Option.bind_some] at hfirst
      exact develops_of_mem_executionMoves (fun _ => rfl) hmade hfirst hsecond
  | stopAndWait | stop => exact develops_cancelExecutor (fun _ => rfl) y _
  | @awaitEnd i _ wait _ hstop | @stopScheduler i wait _ hstop =>
      obtain ⟨v, hv, hlast⟩ := requestStop_cases y i wait
      have hu : u.contexts = v.contexts := by
        rw [hstop] at hlast
        obtain rfl | ⟨s, rfl⟩ := hlast <;> rfl
      rw [hu]
      obtain rfl | ⟨_, c, -, -, rfl⟩ := hv
      · exact .refl
      · exact develops_cancelContext y rfl
  | _ => exact .refl

theorem develops_of_mem_dispatchMoves {i : SchedulerId} {j : SessionId} (hcut : ∀ c, cut c)
    (h : z ∈ y.dispatchMoves i j) (hends : ends y.contexts.nodes.size = none) :
    y.contexts.Develops ends cut z.contexts := by
  obtain ⟨s, -, hmove⟩ := of_mem_dispatchMoves h
  cases hmove with
  | move _ hz | skip _ _ hz =>
      subst hz
      exact .refl
  | enter _ _ hz =>
      subst hz
      exact develops_newChild _ hends
  | @cancelAll s' _ hz =>
      subst hz
      exact develops_foldl_cancelExecution hcut (y.setScheduler i s') _

theorem develops_of_workerMoves {i : SchedulerId} {j : SessionId} {choice : Nat}
    (h : (y.workerMoves i j e)[choice]? = some z) :
    y.contexts.Develops (y.newEnds (.move (.worker i j e) choice))
      ((Step.move (.worker i j e) choice).cancels ·) z.contexts := by
  obtain ⟨s, w, u, status, -, hworker, hmade, hmove⟩ := workerMove_of_getElem? h
  obtain rfl := Scheduler.executor_of_worker? hworker
  have hwork : y.contexts.Develops (y.newEnds (.move (.worker i j w.executor) choice))
      ((Step.move (.worker i j w.executor) choice).cancels ·) u.contexts :=
    develops_of_mem_executionMoves (fun _ => rfl) (List.mem_of_getElem? hmade) (newEnds_first y _)
      (newEnds_second y _)
  cases hmove with
  | goOn | panics => exact hwork
  | returns => exact hwork.cancel rfl

/-- A step makes and cancels contexts, or a timer goes off in it. -/
theorem develops_of_step {a : Step} (h : y.step? a = some z) :
    y.contexts.Develops (y.newEnds a) (a.cancels ·) z.contexts ∨
      ∃ c choice, a = .move (.deadline c) choice ∧ y.contexts.isDue y.now c = true ∧
        z = { y with contexts := y.contexts.expire c } := by
  cases a with
  | request r =>
      obtain ⟨-, rfl⟩ := step_request_iff.1 h
      exact .inl (develops_carryOut y r)
  | pass millis =>
      obtain ⟨-, rfl⟩ := step_pass_iff.1 h
      exact .inl .refl
  | move actor choice =>
      have hmem : z ∈ y.moves actor := List.mem_of_getElem? h
      have hfirst := newEnds_first y (.move actor choice)
      cases actor with
      | deadline c =>
          obtain ⟨hdue, hz⟩ := of_mem_guarded hmem
          exact .inr ⟨c, choice, rfl, hdue, hz⟩
      | run r =>
          refine .inl (develops_of_mem_runMoves (fun _ => rfl) hmem ?_)
          intro run timeout d rest hrun hpoint
          simp only [timeout?, hrun, Option.map_some, hpoint] at hfirst
          exact hfirst
      | call k =>
          obtain ⟨call, u, call', hcall, hmove, rfl⟩ := callMove_of_mem hmem
          exact .inl (hmove.develops hcall)
      | dispatch i j => exact .inl (develops_of_mem_dispatchMoves (fun _ => rfl) hmem hfirst)
      | worker i j e => exact .inl (develops_of_workerMoves h)
      | tableTimer =>
          obtain ⟨_, _, _, -, -, rfl⟩ := of_mem_tableTimerMoves hmem
          exact .inl .refl
      | planTimer =>
          obtain ⟨_, _, -, -, rfl⟩ := of_mem_planTimerMoves hmem
          exact .inl .refl
      | fetch =>
          obtain ⟨_, _, -, -, rfl⟩ := of_mem_fetchMoves hmem
          exact .inl .refl
      | supervisor =>
          obtain ⟨_, _, -, -, rfl⟩ := of_mem_closeMoves hmem
          exact .inl .refl

end System

end Scheduling
