import Scheduling.Proofs.Panics
import Scheduling.Proofs.Provenance
/-!
# Start calls and who makes them

A start call is made from outside or by a worker of a scheduler. In both cases it stays where it is
in all steps but its own moves, each of which is a move of its executor; and as long as nobody else
uses the executor, the executor keeps its halt flags and its counters between these moves.
-/

namespace Scheduling

/-- Who makes a start call. -/
inductive Caller
  | call (call : CallId)
  | worker (scheduler : SchedulerId) (session : SessionId) (executor : ExecutorId)
deriving DecidableEq, Repr

/-- The actor whose moves are those of the start call. -/
def Caller.actor : Caller → Actor
  | call k => .call k
  | worker i j e => .worker i j e

/-- Whether a step is a move of a start call. -/
def Step.isMoveOf (who : Caller) : Step → Bool
  | .move actor _ => actor == who.actor
  | _ => false

/-- A start call of an executor under a context, and where it stands. -/
structure StartCall where
  executor : ExecutorId
  context : ContextId
  point : CallPoint
deriving DecidableEq

/-- A start call after a move, unless it has ended. -/
def System.CallStatus.startCall? (status : System.CallStatus) (c : StartCall) : Option StartCall :=
  match status with
  | .at point => some { c with point := point }
  | .ended _ => none

/-- How a start call has ended, if it has. -/
def System.CallStatus.end? : System.CallStatus → Option CallEnd
  | .at _ => none
  | .ended result => some result

namespace System

/-- The start call that someone is making. -/
def startCall? (y : System) : Caller → Option StartCall
  | .call k =>
    match y.calls[k]? with
    | some (.start e context point) => some ⟨e, context, point⟩
    | _ => none
  | .worker i j e =>
    (y.schedulers[i]?.bind fun s => s.worker? j e).map fun w => ⟨w.executor, w.context, w.point⟩

/-- What a start call comes to in a move. -/
def callMove? (y : System) (c : StartCall) (choice : Nat) : Option (System × CallStatus) :=
  (y.executionMoves c.executor c.context c.point)[choice]?

/-- What the start call of someone comes to in a step, if the step is a move of it. -/
def ownMove? (y : System) (who : Caller) : Step → Option (System × CallStatus)
  | .move actor choice =>
    if actor = who.actor then (y.startCall? who).bind fun c => y.callMove? c choice else none
  | _ => none

/-- Whether the clock waits for a start call: time passes only while the call can make no move, and
not beyond the next instant for which it has set a timer. This is so of all time that passes in a
settled system (`Reachable.onTime_of_timely`). -/
def onTime (who : Caller) (y : System) : Step → Bool
  | .pass millis =>
    (y.startCall? who).all fun c =>
      (y.executionMoves c.executor c.context c.point).isEmpty &&
        c.point.wake?.all fun wake => millis ≤ wake.ceilMillis
  | _ => true

/-- Whether a step leaves an executor to the start call of someone, for which the clock waits:
nobody else starts the executor or resets it. -/
def leavesTo (who : Caller) (e : ExecutorId) (y : System) (a : Step) : Bool :=
  y.onTime who a && (a.isMoveOf who || y.working a != some e)

/-- Whether there is someone of this name, be it that no start call is made any more. -/
def Names (y : System) : Caller → Prop
  | .call k => k < y.calls.size
  | .worker _ _ e => e < y.executors.size

variable {y z : System} {a : Step} {who : Caller} {e : ExecutorId} {c : StartCall} {choice : Nat}
  {i : SchedulerId} {j : SessionId} {w : Worker} {allowed : System → Step → Bool}

theorem startCall?_call_iff {k : CallId} :
    y.startCall? (.call k) = some c ↔
      y.calls[k]? = some (.start c.executor c.context c.point) := by
  cases hk : y.calls[k]? with
  | none => simp [startCall?, hk]
  | some call =>
      cases call with
      | start e context point => cases c; simp [startCall?, hk]
      | _ => simp [startCall?, hk]

/-- The worker of an executor is found by the number of the executor. -/
theorem ReachableBy.worker_iff (h : y.ReachableBy allowed) :
    (y.schedulers[i]?.bind fun s => s.worker? j e) = some w ↔
      ∃ (s : Scheduler) (n : Session), y.schedulers[i]? = some s ∧ s.sessions[j]? = some n ∧
        w ∈ n.workers ∧ w.executor = e := by
  rw [Option.bind_eq_some_iff]
  constructor
  · rintro ⟨s, hs, hworker⟩
    obtain ⟨n, hn, hw⟩ := Scheduler.mem_of_worker? hworker
    exact ⟨s, n, hs, hn, hw, Scheduler.executor_of_worker? hworker⟩
  · rintro ⟨s, n, hs, hn, hw, rfl⟩
    exact ⟨s, hs, h.worker?_eq hs hn hw⟩

theorem ReachableBy.startCall?_worker_iff (h : y.ReachableBy allowed) :
    y.startCall? (.worker i j e) = some c ↔
      ∃ (s : Scheduler) (n : Session) (w : Worker), y.schedulers[i]? = some s ∧
        s.sessions[j]? = some n ∧ w ∈ n.workers ∧ w.executor = e ∧
        c = ⟨w.executor, w.context, w.point⟩ := by
  unfold startCall?
  rw [Option.map_eq_some_iff]
  constructor
  · rintro ⟨w, hw, rfl⟩
    obtain ⟨s, n, hs, hn, hmem, he⟩ := h.worker_iff.1 hw
    exact ⟨s, n, w, hs, hn, hmem, he, rfl⟩
  · rintro ⟨s, n, w, hs, hn, hmem, he, rfl⟩
    exact ⟨w, h.worker_iff.2 ⟨s, n, hs, hn, hmem, he⟩, rfl⟩

theorem ReachableBy.names_of_startCall? (h : y.ReachableBy allowed)
    (hcall : y.startCall? who = some c) : y.Names who := by
  cases who with
  | call k => exact (Array.getElem?_eq_some_iff.1 (startCall?_call_iff.1 hcall)).1
  | worker i j e =>
      obtain ⟨s, n, w, hs, hn, hw, rfl, -⟩ := h.startCall?_worker_iff.1 hcall
      exact h.numbered.lt (employs_of_mem hs hn hw)

theorem calls_size_of_step (hz : y.step? a = some z) : y.calls.size ≤ z.calls.size := by
  cases callsStep_of_step hz with
  | kept h => exact Nat.le_of_eq (congrArg Array.size h.symm)
  | made _ h =>
      rw [h, Array.size_push]
      exact Nat.le_succ _
  | moved _ hmove h =>
      rw [h, ← hmove.calls]
      exact Nat.le_of_eq Array.size_modify.symm

theorem Names.step (hwho : y.Names who) (hz : y.step? a = some z) : z.Names who := by
  cases who with
  | call k => exact Nat.lt_of_lt_of_le hwho (calls_size_of_step hz)
  | worker i j e => exact Nat.lt_of_lt_of_le hwho (proceeds_of_step hz).executors_size

/-! ## Moves of others -/

/-- A start call stays where it is while others move, and none comes back. -/
theorem ReachableBy.startCall?_of_step (h : y.ReachableBy allowed) (hz : y.step? a = some z)
    (hwho : y.Names who) (hne : ∀ choice, a ≠ .move who.actor choice) :
    z.startCall? who = y.startCall? who := by
  cases who with
  | call k =>
      have hcalls : z.calls[k]? = y.calls[k]? := by
        cases callsStep_of_step hz with
        | kept h => rw [h]
        | made _ h => rw [h, Array.getElem?_push_lt hwho, Array.getElem?_eq_getElem hwho]
        | @moved k' choice _ call' u _ hmove h =>
            have hother : k' ≠ k := fun heq => hne choice (heq ▸ rfl)
            have hlook : (u.callAt k' call').calls[k]? = u.calls[k]? :=
              Array.getElem?_modify.trans (if_neg hother)
            rw [h, hlook, hmove.calls]
      simp only [startCall?, hcalls]
  | worker i j e =>
      have hreach : z.Reachable := h.reachable.step rfl hz
      refine Option.ext fun c => ?_
      rw [hreach.startCall?_worker_iff, h.startCall?_worker_iff]
      constructor
      · rintro ⟨s', n', w', hs', hn', hw', rfl, rfl⟩
        obtain ⟨s, n, hs, hn, hmem | ⟨w₀, -, hadvances, hsame⟩ | ⟨-, hnew⟩⟩ :=
          h.worker_cases hz hs' hn' hw'
        · exact ⟨s, n, w', hs, hn, hmem, rfl, rfl⟩
        · obtain ⟨choice, hactor⟩ := hadvances.actor
          have hexecutor : w'.executor = w₀.executor := by rw [hsame]
          exact absurd hactor (hexecutor ▸ hne choice)
        · exact absurd hwho (hnew ▸ Nat.lt_irrefl _)
      · rintro ⟨s, n, w, hs, hn, hw, rfl, rfl⟩
        obtain ⟨s', n', hs', hn', hmem | ⟨_, hadvances, -⟩ | ⟨_, hadvances⟩⟩ :=
          h.worker_kept hz hs hn hw
        · exact ⟨s', n', w, hs', hn', hmem, rfl, rfl⟩
        · obtain ⟨choice, hactor⟩ := hadvances.actor
          exact absurd hactor (hne choice)
        · obtain ⟨choice, hactor⟩ := hadvances.actor
          exact absurd hactor (hne choice)

/-! ## Own moves -/

/-- The second system is the first but for where calls and plans stand and, if a start call has
ended, for the context of its plan. -/
structure Resumes (u z : System) : Prop where
  clock : z.clock = u.clock
  tasks : z.tasks = u.tasks
  runs : z.runs = u.runs
  nextRun : z.nextRun = u.nextRun
  executors : z.executors = u.executors
  size : z.contexts.nodes.size = u.contexts.nodes.size
  contexts : u.contexts.Grows z.contexts

theorem resumes_callAt (u : System) (k : CallId) (call : Call) : u.Resumes (u.callAt k call) :=
  ⟨rfl, rfl, rfl, rfl, rfl, rfl, .refl _⟩

theorem WorkerMove.resumes {s : Scheduler} {u : System} {status : CallStatus}
    (h : WorkerMove i j s w u status z) : u.Resumes z := by
  cases h with
  | goOn | panics => exact ⟨rfl, rfl, rfl, rfl, rfl, rfl, .refl _⟩
  | returns =>
      exact ⟨rfl, rfl, rfl, rfl, rfl, Array.size_modify, ContextTree.grows_cancel _ _⟩

/-- A worker is not there any more when its start call has ended. -/
theorem WorkerMove.gone {s s' : Scheduler} {n n' : Session} {w' : Worker} {u : System}
    {result : CallEnd} (h : WorkerMove i j s w u (.ended result) z) (hs : u.schedulers[i]? = some s)
    (hn : s.sessions[j]? = some n) (hs' : z.schedulers[i]? = some s')
    (hn' : s'.sessions[j]? = some n') (hw' : w' ∈ n'.workers) : w'.executor ≠ w.executor := by
  have hfiltered {m : Session} (hm : s'.sessions[j]? = some m)
      (hworkers : m.workers = n.workers.filter (·.executor ≠ w.executor)) :
      w'.executor ≠ w.executor := by
    obtain rfl := Option.some.inj (hm.symm.trans hn')
    rw [hworkers] at hw'
    simpa using (List.mem_filter.1 hw').2
  cases h with
  | returns =>
      obtain rfl := Option.some.inj ((getElem?_setScheduler hs _).symm.trans hs')
      exact hfiltered (Scheduler.Edits.endWorker hn).after rfl
  | panics =>
      obtain rfl := Option.some.inj ((getElem?_setScheduler hs _).symm.trans hs')
      have hedit : s.Edits (s.crashWorker j w) j n _ := .twice hn rfl
      exact hfiltered hedit.after rfl

/-- A move of a start call is a move of its executor, after which the call stands where that has
led. -/
theorem ReachableBy.startCall?_of_move (h : y.ReachableBy allowed)
    (hz : y.step? (.move who.actor choice) = some z) (hcall : y.startCall? who = some c) :
    ∃ (u : System) (status : CallStatus), y.callMove? c choice = some (u, status) ∧
      u.Resumes z ∧ z.startCall? who = status.startCall? c := by
  cases who with
  | call k =>
      have hk := startCall?_call_iff.1 hcall
      replace hz : (y.callMoves k)[choice]? = some z := hz
      simp only [callMoves, hk, List.getElem?_map] at hz
      obtain ⟨⟨u, status⟩, hmade, rfl⟩ := Option.map_eq_some_iff.1 hz
      have hu : u.calls[k]? = some (.start c.executor c.context c.point) := by
        rw [(works_of_mem_executionMoves (List.mem_of_getElem? hmade)).calls]
        exact hk
      refine ⟨u, status, hmade, ?_, ?_⟩
      · cases status with
        | «at» point => exact resumes_callAt u k _
        | ended result => cases result <;> exact resumes_callAt u k _
      · cases status with
        | «at» point => exact startCall?_call_iff.2 (getElem?_callAt hu)
        | ended result =>
            have hended {value : CallValue} : (u.endCall k value).startCall? (.call k) = none := by
              have hlook : (u.endCall k value).calls[k]? = some (.ended u.clock.millis value) :=
                getElem?_callAt hu
              simp only [startCall?, hlook]
            cases result <;> exact hended
  | worker i j e =>
      obtain ⟨s, n, w, hs, hn, hw, rfl, rfl⟩ := h.startCall?_worker_iff.1 hcall
      obtain ⟨s₀, v, u, status, hs₀, hv, hmade, hmove⟩ := workerMove_of_getElem? hz
      obtain rfl := Option.some.inj (hs.symm.trans hs₀)
      obtain rfl := Option.some.inj ((h.worker?_eq hs hn hw).symm.trans hv)
      have hu : u.schedulers[i]? = some s := by
        rw [(works_of_mem_executionMoves (List.mem_of_getElem? hmade)).schedulers]
        exact hs
      have hreach : z.Reachable := h.reachable.step rfl hz
      refine ⟨u, status, hmade, hmove.resumes, ?_⟩
      cases status with
      | «at» point =>
          obtain ⟨s', n', hs', hn', hw'⟩ := hmove.worker hu hn hw
          exact hreach.startCall?_worker_iff.2 ⟨s', n', _, hs', hn', hw', rfl, rfl⟩
      | ended result =>
          refine Option.eq_none_iff_forall_ne_some.2 fun c hsome => ?_
          obtain ⟨s', n', w', hs', hn', hw', hsame, -⟩ := hreach.startCall?_worker_iff.1 hsome
          exact hmove.gone hu hn hs' hn' hw' hsame

/-- Whoever makes a start call can make each of its moves. -/
theorem exists_step_of_callMove? {u : System} {status : CallStatus}
    (hcall : y.startCall? who = some c) (hmade : y.callMove? c choice = some (u, status)) :
    ∃ z, y.step? (.move who.actor choice) = some z := by
  unfold callMove? at hmade
  cases who with
  | call k =>
      have hk := startCall?_call_iff.1 hcall
      refine Option.isSome_iff_exists.1 (?_ : (y.callMoves k)[choice]?.isSome = true)
      simp [callMoves, hk, hmade]
  | worker i j e =>
      obtain ⟨w, hw, rfl⟩ := Option.map_eq_some_iff.1 hcall
      refine Option.isSome_iff_exists.1 (?_ : (y.workerMoves i j e)[choice]?.isSome = true)
      simp [workerMoves, hw, hmade]

/-- Where no start call is made its actor makes no move of an executor, and begins none. -/
theorem startCall?_eq_none_of_move
    (hz : y.step? (.move who.actor choice) = some z) (hnone : y.startCall? who = none) :
    y.working (.move who.actor choice) = none ∧ z.startCall? who = none := by
  cases who with
  | call k =>
      have hother (e : ExecutorId) (context : ContextId) (point : CallPoint) :
          y.calls[k]? ≠ some (.start e context point) := fun hk => by
        have hsome : y.startCall? (.call k) = some ⟨e, context, point⟩ :=
          startCall?_call_iff.2 hk
        simp [hnone] at hsome
      refine ⟨?_, Option.eq_none_iff_forall_ne_some.2 fun c hsome => ?_⟩
      · unfold Caller.actor working
        dsimp only
        split
        · exact absurd ‹_› (hother _ _ _)
        · rfl
      · obtain ⟨call, u, call', hcall, hmove, rfl⟩ := callMove_of_mem (List.mem_of_getElem? hz)
        have hu : u.calls[k]? = some call := hmove.calls ▸ hcall
        obtain rfl := Option.some.inj ((getElem?_callAt hu).symm.trans
          (startCall?_call_iff.1 hsome))
        cases hmove with
        | goOn => exact hother _ _ _ hcall
  | worker i j e =>
      obtain ⟨s, w, _, _, hs, hw, -, -⟩ := workerMove_of_getElem? hz
      simp [startCall?, hs, hw] at hnone

/-- In every step a start call either makes a move or stays where it is. -/
theorem ReachableBy.ownMove_cases (h : y.ReachableBy allowed) (hz : y.step? a = some z)
    (hwho : y.Names who) :
    (y.ownMove? who a = none ∧ z.startCall? who = y.startCall? who ∧
        (a.isMoveOf who = true → y.working a = none)) ∨
      ∃ (c : StartCall) (choice : Nat) (u : System) (status : CallStatus),
        y.startCall? who = some c ∧ y.callMove? c choice = some (u, status) ∧
          y.ownMove? who a = some (u, status) ∧ u.Resumes z ∧
            z.startCall? who = status.startCall? c := by
  by_cases hown : ∃ choice, a = .move who.actor choice
  · obtain ⟨choice, rfl⟩ := hown
    cases hcall : y.startCall? who with
    | none =>
        obtain ⟨hworking, hz'⟩ := startCall?_eq_none_of_move hz hcall
        exact .inl ⟨by simp [ownMove?, hcall], hz', fun _ => hworking⟩
    | some c =>
        obtain ⟨u, status, hmade, hresumes, hz'⟩ := h.startCall?_of_move hz hcall
        exact .inr ⟨c, choice, u, status, rfl, hmade, by simp [ownMove?, hcall, hmade], hresumes,
          hz'⟩
  · have hne : ∀ choice, a ≠ .move who.actor choice := fun choice heq => hown ⟨choice, heq⟩
    have hother : a.isMoveOf who = false ∧ y.ownMove? who a = none := by
      cases a with
      | move actor choice =>
          have hactor : actor ≠ who.actor := fun heq => hne choice (heq ▸ rfl)
          exact ⟨by simpa [Step.isMoveOf] using hactor, by simp [ownMove?, hactor]⟩
      | _ => exact ⟨rfl, rfl⟩
    refine .inl ⟨hother.2, h.startCall?_of_step hz hwho hne, fun hmove => ?_⟩
    exact absurd hmove (hother.1 ▸ Bool.false_ne_true)

/-- Between the moves of a start call to which its executor is left, the executor changes in nothing
but its halt flags: none is added and none taken back. -/
theorem follows_of_leavesTo {x : Executor} (hz : y.step? a = some z)
    (ha : y.leavesTo who e a = true) (hidle : a.isMoveOf who = true → y.working a = none)
    (hx : y.executors[e]? = some x) :
    ∃ x' : Executor, z.executors[e]? = some x' ∧ x.Follows False x' := by
  obtain ⟨-, ha⟩ := Bool.and_eq_true_iff.1 ha
  obtain ⟨x', hx', hfollows⟩ := (proceeds_of_step hz).executors e x hx
  refine ⟨x', hx', hfollows.mono fun hworking => ?_⟩
  obtain hmove | hother := Bool.or_eq_true_iff.1 ha
  · rw [hidle hmove] at hworking
    cases hworking
  · simp [hworking] at hother

/-! ## Contexts of start calls -/

theorem ReachableBy.hasContext_of_start {k : CallId} {context : ContextId} {point : CallPoint}
    (h : y.ReachableBy allowed) (hk : y.calls[k]? = some (.start e context point)) :
    y.hasContext context = true := by
  induction h generalizing point with
  | create origin => simp [System.create] at hk
  | @step u z _ _ _ hz ih =>
      have hkeep {point : CallPoint} (hk : u.calls[k]? = some (.start e context point)) :
          z.hasContext context = true := (proceeds_of_step hz).hasContext (ih hk)
      cases callsStep_of_step hz with
      | kept h => exact hkeep (h ▸ hk)
      | @made call haccepts h =>
          rw [h, Array.getElem?_push] at hk
          split at hk
          · obtain rfl := Option.some.inj hk
            rw [h]
            cases point with
            | entered => exact (Bool.and_eq_true_iff.1 haccepts).2
            | _ => cases haccepts
          · exact hkeep hk
      | @moved k' _ call call' v hcall hmove h =>
          by_cases heq : k' = k
          · subst heq
            have hv : v.calls[k']? = some call := hmove.calls ▸ hcall
            rw [h, getElem?_callAt hv] at hk
            obtain rfl := Option.some.inj hk
            cases hmove with
            | goOn => exact hkeep hcall
          · have hlook : (v.callAt k' call').calls[k]? = v.calls[k]? :=
              Array.getElem?_modify.trans (if_neg heq)
            rw [h, hlook, hmove.calls] at hk
            exact hkeep hk

/-- The context of a start call exists. -/
theorem ReachableBy.hasContext_of_startCall? (h : y.ReachableBy allowed)
    (hcall : y.startCall? who = some c) : y.hasContext c.context = true := by
  cases who with
  | call k => exact h.hasContext_of_start (startCall?_call_iff.1 hcall)
  | worker i j e =>
      obtain ⟨s, n, w, hs, hn, hw, rfl, rfl⟩ := h.startCall?_worker_iff.1 hcall
      obtain ⟨node, hnode, -⟩ := (h.hosts hs (h.enlists hs j n hn w hw)).context
      exact decide_eq_true (Array.getElem?_eq_some_iff.1 hnode).1

theorem ReachableBy.ordered (h : y.ReachableBy allowed) : y.contexts.Ordered := by
  induction h with
  | create origin =>
      intro c a ha
      rw [ContextTree.lineage_of_size_le (Nat.zero_le c)] at ha
      cases ha
  | step _ _ hz ih => exact (proceeds_of_step hz).contexts.ordered ih

end System

end Scheduling
