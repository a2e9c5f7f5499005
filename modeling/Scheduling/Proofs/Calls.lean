import Scheduling.Proofs.Work
import Scheduling.System.Calls
/-!
# Moves of calls and workers

`callMove_of_mem` says once what the moves of a call are: what the call was, what it does around
itself, and what it is afterwards. `workerMove_of_getElem?` does so for the workers of schedulers.
-/

namespace Scheduling

theorem Scheduler.executor_of_worker? {s : Scheduler} {j : SessionId} {e : ExecutorId}
    {w : Worker} (h : s.worker? j e = some w) : w.executor = e := by
  obtain ⟨n, -, hfind⟩ := Option.bind_eq_some_iff.1 h
  simpa using List.find?_some hfind

namespace System

theorem getElem?_setScheduler {y : System} {i : SchedulerId} {s : Scheduler}
    (hs : y.schedulers[i]? = some s) (s' : Scheduler) :
    (y.setScheduler i s').schedulers[i]? = some s' := by
  change (y.schedulers.modify i fun _ => s')[i]? = some s'
  rw [Array.getElem?_modify, if_pos rfl, hs]
  rfl

/-- A call can turn the first system into the second, after which it stands at the second call. -/
inductive CallMove (y : System) : Call → System → Call → Prop
  | cancelSleep {c : ContextId} {wake : Instant} (h : y.contexts.isDone c = true) :
      CallMove y (.sleep c wake) y
        (.ended y.clock.millis (.outcome (.error (y.doneError c))))
  | wakeUp {c : ContextId} {wake : Instant} (h : wake ≤ y.now) :
      CallMove y (.sleep c wake) y (.ended y.clock.millis (.outcome (.ok ())))
  | contextDone {c : ContextId} (h : y.contexts.isDone c = true) :
      CallMove y (.awaitContext c) y
        (.ended y.clock.millis (.contextError (y.contexts.error? c)))
  | taskDone {t : TaskId} (h : ¬ y.tasks[t]?.any (·.pending) = true) :
      CallMove y (.awaitTask t) y (.ended y.clock.millis (.state (y.state t)))
  | goOn {e : ExecutorId} {c : ContextId} {point point' : CallPoint} {u : System}
      (h : (u, .at point') ∈ y.executionMoves e c point) :
      CallMove y (.start e c point) u (.start e c point')
  | returns {e : ExecutorId} {c : ContextId} {point : CallPoint} {u : System} {outcome : Outcome}
      (h : (u, .ended (.returned outcome)) ∈ y.executionMoves e c point) :
      CallMove y (.start e c point) u (.ended u.clock.millis (.outcome outcome))
  | panics {e : ExecutorId} {c : ContextId} {point : CallPoint} {u : System} {text : String}
      (h : (u, .ended (.panicked text)) ∈ y.executionMoves e c point) :
      CallMove y (.start e c point) u (.ended u.clock.millis (.panicked text))
  | stopAndWait {e : ExecutorId} {x : Executor} (h : y.executors[e]? = some x) :
      CallMove y (.stop e true) (y.cancelExecutor e).2 (.awaitTask x.task)
  | stop {e : ExecutorId} {x : Executor} (h : y.executors[e]? = some x) :
      CallMove y (.stop e false) (y.cancelExecutor e).2
        (.ended (y.cancelExecutor e).2.clock.millis
          (.state ((y.cancelExecutor e).2.state x.task)))
  | waitOn {q : QueueId} {point point' : PopPoint} {queue queue' : Queue Plan}
      (h : y.queues[q]? = some queue)
      (hpop : queue.pop y.planOrder point = some (.waits point', queue')) :
      CallMove y (.pop q point) { y with queues := y.queues.modify q fun _ => queue' }
        (.pop q point')
  | pop {q : QueueId} {point : PopPoint} {queue queue' : Queue Plan} {plan : Except Error Plan}
      (h : y.queues[q]? = some queue)
      (hpop : queue.pop y.planOrder point = some (.ended plan, queue')) :
      CallMove y (.pop q point) { y with queues := y.queues.modify q fun _ => queue' }
        (.ended y.clock.millis (.plan (plan.map fun p => (p, y.state p.task))))
  | awaitEnd {i : SchedulerId} {j : SessionId} {wait : Bool} {u : System}
      (h : y.requestStop i wait = (some j, u)) :
      CallMove y (.stopScheduler i wait) u (.awaitSession i j)
  | stopScheduler {i : SchedulerId} {wait : Bool} {u : System}
      (h : y.requestStop i wait = (none, u)) :
      CallMove y (.stopScheduler i wait) u (.ended u.clock.millis (.running (u.isRunning i)))
  | sessionEnded {i : SchedulerId} {j : SessionId}
      (h : y.schedulers[i]?.any (·.isClosed j) = true) :
      CallMove y (.awaitSession i j) y (.ended y.clock.millis (.running (y.isRunning i)))

variable {y z : System}

theorem callMove_of_mem {k : CallId} (h : z ∈ y.callMoves k) :
    ∃ (call : Call) (u : System) (call' : Call), y.calls[k]? = some call ∧
      y.CallMove call u call' ∧ z = u.callAt k call' := by
  unfold callMoves at h
  split at h
  · simp at h
  · rename_i call hcall
    refine ⟨call, ?_⟩
    split at h
    · rcases List.mem_append.1 h with h | h
      · obtain ⟨hdone, rfl⟩ := of_mem_guarded h
        exact ⟨_, _, hcall, .cancelSleep hdone, rfl⟩
      · obtain ⟨hwake, rfl⟩ := of_mem_guarded h
        exact ⟨_, _, hcall, .wakeUp hwake, rfl⟩
    · obtain ⟨hdone, rfl⟩ := of_mem_guarded h
      exact ⟨_, _, hcall, .contextDone hdone, rfl⟩
    · split at h
      · simp at h
      · rename_i hpending
        obtain rfl := List.mem_singleton.1 h
        exact ⟨_, _, hcall, .taskDone hpending, rfl⟩
    · obtain ⟨⟨u, status⟩, hmade, rfl⟩ := List.mem_map.1 h
      cases status with
      | «at» point' => exact ⟨_, _, hcall, .goOn hmade, rfl⟩
      | ended result =>
          cases result with
          | returned outcome => exact ⟨_, _, hcall, .returns hmade, rfl⟩
          | panicked text => exact ⟨_, _, hcall, .panics hmade, rfl⟩
    · rename_i e wait
      split at h
      · simp at h
      · rename_i x hx
        cases wait with
        | true =>
            obtain rfl := List.mem_singleton.1 h
            exact ⟨_, _, hcall, .stopAndWait hx, rfl⟩
        | false =>
            obtain rfl := List.mem_singleton.1 h
            exact ⟨_, _, hcall, .stop hx, rfl⟩
    · split at h
      · simp at h
      · rename_i queue hqueue
        split at h
        · simp at h
        · rename_i result queue' hpop
          dsimp only at h
          split at h
          · obtain rfl := List.mem_singleton.1 h
            exact ⟨_, _, hcall, .pop hqueue hpop, rfl⟩
          · obtain rfl := List.mem_singleton.1 h
            exact ⟨_, _, hcall, .waitOn hqueue hpop, rfl⟩
    · split at h
      · rename_i j u hu
        obtain rfl := List.mem_singleton.1 h
        exact ⟨_, _, hcall, .awaitEnd hu, rfl⟩
      · rename_i u hu
        obtain rfl := List.mem_singleton.1 h
        exact ⟨_, _, hcall, .stopScheduler hu, rfl⟩
    · obtain ⟨hclosed, rfl⟩ := of_mem_guarded h
      exact ⟨_, _, hcall, .sessionEnded hclosed, rfl⟩
    · simp at h

/-- A worker of the session `j` goes on as its start call does, which has led to the system `u`. -/
inductive WorkerMove (i : SchedulerId) (j : SessionId) (s : Scheduler) (w : Worker) (u : System) :
    CallStatus → System → Prop
  | goOn {point : CallPoint} (h : point ≠ .entered) :
      WorkerMove i j s w u (.at point) (u.setScheduler i (s.workerAt j w.executor point))
  | returns {outcome : Outcome} :
      WorkerMove i j s w u (.ended (.returned outcome))
        ((u.setScheduler i (s.endWorker j w)).cancelContext w.context)
  | panics {text : String} :
      WorkerMove i j s w u (.ended (.panicked text)) (u.setScheduler i (s.crashWorker j w))

theorem workerMove_of_getElem? {i : SchedulerId} {j : SessionId} {e : ExecutorId} {choice : Nat}
    (h : (y.workerMoves i j e)[choice]? = some z) :
    ∃ (s : Scheduler) (w : Worker) (u : System) (status : CallStatus),
      y.schedulers[i]? = some s ∧ s.worker? j e = some w ∧
      (y.executionMoves w.executor w.context w.point)[choice]? = some (u, status) ∧
      WorkerMove i j s w u status z := by
  cases hfind : y.schedulers[i]?.bind fun s => s.worker? j e with
  | none => simp [workerMoves, hfind] at h
  | some w =>
      obtain ⟨s, hs, hworker⟩ := Option.bind_eq_some_iff.1 hfind
      simp only [workerMoves, hfind, List.getElem?_map] at h
      obtain ⟨⟨u, status⟩, hmade, rfl⟩ := Option.map_eq_some_iff.1 h
      have hmem := List.mem_of_getElem? hmade
      have hbegun : status.Begun := begun_of_mem_executionMoves hmem
      have hu : u.schedulers = y.schedulers := (works_of_mem_executionMoves hmem).schedulers
      refine ⟨s, w, u, status, hs, hworker, hmade, ?_⟩
      simp only [applyWorker, hu, hs]
      cases status with
      | «at» point => exact .goOn hbegun
      | ended result =>
          cases result with
          | returned outcome => exact .returns
          | panicked text => exact .panics

/-- A timer of a table goes on as the table lets it, and leaves a record if it fires. -/
theorem of_mem_tableTimerMoves {i : TableId} {timer : Cron.TimerId}
    (h : z ∈ y.tableTimerMoves i timer) :
    ∃ (t t' : Cron.Table String) (fired : Option String), y.tables[i]? = some t ∧
      t.advance y.clock timer = some (fired, t') ∧
      z = { y with
        tables := y.tables.modify i fun _ => t'
        journal := (fired.map fun name => (y.clock.millis, .fired name)).toList ++ y.journal } := by
  unfold tableTimerMoves at h
  split at h
  · simp at h
  · rename_i fired t' hadvance
    obtain ⟨t, ht, hadvance⟩ := Option.bind_eq_some_iff.1 hadvance
    refine ⟨t, t', fired, ht, hadvance, ?_⟩
    cases fired <;> exact List.mem_singleton.1 h

end System

end Scheduling
