import Scheduling.Proofs.Changes
import Scheduling.Proofs.Loops
/-!
# What a step does to a session

The changes of a scheduler, seen from one of its sessions: each is one move of a loop or a worker
of that session, with what it does to the queue, the cron table and the executing plans, or it does
not touch the session.
-/

namespace Scheduling

/-- What a scheduler keeps beside its sessions and its settings. -/
structure Scheduler.Stores where
  queue : Queue Plan
  cron : Cron.Table Plan
  cronIds : Registry String Cron.EntryId
  executing : Registry String Execution
  running : Bool

def Scheduler.stores (s : Scheduler) : Scheduler.Stores :=
  ⟨s.queue, s.cron, s.cronIds, s.executing, s.running⟩

/-- The stores after the fetch loop has ended: the queue is empty. -/
def Scheduler.Stores.withoutQueued (x : Scheduler.Stores) : Scheduler.Stores :=
  { x with queue := x.queue.reset }

/-- The stores after the dispatch loop has ended: the cron table is empty and stands still. -/
def Scheduler.Stores.withoutScheduled (x : Scheduler.Stores) : Scheduler.Stores :=
  { x with cron := x.cron.clear.stop, cronIds := Registry.empty }

/-- How the step `a` of a system from `y` to `z` changes the session `j` of its scheduler `i`, which
is `s`, and what the stores of the scheduler are after it. -/
inductive Session.Change (y z : System) (a : Step) (i : SchedulerId) (j : SessionId)
    (s : Scheduler) (n : Session) : Scheduler.Stores → Session → Prop
  /-- The step is about something else. -/
  | idle : Change y z a i j s n s.stores n
  | endFetch (h : ∀ p, n.fetch ≠ .sending p) (hended : n.fetch ≠ .ended)
      (hstop : y.contexts.isDone n.shutdown = true ∨ s.queue.blocking = false) :
      Change y z a i j s n s.stores.withoutQueued { n with fetch := .ended }
  | wait {point : PopPoint} (h : n.fetch = .popping point)
      (htake : s.queue.takeFirst y.planOrder = none) :
      Change y z a i j s n s.stores { n with fetch := .popping (.waiting s.queue.wakeups) }
  | hold {point : PopPoint} {p : Plan} {queue : Queue Plan} (h : n.fetch = .popping point)
      (htake : s.queue.takeFirst y.planOrder = some (p, queue)) (hp : p.exclusive = true) :
      Change y z a i j s n { s.stores with queue := queue } { n with fetch := .holding p }
  | send {point : PopPoint} {p : Plan} {queue : Queue Plan} (h : n.fetch = .popping point)
      (htake : s.queue.takeFirst y.planOrder = some (p, queue)) (hp : p.exclusive = false) :
      Change y z a i j s n { s.stores with queue := queue }
        { n with fetch := .sending p, inFlight := n.inFlight + 1 }
  /-- Nothing is in flight, so the exclusive plan is sent. -/
  | sendHeld {p : Plan} (h : n.fetch = .holding p) (h0 : n.inFlight = 0) :
      Change y z a i j s n s.stores { n with fetch := .sending p, inFlight := n.inFlight + 1 }
  | giveUp {p : Plan} (h : n.fetch = .sending p)
      (hstop : y.contexts.isDone n.shutdown = true ∨ n.dispatch.isOver = true) :
      Change y z a i j s n s.stores.withoutQueued
        { n with fetch := .ended, inFlight := n.inFlight - 1 }
  | put {p : Plan} (h : n.fetch = .sending p) (hslot : n.slot = none)
      (hover : n.dispatch.isOver = false) :
      Change y z a i j s n s.stores { n with fetch := Scheduler.afterSending p, slot := some p }
  | resume (h : n.fetch = .draining) (h0 : n.inFlight = 0) :
      Change y z a i j s n s.stores { n with fetch := .popping .fresh }
  /-- The dispatch loop makes the permits. -/
  | openSlots (h : n.dispatch = .opening) (hmax : s.maxConcurrency ≤ Scheduler.permitLimit) :
      Change y z a i j s n s.stores { n with dispatch := .acquiring, permits := s.maxConcurrency }
  | crash (h : n.dispatch = .opening) (hmax : Scheduler.permitLimit < s.maxConcurrency) :
      Change y z a i j s n s.stores { n with dispatch := .crashed, slot := none }
  | acquire (h : n.dispatch = .acquiring) (hpos : 0 < n.permits) :
      Change y z a i j s n s.stores { n with dispatch := .receiving, permits := n.permits - 1 }
  | stopAcquiring {s₁ : Scheduler} (h : n.dispatch = .acquiring)
      (hstop : y.contexts.isDone n.shutdown = true)
      (hz : z = s.executing.values.foldl System.cancelExecution (y.setScheduler i s₁)) :
      Change y z a i j s n s.stores.withoutScheduled { n with dispatch := .ended, slot := none }
  | stopReceiving {s₁ : Scheduler} (h : n.dispatch = .receiving)
      (hstop : y.contexts.isDone n.shutdown = true ∨ n.slot = none ∧ n.fetch = .ended)
      (hz : z = s.executing.values.foldl System.cancelExecution (y.setScheduler i s₁)) :
      Change y z a i j s n s.stores.withoutScheduled
        { n with dispatch := .ended, slot := none, permits := n.permits + 1 }
  | skip {p : Plan} {s₁ : Scheduler} (h : n.dispatch = .receiving) (hslot : n.slot = some p)
      (hx : s.isExecuting p.key = true) (hz : z = y.setScheduler i s₁) :
      Change y z a i j s n s.stores
        { n with
          dispatch := .acquiring
          slot := none
          inFlight := n.inFlight - 1
          permits := n.permits + 1 }
  | enter {p : Plan} {choice : Nat} (h : n.dispatch = .receiving) (hslot : n.slot = some p)
      (hx : s.isExecuting p.key = false) (ha : a = .move (.dispatch i j) choice)
      (hc : z.contexts = (y.contexts.child p.context).2)
      (hz : z.executors =
        y.executors.push (Executor.create p.task (p.options.getD s.defaults))) :
      Change y z a i j s n
        { s.stores with
          executing :=
            s.executing.insert p.key ⟨y.executors.size, y.contexts.nodes.size⟩ }
        { n with
          dispatch := .acquiring
          slot := none
          workers := n.workers ++ [⟨p, y.executors.size, y.contexts.nodes.size, .entered⟩] }
  | work {w : Worker} {point : CallPoint} (h : w ∈ n.workers) (hpoint : point ≠ .entered)
      (ha : y.Advances a z i j w (.at point)) :
      Change y z a i j s n s.stores
        { n with
          workers := n.workers.map fun v =>
            if v.executor = w.executor then { v with point := point } else v }
  | endWorker {w : Worker} {outcome : Outcome} (h : w ∈ n.workers)
      (ha : y.Advances a z i j w (.ended (.returned outcome))) :
      Change y z a i j s n { s.stores with executing := s.executing.erase w.key }
        { n with
          workers := n.workers.filter (·.executor ≠ w.executor)
          permits := n.permits + 1
          inFlight := n.inFlight - 1 }
  | crashWorker {w : Worker} {text : String} (h : w ∈ n.workers)
      (hcrash : y.crashesWorker i j a = true)
      (ha : y.Advances a z i j w (.ended (.panicked text))) :
      Change y z a i j s n s.stores
        { n with
          workers := n.workers.filter (·.executor ≠ w.executor)
          permits := n.permits + 1 }
  | close (hfetch : n.fetch = .ended) (hover : n.dispatch.isOver = true)
      (hclosed : n.closed = false) :
      Change y z a i j s n { s.stores with running := false } { n with closed := true }

/-- What does not depend on the point of a worker stays when workers move on. -/
theorem Worker.map_at {α : Type} (f : Worker → α)
    (hf : ∀ (w : Worker) (point : CallPoint), f { w with point := point } = f w)
    (workers : List Worker) (e : ExecutorId) (point : CallPoint) :
    (workers.map fun w => if w.executor = e then { w with point := point } else w).map f =
      workers.map f := by
  rw [List.map_map]
  refine List.map_congr_left fun w _ => ?_
  dsimp only [Function.comp]
  split
  · exact hf w point
  · rfl

namespace Scheduler

@[simp] theorem stores_executing (s : Scheduler) : s.stores.executing = s.executing := rfl

@[simp] theorem stores_modifySession (s : Scheduler) (j : SessionId)
    (f : Session → Session) : (s.modifySession j f).stores = s.stores := rfl

@[simp] theorem stores_skip (s : Scheduler) (j : SessionId) : (s.skip j).stores = s.stores := by
  simp only [skip, release, countDown, stores_modifySession]

/-- The second scheduler has the settings of the first. -/
structure SameSettings (s s' : Scheduler) : Prop where
  maxConcurrency : s'.maxConcurrency = s.maxConcurrency
  defaults : s'.defaults = s.defaults

namespace SameSettings

variable {s s' : Scheduler} {j : SessionId}

theorem modify {f : Session → Session} (h : s.SameSettings s') :
    s.SameSettings (s'.modifySession j f) :=
  ⟨h.maxConcurrency, h.defaults⟩

theorem skip (h : s.SameSettings s') : s.SameSettings (s'.skip j) := h.modify.modify

end SameSettings

/-- The second scheduler has the sessions of the first but for one, which was `n` and is `n'`. -/
structure Edits (s s' : Scheduler) (j : SessionId) (n n' : Session) : Prop where
  before : s.sessions[j]? = some n
  sessions : s'.sessions = s.sessions.setIfInBounds j n'

namespace Edits

variable {s s' : Scheduler} {j : SessionId} {n n' : Session}

theorem refl (hn : s.sessions[j]? = some n) : s.Edits s j n n where
  before := hn
  sessions := by
    refine Array.ext_getElem? fun k => ?_
    rw [Array.getElem?_setIfInBounds]
    split
    · rename_i hk
      subst hk
      obtain ⟨hlt, -⟩ := Array.getElem?_eq_some_iff.1 hn
      rw [if_pos hlt, hn]
    · rfl

/-- One more change of the session; the rest of the scheduler may have changed as well. -/
theorem andThen {u : Scheduler} {f : Session → Session} (h : s.Edits s' j n n')
    (hu : u.sessions = s'.sessions) : s.Edits (u.modifySession j f) j n (f n') where
  before := h.before
  sessions := by
    refine Array.ext_getElem? fun k => ?_
    change (u.sessions.modify j f)[k]? = _
    rw [Array.getElem?_modify, hu, h.sessions, Array.getElem?_setIfInBounds,
      Array.getElem?_setIfInBounds]
    split
    · simp
    · rfl

theorem once {u : Scheduler} {f : Session → Session} (hn : s.sessions[j]? = some n)
    (hu : u.sessions = s.sessions) : s.Edits (u.modifySession j f) j n (f n) :=
  (refl hn).andThen hu

theorem twice {u : Scheduler} {f g : Session → Session} (hn : s.sessions[j]? = some n)
    (hu : u.sessions = s.sessions) :
    s.Edits ((u.modifySession j f).modifySession j g) j n (g (f n)) :=
  (once hn hu).andThen rfl

theorem skip (h : s.Edits s' j n n') :
    s.Edits (s'.skip j) j n
      { n' with inFlight := n'.inFlight - 1, permits := n'.permits + 1 } := by
  have hcount : s.Edits (s'.countDown j) j n { n' with inFlight := n'.inFlight - 1 } :=
    h.andThen rfl
  exact hcount.andThen rfl

theorem enter {p : Plan} {x : Execution} (h : s.Edits s' j n n') :
    s.Edits (s'.enter j p x) j n
      { n' with workers := n'.workers ++ [⟨p, x.executor, x.context, .entered⟩] } :=
  h.andThen rfl

theorem endWorker {w : Worker} (hn : s.sessions[j]? = some n) :
    s.Edits (s.endWorker j w) j n
      { n with
        workers := n.workers.filter (·.executor ≠ w.executor)
        permits := n.permits + 1
        inFlight := n.inFlight - 1 } := by
  have hdrop : s.Edits ({ s with executing := s.executing.erase w.key }.dropWorker j w.executor) j
      n { n with workers := n.workers.filter (·.executor ≠ w.executor) } := .once hn rfl
  have hrelease : s.Edits
      (({ s with executing := s.executing.erase w.key }.dropWorker j w.executor).release j) j n
      { n with
        workers := n.workers.filter (·.executor ≠ w.executor)
        permits := n.permits + 1 } := hdrop.andThen rfl
  exact hrelease.andThen rfl

theorem after (h : s.Edits s' j n n') : s'.sessions[j]? = some n' := by
  obtain ⟨hlt, -⟩ := Array.getElem?_eq_some_iff.1 h.before
  rw [h.sessions, Array.getElem?_setIfInBounds, if_pos rfl, if_pos hlt]

/-- A session of the second scheduler is the one that was changed, or was there before. -/
theorem session {k : SessionId} {m : Session} (h : s.Edits s' j n n')
    (hm : s'.sessions[k]? = some m) :
    k = j ∧ m = n' ∨ k ≠ j ∧ s.sessions[k]? = some m := by
  rw [h.sessions, Array.getElem?_setIfInBounds] at hm
  split at hm
  · rename_i hk
    split at hm
    · exact .inl ⟨hk.symm, (Option.some.inj hm).symm⟩
    · cases hm
  · rename_i hk
    exact .inr ⟨fun h => hk h.symm, hm⟩

end Edits

section Moves

variable {y z : System} {a : Step} {i : SchedulerId} {j : SessionId} {s s' : Scheduler}

theorem stopping_eq {n : Session} (hn : s.sessions[j]? = some n) :
    y.stopping s j = y.contexts.isDone n.shutdown := by
  simp [System.stopping, hn]

theorem edits_of_mem_fetchMoves (h : s' ∈ s.fetchMoves j (y.stopping s j) y.planOrder) :
    ∃ n n' : Session, s.Edits s' j n n' ∧ s.SameSettings s' ∧
      n.Change y z a i j s s'.stores n' := by
  obtain ⟨n, hn, hmove⟩ := fetchMove_of_mem h
  rw [stopping_eq hn] at hmove
  refine ⟨n, ?_⟩
  cases hmove with
  | stop hfetch hended hstop => exact ⟨_, .once hn rfl, ⟨rfl, rfl⟩, .endFetch hfetch hended hstop⟩
  | wait hfetch htake => exact ⟨_, .once hn rfl, ⟨rfl, rfl⟩, .wait hfetch htake⟩
  | take hfetch htake =>
      unfold fetched
      split
      · rename_i hp
        exact ⟨_, .once hn rfl, ⟨rfl, rfl⟩, .hold hfetch htake hp⟩
      · rename_i hp
        exact ⟨_, .twice hn rfl, ⟨rfl, rfl⟩, .send hfetch htake (by simpa using hp)⟩
  | sendHeld hfetch h0 => exact ⟨_, .twice hn rfl, ⟨rfl, rfl⟩, .sendHeld hfetch h0⟩
  | giveUp hfetch hstop =>
      have hcount : s.Edits (s.countDown j) j n { n with inFlight := n.inFlight - 1 } :=
        .once hn rfl
      exact ⟨_, hcount.andThen rfl, ⟨rfl, rfl⟩, .giveUp hfetch hstop⟩
  | put hfetch hslot hover =>
      exact ⟨_, .twice hn rfl, ⟨rfl, rfl⟩, .put hfetch hslot hover⟩
  | resume hfetch h0 => exact ⟨_, .once hn rfl, ⟨rfl, rfl⟩, .resume hfetch h0⟩

theorem edits_of_mem_dispatchMoves {effect : DispatchEffect}
    (h : (s', effect) ∈ s.dispatchMoves j (y.stopping s j)) (he : ∀ p, effect ≠ .accept p)
    (hz : effect = .cancelAll →
      z = s'.executing.values.foldl System.cancelExecution (y.setScheduler i s')) :
    ∃ n n' : Session, s.Edits s' j n n' ∧ s.SameSettings s' ∧
      n.Change y z a i j s s'.stores n' := by
  obtain ⟨n, hn, hmove⟩ := dispatchMove_of_mem h
  rw [stopping_eq hn] at hmove
  refine ⟨n, ?_⟩
  cases hmove with
  | openSlots hopening hmax => exact ⟨_, .twice hn rfl, ⟨rfl, rfl⟩, .openSlots hopening hmax⟩
  | crash hopening hmax => exact ⟨_, .twice hn rfl, ⟨rfl, rfl⟩, .crash hopening hmax⟩
  | acquire hacquiring hpos => exact ⟨_, .twice hn rfl, ⟨rfl, rfl⟩, .acquire hacquiring hpos⟩
  | stopAcquiring hacquiring hstop =>
      exact ⟨_, .once hn rfl, ⟨rfl, rfl⟩, .stopAcquiring hacquiring hstop (hz rfl)⟩
  | stopReceiving hreceiving hstop =>
      have hrelease : s.Edits (s.release j) j n { n with permits := n.permits + 1 } :=
        .once hn rfl
      exact ⟨_, hrelease.andThen rfl, ⟨rfl, rfl⟩, .stopReceiving hreceiving hstop (hz rfl)⟩
  | receive => exact absurd rfl (he _)

/-- A plan is received by a loop that holds a permit, and leaves the channel empty. -/
theorem accept_of_mem_dispatchMoves {stopping : Bool} {p : Plan}
    (h : (s', .accept p) ∈ s.dispatchMoves j stopping) :
    ∃ n : Session, s.sessions[j]? = some n ∧ n.dispatch = .receiving ∧ n.slot = some p ∧
      s' = (s.modifySession j fun n => { n with slot := none }).dispatchAt j .acquiring := by
  obtain ⟨n, hn, hmove⟩ := dispatchMove_of_mem h
  cases hmove with
  | receive hreceiving hslot => exact ⟨n, hn, hreceiving, hslot, rfl⟩

theorem mem_of_worker? {e : ExecutorId} {w : Worker} (h : s.worker? j e = some w) :
    ∃ n : Session, s.sessions[j]? = some n ∧ w ∈ n.workers := by
  obtain ⟨n, hn, hfind⟩ := Option.bind_eq_some_iff.1 h
  exact ⟨n, hn, List.mem_of_find?_eq_some hfind⟩

end Moves

/-! ## Registrations -/

section Registrations

variable {s s' : Scheduler}

/-- The second scheduler differs from the first at most in its queue, its cron table and who waits
for its session. -/
structure Registers (s s' : Scheduler) : Prop extends s.SameSettings s' where
  executing : s'.executing = s.executing
  sessions : s'.sessions = s.sessions
  running : s'.running = s.running

theorem Registers.trans {s'' : Scheduler} (h : s.Registers s') (h' : s'.Registers s'') :
    s.Registers s'' where
  maxConcurrency := h'.maxConcurrency.trans h.maxConcurrency
  defaults := h'.defaults.trans h.defaults
  executing := h'.executing.trans h.executing
  sessions := h'.sessions.trans h.sessions
  running := h'.running.trans h.running

theorem registers_register (s : Scheduler) (p : Plan) : s.Registers (s.register p) := by
  unfold register
  split
  · exact ⟨⟨rfl, rfl⟩, rfl, rfl, rfl⟩
  · split
    · exact ⟨⟨rfl, rfl⟩, rfl, rfl, rfl⟩
    · exact ⟨⟨rfl, rfl⟩, rfl, rfl, rfl⟩

theorem registers_foldl_register (s : Scheduler) (plans : List Plan) :
    s.Registers (plans.foldl register s) :=
  List.foldlRecOn plans register ⟨⟨rfl, rfl⟩, rfl, rfl, rfl⟩ fun s' h p _ =>
    h.trans (registers_register s' p)

theorem eq_foldl_of_add {plans : List Plan} (h : s.add plans = .ok s') :
    s' = (plans.filter accepts).foldl register s := by
  unfold Scheduler.add at h
  dsimp only at h
  split at h
  · cases h
  · cases h
    rfl

theorem registers_of_add {plans : List Plan} (h : s.add plans = .ok s') : s.Registers s' := by
  rw [eq_foldl_of_add h]
  exact registers_foldl_register s _

theorem registers_unschedule (s : Scheduler) (key : String) : s.Registers (s.unschedule key) := by
  unfold unschedule
  split <;> exact ⟨⟨rfl, rfl⟩, rfl, rfl, rfl⟩

theorem queue_unschedule (s : Scheduler) (key : String) : (s.unschedule key).queue = s.queue := by
  unfold unschedule
  split <;> rfl

/-- What a timer that goes on does: it moves on within the table, and what it fires is queued. -/
theorem advanceTimer_cases {clock : Clock} {timer : Cron.TimerId}
    (h : s.advanceTimer clock timer = some s') :
    ∃ (fired : Option Plan) (cron : Cron.Table Plan),
      s.cron.advance clock timer = some (fired, cron) ∧
      s' = { s with
        cron := cron
        queue := match fired with
          | some p => s.queue.push [p]
          | none => s.queue } := by
  unfold advanceTimer at h
  split at h
  · cases h
  · rename_i cron hadvance
    cases h
    exact ⟨none, cron, hadvance, rfl⟩
  · rename_i p cron hadvance
    cases h
    exact ⟨some p, cron, hadvance, rfl⟩

theorem registers_of_advanceTimer {clock : Clock} {timer : Cron.TimerId}
    (h : s.advanceTimer clock timer = some s') : s.Registers s' := by
  obtain ⟨fired, cron, -, rfl⟩ := advanceTimer_cases h
  exact ⟨⟨rfl, rfl⟩, rfl, rfl, rfl⟩

theorem Registration.registers {y : System} {a : Step} {i : SchedulerId}
    (h : s.Registration y a i s') : s.Registers s' := by
  cases h with
  | idle | unsupervise => exact ⟨⟨rfl, rfl⟩, rfl, rfl, rfl⟩
  | add _ hadd => exact registers_of_add hadd
  | remove => exact (registers_unschedule s _).trans ⟨⟨rfl, rfl⟩, rfl, rfl, rfl⟩
  | timer _ hadvance => exact registers_of_advanceTimer hadvance

end Registrations

/-! ## All changes -/

/-- A change of a scheduler is a registration, the change of one session, or a new session. -/
inductive Outcome (y z : System) (a : Step) (i : SchedulerId) (s s' : Scheduler) : Prop
  | registered (h : s.Registration y a i s')
  | edited {j : SessionId} {n n' : Session} (hset : s.SameSettings s') (hedit : s.Edits s' j n n')
      (h : n.Change y z a i j s s'.stores n')
  | started {c : ContextId} (ha : a = .request (.startScheduler i c)) (hrun : s.running = false)
      (h : s' = s.start y.contexts.nodes.size)

theorem Change.outcome {y z : System} {a : Step} {i : SchedulerId} {s s' : Scheduler}
    (h : s.Change y z a i s') : s.Outcome y z a i s' := by
  cases h with
  | registration h => exact .registered h
  | start ha h => exact .started ha h rfl
  | fetch h =>
      obtain ⟨n, n', hedit, hset, hn⟩ := edits_of_mem_fetchMoves h
      exact .edited hset hedit hn
  | dispatch h he hz =>
      obtain ⟨n, n', hedit, hset, hn⟩ := edits_of_mem_dispatchMoves h he hz
      exact .edited hset hedit hn
  | @skip j _ p h hx hz =>
      obtain ⟨n, hn, hreceiving, hslot, rfl⟩ := accept_of_mem_dispatchMoves h
      have hedit : s.Edits
          ((s.modifySession j fun n => { n with slot := none }).dispatchAt j .acquiring) j n
          { n with dispatch := .acquiring, slot := none } := .twice hn rfl
      have hset : s.SameSettings
          ((s.modifySession j fun n => { n with slot := none }).dispatchAt j .acquiring) :=
        ⟨rfl, rfl⟩
      refine .edited hset.skip hedit.skip ?_
      simp only [stores_skip, dispatchAt, stores_modifySession]
      exact .skip hreceiving hslot hx hz
  | @enter j _ p _ h hx ha hc hz =>
      obtain ⟨n, hn, hreceiving, hslot, rfl⟩ := accept_of_mem_dispatchMoves h
      have hedit : s.Edits
          ((s.modifySession j fun n => { n with slot := none }).dispatchAt j .acquiring) j n
          { n with dispatch := .acquiring, slot := none } := .twice hn rfl
      exact .edited ⟨rfl, rfl⟩ hedit.enter (.enter hreceiving hslot hx ha hc hz)
  | work h hp ha =>
      obtain ⟨n, hn, hw⟩ := mem_of_worker? h
      exact .edited ⟨rfl, rfl⟩ (.once hn rfl) (.work hw hp ha)
  | endWorker h ha =>
      obtain ⟨n, hn, hw⟩ := mem_of_worker? h
      exact .edited ⟨rfl, rfl⟩ (.endWorker hn) (.endWorker hw ha)
  | crashWorker h hc ha =>
      obtain ⟨n, hn, hw⟩ := mem_of_worker? h
      exact .edited ⟨rfl, rfl⟩ (.twice hn rfl) (.crashWorker hw hc ha)
  | close _ h =>
      obtain ⟨n, hn, hfetch, hover, hclosed, rfl⟩ := close?_eq_some_iff.1 h
      exact .edited ⟨rfl, rfl⟩ (.once hn rfl) (.close hfetch hover hclosed)

theorem Change.sameSettings {y z : System} {a : Step} {i : SchedulerId} {s s' : Scheduler}
    (h : s.Change y z a i s') : s.SameSettings s' := by
  obtain hreg | ⟨hset, -, -⟩ | ⟨-, -, rfl⟩ := h.outcome
  · exact hreg.registers.toSameSettings
  · exact hset
  · exact ⟨rfl, rfl⟩

end Scheduler

/-! ## Steps -/

namespace System

/-- A new scheduler was never started. -/
theorem eq_create_of_build {b : Blueprint} {s : Scheduler} (h : b.build = .ok s) :
    s = Scheduler.create b.maxConcurrency b.zone b.defaults := by
  unfold Blueprint.build at h
  split at h
  · cases h
  · split at h
    · cases h
    · cases h
      rfl

theorem sessions_of_build {b : Blueprint} {s : Scheduler} (h : b.build = .ok s) :
    s.sessions = #[] := by
  rw [eq_create_of_build h]
  rfl

variable {y z : System} {a : Step} {i : SchedulerId} {j : SessionId} {s' : Scheduler}
  {n' : Session}

/-- A session after a step comes from the one before it by a change, or was made just now. -/
theorem session_of_step (h : y.step? a = some z) (hs' : z.schedulers[i]? = some s')
    (hn' : s'.sessions[j]? = some n') :
    (∃ (s : Scheduler) (n : Session), y.schedulers[i]? = some s ∧ s.sessions[j]? = some n ∧
        s.SameSettings s' ∧ ∃ x, n.Change y z a i j s x n') ∨
      n' = Scheduler.Session.create y.contexts.nodes.size := by
  obtain ⟨s, hs, hchange⟩ | ⟨b, -, hb⟩ := change_of_step h hs'
  · obtain hreg | ⟨hset, hedit, hn⟩ | ⟨-, -, rfl⟩ := hchange.outcome
    · rw [hreg.registers.sessions] at hn'
      exact .inl ⟨s, n', hs, hn', hreg.registers.toSameSettings, s.stores, .idle⟩
    · obtain ⟨rfl, rfl⟩ | ⟨hj, hkept⟩ := hedit.session hn'
      · exact .inl ⟨s, _, hs, hedit.before, hset, _, hn⟩
      · exact .inl ⟨s, n', hs, hkept, hset, s.stores, .idle⟩
    · simp only [Scheduler.start, Array.getElem?_push] at hn'
      split at hn'
      · exact .inr (Option.some.inj hn').symm
      · exact .inl ⟨s, n', hs, hn', ⟨rfl, rfl⟩, s.stores, .idle⟩
  · rw [sessions_of_build hb] at hn'
    simp at hn'

end System

end Scheduling
