import Scheduling.Proofs.Frames
import Scheduling.Proofs.Stores
/-!
# The life of a session

A loop that is over does not move again, and a session whose two loops are over is closed once,
after which the scheduler may begin the next one: all sessions but the last are closed. Until it is
asked to stop, a session goes on unless its dispatch loop panics at its first move; and its fetch
loop waits only at an empty queue.
-/

namespace Scheduling

/-! ## The loops of a session -/

namespace Session

variable {y z : System} {a : Step} {i : SchedulerId} {j : SessionId} {s : Scheduler}
  {n n' : Session} {x : Scheduler.Stores}

namespace Change

theorem shutdown (h : n.Change y z a i j s x n') : n'.shutdown = n.shutdown := by
  cases h <;> rfl

/-- A fetch loop that has ended does not move again. -/
theorem fetch_ended (h : n.Change y z a i j s x n') (hended : n.fetch = .ended) :
    n'.fetch = .ended := by
  cases h with
  | endFetch | giveUp => rfl
  | wait hfetch | hold hfetch | send hfetch | sendHeld hfetch | put hfetch | resume hfetch =>
      rw [hended] at hfetch
      cases hfetch
  | _ => exact hended

/-- A dispatch loop that is over does not move again. -/
theorem dispatch_over (h : n.Change y z a i j s x n') (hover : n.dispatch.isOver = true) :
    n'.dispatch = n.dispatch := by
  cases h with
  | openSlots hdispatch | crash hdispatch | acquire hdispatch | stopAcquiring hdispatch
  | stopReceiving hdispatch | skip hdispatch | enter hdispatch =>
      rw [hdispatch] at hover
      cases hover
  | _ => rfl

/-- A session is closed in a step of its own, and only when both of its loops are over. -/
theorem closed_or (h : n.Change y z a i j s x n') :
    n'.closed = n.closed ∧ x.running = s.running ∨
      n.closed = false ∧ n'.closed = true ∧ n.fetch = .ended ∧ n.dispatch.isOver = true := by
  cases h with
  | close hfetch hover hclosed => exact .inr ⟨hclosed, rfl, hfetch, hover⟩
  | _ => exact .inl ⟨rfl, rfl⟩

/-- A pop that waits has found the queue empty. -/
theorem waiting {wakeups : Nat} (h : n.Change y z a i j s x n')
    (hfetch : n'.fetch = .popping (.waiting wakeups)) :
    n.fetch = .popping (.waiting wakeups) ∨
      wakeups = s.queue.wakeups ∧ ∀ k, s.queue.entries.get? k = none := by
  cases h with
  | wait _ htake =>
      cases hfetch
      exact .inr ⟨rfl, Queue.get?_of_takeFirst_eq_none htake⟩
  | @put p =>
      cases hp : p.exclusive <;> simp [Scheduler.afterSending, hp] at hfetch
  | endFetch | hold | send | sendHeld | giveUp | resume => cases hfetch
  | _ => exact .inl hfetch

end Change

/-- What the points of a session's loops say about the rest of it. -/
structure Proper (n : Session) : Prop where
  closed : n.closed = true → n.fetch = .ended ∧ n.dispatch.isOver = true
  slot : n.dispatch.isOver = true → n.slot = none
  holding : ∀ p, n.fetch = .holding p → p.exclusive = true

theorem proper_create (c : ContextId) : (Scheduler.Session.create c).Proper :=
  ⟨nofun, nofun, nofun⟩

theorem Proper.change (hn : n.Proper) (h : n.Change y z a i j s x n') : n'.Proper where
  closed hclosed := by
    obtain ⟨heq, -⟩ | ⟨-, -, hfetch, hover⟩ := h.closed_or
    · obtain ⟨hfetch, hover⟩ := hn.closed (heq ▸ hclosed)
      exact ⟨h.fetch_ended hfetch, by rw [h.dispatch_over hover, hover]⟩
    · exact ⟨h.fetch_ended hfetch, by rw [h.dispatch_over hover, hover]⟩
  slot hover := by
    cases h with
    | crash | stopAcquiring | stopReceiving => rfl
    | put _ _ hlive =>
        rw [hlive] at hover
        cases hover
    | openSlots | acquire | skip | enter => cases hover
    | _ => exact hn.slot hover
  holding p hfetch := by
    cases h with
    | hold _ _ hp =>
        cases hfetch
        exact hp
    | @put q => cases hq : q.exclusive <;> simp [Scheduler.afterSending, hq] at hfetch
    | endFetch | wait | send | sendHeld | giveUp | resume => cases hfetch
    | _ => exact hn.holding p hfetch

/-- A session that was not asked to stop goes on, unless its dispatch loop has panicked. -/
structure Live (n : Session) : Prop where
  dispatch : n.dispatch ≠ .ended
  fetch : n.fetch = .ended → n.dispatch = .crashed

theorem Live.change (hn : n.Live) (hlive : y.contexts.isDone n.shutdown = false)
    (hblocking : s.queue.blocking = true) (h : n.Change y z a i j s x n') : n'.Live := by
  have hstays {point : DispatchPoint} (hdispatch : n.dispatch = point) (hpoint : point ≠ .crashed)
      (hended : n.fetch = .ended) : False := hpoint (hdispatch ▸ hn.fetch hended)
  cases h with
  | endFetch _ _ hstop => simp [hlive, hblocking] at hstop
  | giveUp _ hstop =>
      have hover : n.dispatch.isOver = true := by simpa [hlive] using hstop
      have hcrashed : n.dispatch = .crashed := by
        cases hdispatch : n.dispatch with
        | crashed => rfl
        | ended => exact absurd hdispatch hn.dispatch
        | _ => simp [hdispatch, DispatchPoint.isOver] at hover
      exact ⟨hn.dispatch, fun _ => hcrashed⟩
  | stopAcquiring _ hstop => simp [hlive] at hstop
  | stopReceiving hdispatch hstop =>
      have hended : n.slot = none ∧ n.fetch = .ended := by simpa [hlive] using hstop
      exact absurd hended.2 (hstays hdispatch (by simp))
  | @put p => exact ⟨hn.dispatch, fun hfetch => by
      cases hp : p.exclusive <;> simp [Scheduler.afterSending, hp] at hfetch⟩
  | wait | hold | send | sendHeld | resume => exact ⟨hn.dispatch, nofun⟩
  | crash => exact ⟨by simp, fun _ => rfl⟩
  | openSlots hdispatch | acquire hdispatch | skip hdispatch | enter hdispatch =>
      exact ⟨by simp, fun hended => (hstays hdispatch (by simp) hended).elim⟩
  | _ => exact ⟨hn.dispatch, hn.fetch⟩

end Session

/-! ## The queue -/

namespace System

variable {y z : System} {a : Step} {i : SchedulerId} {j : SessionId} {s s' : Scheduler}
  {n : Session} {allowed : System → Step → Bool}

theorem later_of_step (h : y.step? a = some z) (hs : y.schedulers[i]? = some s)
    (hs' : z.schedulers[i]? = some s') : s.queue.Later s'.queue := by
  obtain ⟨s₀, hs₀, hchange⟩ | ⟨_, hnone, -⟩ := change_of_step h hs'
  · rw [hs] at hs₀
    cases hs₀
    exact hchange.queue_induction (.refl _) (fun _ _ _ hq => hq.trans (Queue.later_push _ _))
      (fun _ _ hq => hq.trans (Queue.later_erase _ _)) fun _ hq => hq.trans (Queue.later_reset _)
  · rw [hs] at hnone
    cases hnone

/-- The queue of a scheduler waits for plans, and knows each by its own key. -/
theorem ReachableBy.queue (h : y.ReachableBy allowed) (hs : y.schedulers[i]? = some s) :
    s.queue.blocking = true ∧ s.queue.Keyed := by
  induction h generalizing s with
  | create origin => simp [System.create] at hs
  | step _ _ hz ih =>
      obtain ⟨s₀, hs₀, hchange⟩ | ⟨_, -, hb⟩ := change_of_step hz hs
      · exact hchange.queue_induction (P := fun q => q.blocking = true ∧ q.Keyed) (ih hs₀)
          (fun _ p _ hq => ⟨hq.1, hq.2.push [p]⟩) (fun _ k hq => ⟨hq.1, hq.2.erase k⟩)
          fun _ hq => ⟨hq.1, Queue.keyed_of_empty rfl⟩
      · rw [eq_create_of_build hb]
        exact ⟨rfl, Queue.keyed_of_empty rfl⟩

/-! ## All sessions -/

theorem ReachableBy.proper (h : y.ReachableBy allowed) (hs : y.schedulers[i]? = some s)
    (hn : s.sessions[j]? = some n) : n.Proper := by
  induction h generalizing s n with
  | create origin => simp [System.create] at hs
  | step _ _ hz ih =>
      obtain ⟨_, _, hs₀, hn₀, -, _, hchange⟩ | rfl := session_of_step hz hs hn
      · exact (ih hs₀ hn₀).change hchange
      · exact Session.proper_create _

/-- While a session is not closed the scheduler is running, and no session was begun after it. -/
theorem ReachableBy.last (h : y.ReachableBy allowed) (hs : y.schedulers[i]? = some s)
    (hn : s.sessions[j]? = some n) (hopen : n.closed = false) :
    s.running = true ∧ j + 1 = s.sessions.size := by
  induction h generalizing s j n with
  | create origin => simp [System.create] at hs
  | step _ _ hz ih =>
      obtain ⟨s₀, hs₀, hchange⟩ | ⟨_, -, hb⟩ := change_of_step hz hs
      · obtain hreg | ⟨-, hedit, hn₀⟩ | ⟨-, hrun, rfl⟩ := hchange.outcome
        · rw [hreg.registers.sessions] at hn ⊢
          rw [hreg.registers.running]
          exact ih hs₀ hn hopen
        · have hsize : s.sessions.size = s₀.sessions.size := by
            rw [hedit.sessions, Array.size_setIfInBounds]
          have hrunning : s.stores.running = s.running := rfl
          rw [hsize, ← hrunning]
          obtain ⟨heq, hrun⟩ | ⟨hbefore, hafter, -, -⟩ := hn₀.closed_or
          · rw [hrun]
            obtain ⟨rfl, rfl⟩ | ⟨-, hkept⟩ := hedit.session hn
            · exact ih hs₀ hedit.before (heq ▸ hopen)
            · exact ih hs₀ hkept hopen
          · -- The session that is closed was the last one, so there is no other that is open.
            have hlast := (ih hs₀ hedit.before hbefore).2
            obtain ⟨rfl, rfl⟩ | ⟨hne, hkept⟩ := hedit.session hn
            · rw [hafter] at hopen
              cases hopen
            · have hlast' := (ih hs₀ hkept hopen).2
              exact absurd (Nat.succ.inj (hlast'.trans hlast.symm)) hne
        · simp only [Scheduler.start, Array.getElem?_push, Array.size_push] at hn ⊢
          split at hn
          · rename_i hj
            exact ⟨trivial, congrArg Nat.succ hj⟩
          · have hrunning := (ih hs₀ hn hopen).1
            rw [hrun] at hrunning
            cases hrunning
      · rw [sessions_of_build hb] at hn
        simp at hn

/-- At no time a scheduler has two sessions that are not closed. -/
theorem ReachableBy.open_unique {k : SessionId} {m : Session} (h : y.ReachableBy allowed)
    (hs : y.schedulers[i]? = some s) (hn : s.sessions[j]? = some n) (hm : s.sessions[k]? = some m)
    (hopen : n.closed = false) (hopen' : m.closed = false) : j = k :=
  Nat.succ.inj ((h.last hs hn hopen).2.trans (h.last hs hm hopen').2.symm)

/-- A context that is not done was not done before either. -/
theorem isDone_eq_false_of_step {c : ContextId} (h : y.step? a = some z)
    (hlive : z.contexts.isDone c = false) : y.contexts.isDone c = false := by
  cases hdone : y.contexts.isDone c with
  | false => rfl
  | true =>
      have hlater := (proceeds_of_step h).contexts.isDone hdone
      rw [hlive] at hlater
      cases hlater

theorem ReachableBy.live (h : y.ReachableBy allowed) (hs : y.schedulers[i]? = some s)
    (hn : s.sessions[j]? = some n) (hlive : y.contexts.isDone n.shutdown = false) : n.Live := by
  induction h generalizing s n with
  | create origin => simp [System.create] at hs
  | step h _ hz ih =>
      obtain ⟨_, n₀, hs₀, hn₀, -, _, hchange⟩ | rfl := session_of_step hz hs hn
      · rw [hchange.shutdown] at hlive
        have hlive₀ := isDone_eq_false_of_step hz hlive
        exact (ih hs₀ hn₀ hlive₀).change hlive₀ (h.queue hs₀).1 hchange
      · exact ⟨by simp [Scheduler.Session.create], fun hended => by cases hended⟩

/-- A pop that waits and was not woken since waits at an empty queue. -/
theorem ReachableBy.waiting {wakeups : Nat} (h : y.ReachableBy allowed)
    (hs : y.schedulers[i]? = some s) (hn : s.sessions[j]? = some n)
    (hfetch : n.fetch = .popping (.waiting wakeups)) :
    wakeups ≤ s.queue.wakeups ∧
      (s.queue.wakeups = wakeups → ∀ k, s.queue.entries.get? k = none) := by
  induction h generalizing s n with
  | create origin => simp [System.create] at hs
  | step h _ hz ih =>
      obtain ⟨s₀, n₀, hs₀, hn₀, -, _, hchange⟩ | rfl := session_of_step hz hs hn
      · have hlater := later_of_step hz hs₀ hs
        have hle := hlater.wakeups
        have hbefore : wakeups ≤ s₀.queue.wakeups ∧
            (s₀.queue.wakeups = wakeups → ∀ k, s₀.queue.entries.get? k = none) := by
          obtain hsame | ⟨rfl, hempty⟩ := hchange.waiting hfetch
          · exact ih hs₀ hn₀ hsame
          · exact ⟨Nat.le_refl _, fun _ => hempty⟩
        refine ⟨Nat.le_trans hbefore.1 hle, fun heq k => ?_⟩
        have hge := hbefore.1
        exact hlater.quiet (by omega) k (hbefore.2 (by omega) k)
      · cases hfetch

end System

end Scheduling
