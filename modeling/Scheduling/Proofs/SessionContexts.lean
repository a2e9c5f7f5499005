import Scheduling.Proofs.Controls
import Scheduling.Proofs.Provenance
import Scheduling.Proofs.Seclusion
/-!
# Contexts that end sessions

The context that ends a session is made for it and handed out to nobody: no task, no run, no start
call and no executing plan uses it. So, besides the contexts above it, only the calls that stop the
scheduler in this session hit it.
-/

namespace Scheduling

/-- The context that a request hits. -/
def Step.hits : Step → Option ContextId
  | .request (.cancelContext c) | .request (.cancelSilently c) => some c
  | _ => none

namespace System

/-- Whether a step leaves the contexts that end sessions alone: a request that hits one cannot be
made, as no scheduler hands it out. -/
def reticent (y : System) (a : Step) : Bool :=
  y.schedulers.all fun s => s.sessions.all fun n => a.hits != some n.shutdown

/-- Whether a call that stops a scheduler in a step wants to wait, if there is such a call. -/
def stopOf? (y : System) (i : SchedulerId) : Step → Option Bool
  | .move (.call k) _ =>
    match y.calls[k]? with
    | some (.stopScheduler i' wait) => if i' = i then some wait else none
    | _ => none
  | _ => none

/-- A call stops a scheduler in the session that a context ends. -/
def Halts (y : System) (a : Step) (c : ContextId) : Prop :=
  ∃ (i : SchedulerId) (s : Scheduler), (y.stopOf? i a).isSome = true ∧
    y.schedulers[i]? = some s ∧ s.shutdown = some c

/-- Nothing uses a context: no work, no start call and no plan that is executing. -/
structure Private (y : System) (c : ContextId) : Prop where
  unused : y.Unused c
  calls : ∀ {k : CallId} {e : ExecutorId} {d : ContextId} {point : CallPoint},
    y.calls[k]? = some (.start e d point) → ¬ point.Awaits c
  executing : ∀ {i : SchedulerId} {s : Scheduler} {key : String} {x : Execution},
    y.schedulers[i]? = some s → s.executing.get? key = some x → x.context ≠ c
  workers : ∀ {i : SchedulerId} {j : SessionId} {s : Scheduler} {n : Session} {w : Worker},
    y.schedulers[i]? = some s → s.sessions[j]? = some n → w ∈ n.workers → ¬ w.point.Awaits c

variable {allowed : System → Step → Bool} {y z u : System} {a : Step} {c : ContextId}
  {i : SchedulerId} {j : SessionId} {s : Scheduler} {n : Session}

/-! ## What a step hits -/

theorem spares_carryOut {r : Request} (hy : y.Private c) (ha : (Step.request r).hits ≠ some c) :
    y.Spares c (y.carryOut r) := by
  have hne {d : ContextId} (hd : (Step.request r).hits = some d) : d ≠ c :=
    fun heq => ha (heq ▸ hd)
  cases r with
  | newContext => exact spares_of_contexts ContextTree.spares_background rfl rfl
  | newChild parent => exact spares_newChild y parent
  | newChildFor parent timeout =>
      cases hmade : y.newChildFor parent timeout with
      | none =>
          simp only [carryOut, hmade]
          exact .refl y
      | some made =>
          simp only [carryOut, hmade]
          exact spares_newChildFor hmade
  | cancelContext d => exact spares_cancelContext fun _ => hne rfl
  | cancelSilently d =>
      exact spares_of_contexts (ContextTree.spares_cancelSilently (hne rfl)) rfl rfl
  | newTask id labels body =>
      refine ⟨Nat.le_refl _, fun _ hunused => ⟨⟨hunused.timers, ?_, hunused.runs⟩, rfl⟩⟩
      intro t task htask
      replace htask : (y.tasks.push _)[t]? = some task := htask
      rw [Array.getElem?_push] at htask
      split at htask
      · cases htask
        exact fun hcontext => by cases hcontext
      · exact hunused.tasks t task htask
  | startTask t parent => exact spares_startTask y t parent
  | cancelTask t => exact spares_cancelTask y t
  | cancelExecutor e => exact spares_cancelExecutor y e
  | removePlan k p =>
      simp only [carryOut, removePlan]
      split
      · exact .refl y
      · rename_i s hs
        split
        · rename_i x hx
          exact (spares_setScheduler y k _).trans (spares_cancelExecution (hy.executing hs hx))
        · exact (spares_setScheduler y k _).trans (spares_cancelTask _ _)
  | cancelPlan k key =>
      simp only [carryOut, cancelPlan]
      split
      · exact .refl y
      · rename_i x hx
        obtain ⟨s, hs, hx⟩ := Option.bind_eq_some_iff.1 hx
        exact spares_cancelExecution (hy.executing hs hx)
  | startScheduler k parent =>
      simp only [carryOut]
      obtain hsame | ⟨s, -, -, hstart⟩ := startScheduler_cases y k parent
      · rw [hsame]
        exact .refl y
      · rw [hstart]
        exact (spares_newChild y parent).trans (spares_setScheduler _ k _)
  | addPlans k plans =>
      simp only [carryOut]
      obtain hsame | ⟨_, s, -, -, hset⟩ := addPlans_cases y k plans
      · rw [hsame]
        exact .refl y
      · rw [hset]
        exact spares_setScheduler y k s
  | addEntry | newScheduler =>
      simp only [carryOut]
      split <;> exact spares_of_eq rfl rfl rfl
  | _ => exact spares_of_eq rfl rfl rfl

theorem spares_requestStop {wait : Bool} {awaited : Option SessionId}
    (hu : y.requestStop i wait = (awaited, u))
    (h : ∀ s, y.schedulers[i]? = some s → s.shutdown ≠ some c) : y.Spares c u := by
  obtain rfl : (y.requestStop i wait).2 = u := congrArg Prod.snd hu
  obtain ⟨v, hv, hstop⟩ := requestStop_cases y i wait
  have hhalt : y.Spares c v := by
    obtain rfl | ⟨s, d, hs, hshutdown, rfl⟩ := hv
    · exact .refl _
    · exact spares_cancelContext fun _ heq => h s hs (heq ▸ hshutdown)
  obtain hstop | ⟨s, hstop⟩ := hstop
  · rw [hstop]
    exact hhalt
  · rw [hstop]
    exact hhalt.trans (spares_setScheduler v i s)

theorem spares_of_mem_callMoves {k : CallId} {choice : Nat} (h : z ∈ y.callMoves k)
    (hy : y.Private c) (hstop : ¬ y.Halts (.move (.call k) choice) c) : y.Spares c z := by
  obtain ⟨call, u, call', hcall, hmove, rfl⟩ := callMove_of_mem h
  refine .trans (z := u) ?_ (spares_of_eq rfl rfl rfl)
  cases hmove with
  | goOn hmade | returns hmade | panics hmade =>
      exact spares_of_mem_executionMoves hmade (hy.calls hcall)
  | stopAndWait | stop => exact spares_cancelExecutor y _
  | waitOn | pop => exact spares_of_eq rfl rfl rfl
  | @awaitEnd i _ _ _ hrequest | @stopScheduler i _ _ hrequest =>
      exact spares_requestStop hrequest fun s hs hshutdown =>
        hstop ⟨i, s, by simp [stopOf?, hcall], hs, hshutdown⟩
  | _ => exact .refl y

theorem spares_of_mem_dispatchMoves (h : z ∈ y.dispatchMoves i j) (hy : y.Private c) :
    y.Spares c z := by
  obtain ⟨s, hs, hmove⟩ := of_mem_dispatchMoves h
  cases hmove with
  | move _ hz | skip _ _ hz =>
      subst hz
      exact spares_setScheduler y i _
  | @enter _ p _ _ hz =>
      subst hz
      exact (spares_newChild y p.context).trans (spares_of_eq rfl rfl rfl)
  | @cancelAll s' hmove hz =>
      subst hz
      obtain ⟨n, -, hmove⟩ := Scheduler.dispatchMove_of_mem hmove
      have hexecuting : s'.executing = s.executing := by cases hmove <;> rfl
      refine (spares_setScheduler y i _).trans (spares_foldl_cancelExecution fun x hx => ?_)
      obtain ⟨key, hx⟩ := Registry.mem_values_iff.1 (hexecuting ▸ hx)
      exact hy.executing hs hx

theorem spares_of_workerMoves {e : ExecutorId} {choice : Nat} (hreach : y.ReachableBy allowed)
    (h : (y.workerMoves i j e)[choice]? = some z) (hy : y.Private c) : y.Spares c z := by
  obtain ⟨s, w, u, status, hs, hworker, hmade, hmove⟩ := workerMove_of_getElem? h
  obtain ⟨n, hn, hw⟩ := Scheduler.mem_of_worker? hworker
  have hspares : y.Spares c u :=
    spares_of_mem_executionMoves (List.mem_of_getElem? hmade) (hy.workers hs hn hw)
  cases hmove with
  | goOn | panics => exact hspares.trans (spares_setScheduler u i _)
  | returns =>
      have hcontext : w.context ≠ c := hy.executing hs (hreach.enlists hs j n hn w hw)
      exact (hspares.trans (spares_setScheduler u i _)).trans
        (spares_cancelContext fun _ => hcontext)

/-- A context that nothing uses is hit by a request or by a call that stops a scheduler, if at
all. -/
theorem spares_of_step (hreach : y.ReachableBy allowed) (h : y.step? a = some z)
    (hy : y.Private c) (ha : a.hits ≠ some c) (hstop : ¬ y.Halts a c) : y.Spares c z := by
  cases a with
  | request r =>
      obtain ⟨-, rfl⟩ := step_request_iff.1 h
      exact spares_carryOut hy ha
  | pass millis =>
      obtain ⟨-, rfl⟩ := step_pass_iff.1 h
      exact spares_of_eq rfl rfl rfl
  | move actor choice =>
      have hmem : z ∈ y.moves actor := List.mem_of_getElem? h
      cases actor with
      | deadline d =>
          obtain ⟨hdue, rfl⟩ := of_mem_guarded hmem
          obtain ⟨htimer, -⟩ := Bool.and_eq_true_iff.1 hdue
          have hne : d ≠ c := fun heq => hy.unused.timers (heq ▸ by simpa using htimer)
          exact spares_of_contexts (ContextTree.spares_expire hne) rfl rfl
      | run r => exact spares_of_mem_runMoves hmem
      | call k => exact spares_of_mem_callMoves hmem hy hstop
      | dispatch i j => exact spares_of_mem_dispatchMoves hmem hy
      | worker i j e => exact spares_of_workerMoves hreach h hy
      | tableTimer =>
          obtain ⟨_, _, _, -, -, rfl⟩ := of_mem_tableTimerMoves hmem
          exact spares_of_eq rfl rfl rfl
      | planTimer k =>
          obtain ⟨_, s, -, -, rfl⟩ := of_mem_planTimerMoves hmem
          exact spares_setScheduler y k s
      | fetch k =>
          obtain ⟨_, s, -, -, rfl⟩ := of_mem_fetchMoves hmem
          exact spares_setScheduler y k s
      | supervisor k =>
          obtain ⟨_, s, -, -, rfl⟩ := of_mem_closeMoves hmem
          exact spares_setScheduler y k s

/-! ## Nothing uses the context of a session -/

/-- A start call from outside stands at its beginning, where it stood, or where its move has led. -/
theorem start_of_step {k : CallId} {e : ExecutorId} {d : ContextId} {point : CallPoint}
    (h : y.step? a = some z) (hcall : z.calls[k]? = some (.start e d point)) :
    y.calls[k]? = some (.start e d point) ∨ point = .entered ∨
      ∃ (point₀ : CallPoint) (u : System), (u, .at point) ∈ y.executionMoves e d point₀ ∧
        z.contexts = u.contexts := by
  cases callsStep_of_step h with
  | kept hkept => exact .inl (hkept ▸ hcall)
  | @made call haccepts hz =>
      subst hz
      replace hcall : (y.calls.push call)[k]? = some (.start e d point) := hcall
      rw [Array.getElem?_push] at hcall
      split at hcall
      · cases hcall
        cases point with
        | entered => exact .inr (.inl rfl)
        | _ => cases haccepts
      · exact .inl hcall
  | @moved k' _ call call' u hcall' hmove hz =>
      subst hz
      replace hcall : (u.calls.modify k' fun _ => call')[k]? = some (.start e d point) := hcall
      rw [Array.getElem?_modify, hmove.calls] at hcall
      split at hcall
      · obtain ⟨_, -, rfl⟩ := Option.map_eq_some_iff.1 hcall
        cases hmove with
        | goOn hmade => exact .inr (.inr ⟨_, u, hmade, rfl⟩)
      · exact .inl hcall

theorem Unused.requestStop {wait : Bool} {awaited : Option SessionId} (hy : y.Unused c)
    (h : y.requestStop i wait = (awaited, u)) : u.Unused c := by
  obtain rfl : (y.requestStop i wait).2 = u := congrArg Prod.snd h
  obtain ⟨v, hv, hstop⟩ := requestStop_cases y i wait
  have hhalt : v.Unused c := by
    obtain rfl | ⟨_, d, -, -, rfl⟩ := hv
    · exact hy
    · exact hy.cancelContext d
  obtain hstop | ⟨s, hstop⟩ := hstop
  · rw [hstop]
    exact hhalt
  · rw [hstop]
    exact ⟨hhalt.timers, hhalt.tasks, hhalt.runs⟩

theorem move_of_stopOf? {wait : Bool} (h : y.stopOf? i a = some wait) :
    ∃ (k : CallId) (choice : Nat), a = .move (.call k) choice ∧
      y.calls[k]? = some (.stopScheduler i wait) := by
  unfold stopOf? at h
  split at h
  · rename_i k choice
    split at h
    · rename_i hcall
      obtain ⟨rfl, hwait⟩ := Option.ite_none_right_eq_some.1 h
      cases hwait
      exact ⟨k, choice, rfl, hcall⟩
    · cases h
  · cases h

/-- A step that stops a scheduler is a request to stop it and one move of the call. -/
theorem requestStop_of_stopOf? {wait : Bool} (h : y.step? a = some z)
    (hstop : y.stopOf? i a = some wait) :
    ∃ (awaited : Option SessionId) (u : System) (k : CallId) (call : Call),
      y.requestStop i wait = (awaited, u) ∧ z = u.callAt k call := by
  obtain ⟨k, choice, rfl, hcall⟩ := move_of_stopOf? hstop
  obtain ⟨call, u, call', hcall', hmove, rfl⟩ := callMove_of_mem (List.mem_of_getElem? h)
  obtain rfl := Option.some.inj (hcall.symm.trans hcall')
  cases hmove with
  | awaitEnd hrequest | stopScheduler hrequest => exact ⟨_, u, k, _, hrequest, rfl⟩

/-- A context that nothing uses stays so, unless it is made in the step. -/
theorem Private.step (hy : y.Private c) (hreach : y.ReachableBy allowed)
    (h : y.step? a = some z) (ha : a.hits ≠ some c)
    (hapart : y.contexts.Apart z.contexts c) : z.Private c where
  unused := by
    by_cases hstop : y.Halts a c
    · obtain ⟨i, s, hstop, -, -⟩ := hstop
      obtain ⟨wait, hwait⟩ := Option.isSome_iff_exists.1 hstop
      obtain ⟨_, u, _, _, hrequest, rfl⟩ := requestStop_of_stopOf? h hwait
      have hunused := hy.unused.requestStop hrequest
      exact ⟨hunused.timers, hunused.tasks, hunused.runs⟩
    · exact ((spares_of_step hreach h hy ha hstop).spared hapart hy.unused).1
  calls hcall := by
    obtain hkept | rfl | ⟨_, u, hmade, hcontexts⟩ := start_of_step h hcall
    · exact hy.calls hkept
    · rintro ⟨_, _, hentered⟩
      cases hentered
    · exact not_awaits_of_mem_executionMoves hmade (hcontexts ▸ hapart)
  executing hs' hx := by
    obtain ⟨s, hs, hchange⟩ | ⟨_, -, hb⟩ := change_of_step h hs'
    · obtain hx | ⟨rfl, ⟨parent, hcontexts⟩, -⟩ := hchange.executing_or hx
      · exact hy.executing hs hx
      · exact (hapart.ne_size (congrArg ContextTree.nodes hcontexts)).symm
    · rw [eq_create_of_build hb] at hx
      cases hx
  workers hs' hn' hw' := by
    obtain ⟨s, n, hs, hn, hw | ⟨w, hw, hadvances, -⟩ | ⟨hentered, -⟩⟩ :=
      hreach.worker_cases h hs' hn' hw'
    · exact hy.workers hs hn hw
    · obtain ⟨u, hmade, -, -, hgrows⟩ := hadvances.made
      exact not_awaits_of_mem_executionMoves hmade (hapart.imp_right (Nat.le_trans hgrows.size_le))
    · rw [hentered]
      rintro ⟨_, _, hpoint⟩
      cases hpoint

theorem private_create (origin : Int) (c : ContextId) : (create origin).Private c where
  unused := ⟨by simp [create, ContextTree.empty], by simp [create], by simp [create]⟩
  calls hcall := by simp [create] at hcall
  executing hs := by simp [create] at hs
  workers hs := by simp [create] at hs

/-- The context that is made for a session is not used, as it was not there before. -/
theorem Private.start (hy : y.Private c) (hs : y.schedulers[i]? = some s) (d e : ContextId) :
    ((y.newChild d).2.setScheduler i (s.start e)).Private c where
  unused := ⟨hy.unused.timers, hy.unused.tasks, hy.unused.runs⟩
  calls := hy.calls
  executing {k} _ _ _ hs' hx := by
    replace hs' : (y.schedulers.modify i fun _ => s.start e)[k]? = some _ := hs'
    rw [Array.getElem?_modify] at hs'
    split at hs'
    · obtain ⟨_, -, rfl⟩ := Option.map_eq_some_iff.1 hs'
      exact hy.executing hs hx
    · exact hy.executing hs' hx
  workers {k} _ _ _ _ hs' hn' hw' := by
    replace hs' : (y.schedulers.modify i fun _ => s.start e)[k]? = some _ := hs'
    rw [Array.getElem?_modify] at hs'
    split at hs'
    · obtain ⟨_, -, rfl⟩ := Option.map_eq_some_iff.1 hs'
      simp only [Scheduler.start, Array.getElem?_push] at hn'
      split at hn'
      · cases hn'
        cases hw'
      · exact hy.workers hs hn' hw'
    · exact hy.workers hs' hn' hw'

theorem hits_ne_of_reticent (ha : y.reticent a = true) (hn : y.session? i j = some n) :
    a.hits ≠ some n.shutdown := by
  obtain ⟨s, hs, hn⟩ := session?_eq_some_iff.1 hn
  have hall := (Array.all_eq_true'.1 ha) s (Array.mem_of_getElem? hs)
  have hne := (Array.all_eq_true'.1 hall) n (Array.mem_of_getElem? hn)
  simpa using hne

/-- A request hits no context that does not exist. -/
theorem hits_ne_of_le (h : y.step? a = some z) (hc : y.contexts.nodes.size ≤ c) :
    a.hits ≠ some c := by
  intro hhits
  cases a with
  | request r =>
      obtain ⟨haccepts, -⟩ := step_request_iff.1 h
      cases r with
      | cancelContext | cancelSilently =>
          cases hhits
          exact absurd (of_decide_eq_true haccepts) (Nat.not_lt.2 hc)
      | _ => cases hhits
  | _ => cases hhits

/-- Nothing uses a context that does not exist, and nothing uses one that ends a session. -/
theorem ReachableBy.secluded (h : y.ReachableBy reticent) :
    (∀ c, y.contexts.nodes.size ≤ c → y.Private c) ∧
      ∀ i j n, y.session? i j = some n → y.Private n.shutdown := by
  induction h with
  | create origin => exact ⟨fun c _ => private_create origin c, fun i j n _ => private_create _ _⟩
  | @step y z a h ha hz ih =>
      obtain ⟨hfresh, hsessions⟩ := ih
      have hsize := (proceeds_of_step hz).contexts.size_le
      refine ⟨fun c hc => ?_, fun i j n hn => ?_⟩
      · have hle : y.contexts.nodes.size ≤ c := Nat.le_trans hsize hc
        exact (hfresh c hle).step h hz (hits_ne_of_le hz hle) (.inr hc)
      · obtain ⟨m, hm, hsame, -⟩ | ⟨c, s, rfl, hs, hidle, -, hnew⟩ := shutdown_of_step hz hn
        · have hlt : m.shutdown < y.contexts.nodes.size :=
            of_decide_eq_true (h.hasContext_shutdown hm)
          exact hsame ▸ (hsessions i j m hm).step h hz (hits_ne_of_reticent ha hm) (.inl hlt)
        · obtain ⟨-, rfl⟩ := eq_of_start hz hs hidle
          rw [hnew]
          exact (hfresh _ (Nat.le_refl _)).start hs c _

/-- Only a call that stops the scheduler hits the context that ends its session. -/
theorem ReachableBy.stops_of_isHit (h : y.ReachableBy reticent) (ha : y.reticent a = true)
    (hz : y.step? a = some z) (hn : y.session? i j = some n)
    (hbefore : y.contexts.isHit n.shutdown = false) (hafter : z.contexts.isHit n.shutdown = true) :
    (y.stopOf? i a).isSome = true := by
  by_contra hnot
  have hprivate : y.Private n.shutdown := h.secluded.2 i j n hn
  have hlt : n.shutdown < y.contexts.nodes.size := of_decide_eq_true (h.hasContext_shutdown hn)
  have hstop : ¬ y.Halts a n.shutdown := by
    rintro ⟨k, s, hstop, hs, hshutdown⟩
    cases hrunning : s.running with
    | false => simp [(h.governed hs).idle hrunning] at hshutdown
    | true =>
        obtain ⟨l, m, hm, -, -, hends⟩ := (h.governed hs).running hrunning
        have hsame : m.shutdown = n.shutdown := Option.some.inj (hends.symm.trans hshutdown)
        have hm' : y.session? k l = some m := session?_eq_some_iff.2 ⟨s, hs, hm⟩
        obtain ⟨rfl, -⟩ := h.session_unique hm' hn hsame
        exact hnot hstop
  have hspares := spares_of_step h hz hprivate (hits_ne_of_reticent ha hn) hstop
  obtain ⟨-, hsame⟩ := hspares.spared (.inl hlt) hprivate.unused
  rw [hafter, hbefore] at hsame
  cases hsame

end System

end Scheduling
