import Scheduling.Proofs.Retries
import Scheduling.Proofs.Tallies
/-!
# Exhausted retries

A new executor whose task fails in each run makes all the attempts that its policy allows, or up to
the first that ends with a conflict. Until then its start call does not stop: it can make a move, it
waits for an instant, or it waits for a run of the task that goes on.
-/

namespace Scheduling

/-- What a new executor has on record when its start call has returned an error, after the task had
run `first` times: the error of each of its attempts, of which `most` are allowed. There are less
only if the last one has ended with a conflict; no other has, and it has only if its body says
so. -/
structure Executor.Exhausted (x : Executor) (body : Nat → List Action) (first most : Nat)
    (last : Error) : Prop where
  errors : ∀ i, (x.errors.get? i).isSome = true ↔ i < x.attempts
  latest : 0 < x.attempts ∧ x.errors.get? (x.attempts - 1) = some last
  limit : x.attempts ≤ most
  all : last.isConflict = false → x.attempts = most
  conflicts : ∀ i err, x.errors.get? i = some err → err.isConflict = true →
    i + 1 = x.attempts ∧ bodyConflicts (body (first + i)) = true

/-- If no body makes a conflict all attempts are made. -/
theorem Executor.Exhausted.attempts_eq {x : Executor} {body : Nat → List Action} {first most : Nat}
    {last : Error} (h : x.Exhausted body first most last)
    (hbody : ∀ n, bodyConflicts (body n) = false) : x.attempts = most := by
  refine h.all ?_
  rw [← Bool.not_eq_true]
  intro hconflict
  obtain ⟨-, hchosen⟩ := h.conflicts _ _ h.latest.2 hconflict
  rw [hbody] at hchosen
  cases hchosen

namespace System

/-- A start call that waits for a run of its task does not wait in vain: the call can make a move or
waits for an instant; or the run can, unless it waits for its context, which is not done. -/
inductive GoesOn (y : System) (who : Caller) (t : TaskId) : Prop
  | moves {choice : Nat} {z : System} (hz : y.step? (.move who.actor choice) = some z)
  | pauses {call : StartCall} {wake : Instant} (hcall : y.startCall? who = some call)
      (hwake : call.point.wake? = some wake)
  | runs {r : RunId} {run : Run} (hrun : y.runs.get? r = some run) (ht : run.task = t)
      (h : y.moves (.run r) ≠ [] ∨ (Run.wake? run).isSome = true)
  | awaits {r : RunId} {run : Run} {rest : List Action} (hrun : y.runs.get? r = some run)
      (ht : run.task = t) (hpoint : run.point = .awaiting rest)
      (hlive : y.contexts.isDone run.context = false)

variable {y : System} {who : Caller} {e : ExecutorId} {context : ContextId} {policy : RetryPolicy}
  {x : Executor} {task : Task} {t : TaskId} {c : Cycle} {body : Nat → List Action} {first : Nat}

theorem goesOn_of_run {r : RunId} {run : Run} (hrun : y.runs.get? r = some run)
    (htask : y.tasks[run.task]? = some task) : y.GoesOn who run.task := by
  cases hpoint : run.point with
  | launched =>
      refine .runs hrun rfl (.inl ?_)
      simp [moves, runMoves, hrun, hpoint, htask]
  | acting rest =>
      refine .runs hrun rfl (.inl ?_)
      cases rest <;> simp [moves, runMoves, hrun, hpoint]
  | sleeping => exact .runs hrun rfl (.inr (by simp [Run.wake?, hpoint]))
  | awaiting =>
      cases hdone : y.contexts.isDone run.context with
      | true => exact .runs hrun rfl (.inl (by simp [moves, runMoves, hrun, hpoint, hdone]))
      | false => exact .awaits hrun rfl hpoint hdone
  | ended => exact .runs hrun rfl (.inl (by simp [moves, runMoves, hrun, hpoint]))

/-- As long as it has not ended, a start call goes on. -/
theorem goesOn_of_opened (hy : y.Reachable) (htracks : c.Tracks who e context policy x y)
    (htallies : c.Tallies x.task body first y) (hopened : c.result = none) :
    y.GoesOn who x.task := by
  obtain ⟨x', hx, hcounts⟩ := htracks.counts
  obtain ⟨task, hruns, -⟩ := htallies.runs
  have hlook : y.tasks[x'.task]? = some task := hcounts.task ▸ hruns.found
  cases htracks.stage with
  | ended hresult =>
      rw [hopened] at hresult
      cases hresult
  | pausing _ _ _ hcall => exact .pauses hcall rfl
  | @running _ _ runContext _ _ hx₀ hcall =>
      obtain rfl := Option.some.inj (hx.symm.trans hx₀)
      cases hpending : task.state.isPending with
      | true =>
          obtain ⟨r, run, hrun, ht, -⟩ := hruns.pending hpending
          exact ht ▸ goesOn_of_run hrun (ht.symm ▸ hruns.found)
      | false =>
          -- The run is over, which is for the call to see.
          have hdone : task.pending = false := (hy.coherent hruns.found).pending.trans hpending
          have hmade :
              y.callMove? ⟨e, context, .running c.made.length x'.currentHalt runContext⟩ 0 =
                some (y.endAttempt e x' task context c.made.length x'.currentHalt runContext) := by
            simp [callMove?, executionMoves, hx, hlook, hdone]
          obtain ⟨z, hz⟩ := exists_step_of_callMove? hcall hmade
          exact .moves hz

end System

namespace Cycle

variable {c : Cycle} {y : System} {who : Caller} {e : ExecutorId} {context : ContextId}
  {policy : RetryPolicy} {x x' : Executor} {o : ExecutorOptions} {t : TaskId}
  {body : Nat → List Action} {first : Nat}

/-- The call does not panic while the clock can count to the end of a timeout and of a rest. -/
theorem Tracks.returned {result : CallEnd} (h : c.Tracks who e context policy x y)
    (hfits : y.fits x.options = true) (hrest : y.restFits x.options = true)
    (hresult : c.result = some result) : ∃ outcome, result = .returned outcome := by
  cases result with
  | returned outcome => exact ⟨outcome, rfl⟩
  | panicked text =>
      cases h.stage with
      | running hopened | pausing hopened =>
          rw [hopened] at hresult
          cases hresult
      | ended hresult' _ hpanics =>
          obtain rfl := Option.some.inj (hresult'.symm.trans hresult)
          obtain hbeyond | hbeyond := hpanics text rfl
          · exact absurd hfits (Bool.eq_false_iff.1 hbeyond)
          · exact absurd hrest (Bool.eq_false_iff.1 hbeyond)

theorem Counts.attempts_create (h : c.Counts (Executor.create t o) x') :
    x'.attempts = c.made.length := by
  rw [h.attempts]
  split
  · rename_i hnil
    rw [hnil]
    rfl
  · rfl

theorem Counts.get?_errors_create (h : c.Counts (Executor.create t o) x') {i : Nat} {err : Error} :
    x'.errors.get? i = some err ↔ ∃ a, c.made[i]? = some a ∧ a.error? = some err := by
  have hnone : (Executor.create t o).errors.get? i = none := rfl
  rw [h.errors, hnone, Option.or_none]
  exact Option.bind_eq_some_iff

/-- An attempt that others have followed. -/
theorem Obeys.followed {i : Nat} {a : Attempt} (h : c.Obeys policy) (ha : c.made[i]? = some a)
    (hmore : i + 1 < c.made.length) : a.error?.isSome = true ∧ a.stops = false := by
  have hlater : i + 1 < c.begins.length := Nat.lt_of_lt_of_le hmore c.length_made_le
  obtain ⟨herror, hgoes, -⟩ := h.goesOn i a _ ha (List.getElem?_eq_getElem hlater)
  exact ⟨herror, hgoes⟩

/-- If the call returns an error all attempts have failed. -/
theorem Obeys.failed {err : Error} {i : Nat} {a : Attempt} (h : c.Obeys policy)
    (hresult : c.result = some (.returned (.error err))) (ha : c.made[i]? = some a) :
    a.error?.isSome = true := by
  have hlt : i < c.made.length := (List.getElem?_eq_some_iff.1 ha).1
  obtain hmore | hlast := Nat.lt_or_eq_of_le (Nat.succ_le_of_lt hlt)
  · exact (h.followed ha hmore).1
  · obtain ⟨-, b, hb, houtcome, -⟩ := h.returns _ hresult
    rw [List.getLast?_eq_getElem?, ← hlast, Nat.succ_sub_one, ha] at hb
    obtain rfl := Option.some.inj hb
    rw [Attempt.error?, houtcome]
    rfl

/-- No attempt comes after one that is to be the last. -/
theorem Obeys.last_of_stops {i : Nat} {a : Attempt} (h : c.Obeys policy)
    (ha : c.made[i]? = some a) (hstops : a.stops = true) : i + 1 = c.made.length := by
  have hlt : i < c.made.length := (List.getElem?_eq_some_iff.1 ha).1
  refine Nat.le_antisymm hlt (Nat.le_of_not_lt fun hmore => ?_)
  obtain ⟨-, hgoes⟩ := h.followed ha hmore
  rw [hstops] at hgoes
  cases hgoes

/-- A start call that has returned an error and was not told to stop has exhausted its policy. -/
theorem Tallies.exhausted {err : Error} (h : c.Tallies t body first y) (hobeys : c.Obeys policy)
    (hcounts : c.Counts (Executor.create t o) x') (hquiet : c.told = none)
    (hresult : c.result = some (.returned (.error err))) :
    x'.Exhausted body first (max policy.attempts 1) err := by
  obtain ⟨-, a, hlast, houtcome, hwhy⟩ := hobeys.returns _ hresult
  rw [List.getLast?_eq_getElem?] at hlast
  have hattempts := hcounts.attempts_create
  have herror : a.error? = some err := by rw [Attempt.error?, houtcome]; rfl
  refine ⟨fun i => ⟨fun hsome => ?_, fun hlt => ?_⟩, ⟨?_, ?_⟩, ?_, fun hconflict => ?_,
    fun i err' herr' hconflict => ?_⟩
  · obtain ⟨_, hrecord⟩ := Option.isSome_iff_exists.1 hsome
    obtain ⟨b, hb, -⟩ := hcounts.get?_errors_create.1 hrecord
    exact hattempts ▸ (List.getElem?_eq_some_iff.1 hb).1
  · have hb := List.getElem?_eq_getElem (hattempts ▸ hlt)
    obtain ⟨_, hfailed⟩ := Option.isSome_iff_exists.1 (hobeys.failed hresult hb)
    exact Option.isSome_iff_exists.2 ⟨_, hcounts.get?_errors_create.2 ⟨_, hb, hfailed⟩⟩
  · exact hattempts ▸ Nat.zero_lt_of_lt (List.getElem?_eq_some_iff.1 hlast).1
  · exact hcounts.get?_errors_create.2 ⟨a, hattempts ▸ hlast, herror⟩
  · exact hattempts ▸ Nat.le_trans c.length_made_le hobeys.count
  · obtain hok | hstopped | hall | ⟨_, htold, -⟩ := hwhy
    · cases hok
    · rw [(h.made _ a hlast).2 hquiet, herror] at hstopped
      exact absurd hstopped (Bool.eq_false_iff.1 hconflict)
    · exact hattempts.trans hall
    · rw [hquiet] at htold
      cases htold
  · obtain ⟨b, hb, hfailed⟩ := hcounts.get?_errors_create.1 herr'
    obtain ⟨hpermitted, hstops⟩ := h.made i b hb
    have hchosen : b.error?.any Error.isConflict = true := by rw [hfailed]; exact hconflict
    exact ⟨hattempts ▸ hobeys.last_of_stops hb ((hstops hquiet).trans hchosen),
      hpermitted.conflicts hchosen⟩

end Cycle

namespace System

variable {y : System} {who : Caller} {e : ExecutorId} {context : ContextId} {policy : RetryPolicy}
  {o : ExecutorOptions} {t : TaskId} {task : Task}

/-- A new executor admits a start call if it may retry. -/
theorem admits_create (hcall : y.startCall? who = some ⟨e, context, .entered⟩)
    (hx : y.executors[e]? = some (Executor.create t o)) (hretry : o.effectiveRetry = some policy)
    (hlive : y.contexts.isDone context = false) (htask : y.tasks[t]? = some task) :
    y.Admits who e context policy (Executor.create t o) := by
  have honce : o.once = false := by
    cases honce : o.once with
    | false => rfl
    | true =>
        rw [ExecutorOptions.effectiveRetry, honce] at hretry
        cases hretry
  refine ⟨hcall, hx, hretry, ⟨task, htask, ?_⟩, hlive⟩
  exact (mayStart_of_rested rfl).trans (if_neg fun h => Bool.false_ne_true (honce.symm.trans h.2))

/-- A start call of a new executor that may retry, made under a live context while the task is idle:
at any time of any run in which the executor and its task are left to the call and the call is not
told to stop. The clock waits for the call in such a run: time passes only while the call can make
no move, and not beyond the instant it waits for, which holds of all time that passes in settled
systems. If the call has not ended it goes on. If it has, and the clock can count to the end of a
timeout and of a rest, it has returned, after as many runs of the task as attempts. It has returned
an error if the body always fails; and if it has, the attempts are all that the policy allows unless
a body has made a conflict. -/
theorem exhausts_policy {v : System} {c : Cycle} (hy : y.Reachable)
    (hcall : y.startCall? who = some ⟨e, context, .entered⟩)
    (hx : y.executors[e]? = some (Executor.create t o)) (hretry : o.effectiveRetry = some policy)
    (hlive : y.contexts.isDone context = false) (htask : y.tasks[t]? = some task)
    (hidle : task.state.isPending = false) (steps : List Step)
    (hv : y.startRun (leavesTaskTo who e t) who steps = v)
    (hc : y.startLog (leavesTaskTo who e t) who steps = c) (hquiet : c.told = none) :
    c.moves ≤ 2 * max policy.attempts 1 ∧ (c.result = none → v.GoesOn who t) ∧
      ∀ result, c.result = some result → v.fits o = true → v.restFits o = true →
        ∃ (outcome : Outcome) (x' : Executor) (task' : Task), result = .returned outcome ∧
          v.executors[e]? = some x' ∧ v.tasks[t]? = some task' ∧
            task'.runs = task.runs + x'.attempts ∧
              (AlwaysFails task.body → outcome ≠ .ok ()) ∧
                ∀ err, outcome = .error err →
                  x'.Exhausted task.body task.runs (max policy.attempts 1) err := by
  have hadmits := admits_create hcall hx hretry hlive htask
  obtain ⟨hreach, htracks, htallies⟩ := tallies_startLog hy hadmits htask hidle steps
  replace htracks : c.Tracks who e context policy (Executor.create t o) v := hv ▸ hc ▸ htracks
  replace htallies : c.Tallies t task.body task.runs v := hv ▸ hc ▸ htallies
  refine ⟨htracks.obeys.moves, goesOn_of_opened (hv ▸ hreach) htracks htallies,
    fun result hresult hfits hrest => ?_⟩
  obtain ⟨x', hx', hcounts⟩ := htracks.counts
  obtain ⟨task', hruns, hcurrent⟩ := htallies.runs
  obtain ⟨outcome, rfl⟩ := htracks.returned hfits hrest hresult
  obtain ⟨hidle', a, hlast, rfl, -⟩ := htracks.obeys.returns outcome hresult
  refine ⟨a.outcome, x', task', rfl, hx', hruns.found, ?_, fun halways hok => ?_,
    fun err herr => ?_⟩
  · have hcount := (hruns.idle (hcurrent hidle')).1
    rwa [Cycle.begins_of_idle hidle', List.length_map, ← hcounts.attempts_create] at hcount
  · rw [List.getLast?_eq_getElem?] at hlast
    have hfails := (htallies.made _ a hlast).1.fails halways
    rw [hok] at hfails
    cases hfails
  · exact htallies.exhausted htracks.obeys hcounts hquiet (herr ▸ hresult)

/-- A start call that may make two attempts has been made, for a task that does the same in each
run. -/
def repeatingSteps (body : List Action) : List Step :=
  [.request .newContext, .request (.newTask "a" [] fun _ => body),
    .request (.newExecutor 0 retryTen), .request (.call (.start 0 0 .entered))]

theorem after_repeatingSteps (body : List Action) :
    (after (repeatingSteps body)).executors[0]? = some (Executor.create 0 retryTen) ∧
      ∃ task : Task, (after (repeatingSteps body)).tasks[0]? = some task ∧
        task.body = (fun _ => body) ∧ task.state.isPending = false ∧ task.runs = 0 :=
  ⟨by with_unfolding_all rfl, Task.create "a" [] (.ofMillis 0) fun _ => body,
    by with_unfolding_all rfl, rfl, rfl, rfl⟩

/-- The call sees the first run fail, pauses for ten seconds and sees the second run fail. -/
theorem exhausts_policy_secondRunSteps :
    ∃ (v : System) (x' : Executor) (task' : Task) (err : Error),
      v = (after (repeatingSteps [.fail (.failed "no")])).startRun (leavesTaskTo (.call 0) 0 0)
        (.call 0) secondRunSteps ∧
      v.executors[0]? = some x' ∧ v.tasks[0]? = some task' ∧ x'.attempts = 2 ∧ task'.runs = 2 ∧
        x'.Exhausted (fun _ => [.fail (.failed "no")]) 0 2 err := by
  obtain ⟨hx, task, htask, hbody, hidle, hruns⟩ := after_repeatingSteps [.fail (.failed "no")]
  have hcall : (after (repeatingSteps [.fail (.failed "no")])).startCall? (.call 0) =
      some ⟨0, 0, .entered⟩ := by decide +kernel
  have hlive : (after (repeatingSteps [.fail (.failed "no")])).contexts.isDone 0 = false := by
    decide +kernel
  have hlog : ((after (repeatingSteps [.fail (.failed "no")])).startLog
      (leavesTaskTo (.call 0) 0 0) (.call 0) secondRunSteps).told = none ∧
        ((after (repeatingSteps [.fail (.failed "no")])).startLog (leavesTaskTo (.call 0) 0 0)
          (.call 0) secondRunSteps).result.isSome = true := by decide +kernel
  obtain ⟨result, hresult⟩ := Option.isSome_iff_exists.1 hlog.2
  obtain ⟨-, -, hended⟩ := exhausts_policy (reachable_after _) hcall hx rfl hlive htask hidle
    secondRunSteps rfl rfl hlog.1
  obtain ⟨outcome, x', task', -, hx', htask', hcount, hfailed, hexhausted⟩ :=
    hended result hresult (by decide +kernel) (by decide +kernel)
  rw [hbody] at hfailed hexhausted
  rw [hruns] at hcount hexhausted
  obtain ⟨err, herr⟩ : ∃ err, outcome = .error err := by
    cases outcome with
    | ok => exact absurd rfl (hfailed fun _ => rfl)
    | error err => exact ⟨err, rfl⟩
  have hexhausted' := hexhausted err herr
  have hattempts : x'.attempts = 2 := hexhausted'.attempts_eq fun _ => rfl
  exact ⟨_, x', task', err, rfl, hx', htask', hattempts, by rw [hcount, hattempts], hexhausted'⟩

/-- The first run fails with a conflict, and the call has returned after it. -/
theorem stops_at_conflict :
    ∃ (v : System) (c : Cycle) (task task' : Task) (x' : Executor),
      (after (repeatingSteps [.fail (.conflict "no")])).Reachable ∧
      (after (repeatingSteps [.fail (.conflict "no")])).executors[0]? =
        some (Executor.create 0 retryTen) ∧
      (after (repeatingSteps [.fail (.conflict "no")])).tasks[0]? = some task ∧
      task.state.isPending = false ∧ task.runs = 0 ∧ AlwaysFails task.body ∧
      retryTen.validate = .ok () ∧
      v = (after (repeatingSteps [.fail (.conflict "no")])).startRun (leavesTaskTo (.call 0) 0 0)
        (.call 0) (bodySteps 0 ++ [.move (.call 0) 0]) ∧
      c = (after (repeatingSteps [.fail (.conflict "no")])).startLog (leavesTaskTo (.call 0) 0 0)
        (.call 0) (bodySteps 0 ++ [.move (.call 0) 0]) ∧
      c.told = none ∧ c.result.isSome = true ∧ v.executors[0]? = some x' ∧ x'.attempts = 1 ∧
        x'.errors.get? 1 = none ∧ v.tasks[0]? = some task' ∧ task'.runs = 1 := by
  obtain ⟨hx, task, htask, hbody, hidle, hruns⟩ := after_repeatingSteps [.fail (.conflict "no")]
  have hlog : ((after (repeatingSteps [.fail (.conflict "no")])).startLog
      (leavesTaskTo (.call 0) 0 0) (.call 0) (bodySteps 0 ++ [.move (.call 0) 0])).told = none ∧
        ((after (repeatingSteps [.fail (.conflict "no")])).startLog (leavesTaskTo (.call 0) 0 0)
          (.call 0) (bodySteps 0 ++ [.move (.call 0) 0])).result.isSome = true := by
    decide +kernel
  have hrun : ((after (repeatingSteps [.fail (.conflict "no")])).startRun
      (leavesTaskTo (.call 0) 0 0) (.call 0) (bodySteps 0 ++ [.move (.call 0) 0])).executors[0]?.any
        (fun x => x.attempts == 1 && x.errors.get? 1 == none) = true ∧
      ((after (repeatingSteps [.fail (.conflict "no")])).startRun (leavesTaskTo (.call 0) 0 0)
        (.call 0) (bodySteps 0 ++ [.move (.call 0) 0])).tasks[0]?.any (fun task => task.runs == 1) =
          true := by
    decide +kernel
  obtain ⟨x', hx', hrecord⟩ := (Option.any_eq_true _ _).1 hrun.1
  obtain ⟨task', htask', hcount⟩ := (Option.any_eq_true _ _).1 hrun.2
  rw [Bool.and_eq_true, beq_iff_eq, beq_iff_eq] at hrecord
  exact ⟨_, _, task, task', x', reachable_after _, hx, htask, hidle, hruns, fun _ => hbody ▸ rfl,
    rfl, rfl, rfl, hlog.1, hlog.2, hx', hrecord.1, hrecord.2, htask', beq_iff_eq.1 hcount⟩

end System

end Scheduling
