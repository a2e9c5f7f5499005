import Scheduling.Proofs.Changes
/-!
# What a step does to a cron table

`tableChange_of_step` says once what a step of a system can do to each of its standalone cron
tables: it carries out a request that names the table, or one of the table's timers moves. Only time
that passes changes the clock.
-/

namespace Scheduling

/-- How the step `a` of a system in the state `y` changes its table with number `i`. -/
inductive Cron.Table.Change (y : System) (a : Step) (i : TableId) (t : Cron.Table String) :
    Cron.Table String → Prop
  /-- The step is about something else. -/
  | idle (ha : ∀ timer choice, a ≠ .move (.tableTimer i timer) choice) : Change y a i t t
  | add {name expression : String} {schedule : Cron.Schedule}
      (ha : a = .request (.addEntry i name expression))
      (h : Cron.Schedule.parse expression = .ok schedule) :
      Change y a i t (t.add schedule name).2
  | remove {id : Cron.EntryId} (ha : a = .request (.removeEntry i id)) :
      Change y a i t (t.remove id).2
  | start (ha : a = .request (.startTable i)) : Change y a i t t.start
  | stop (ha : a = .request (.stopTable i)) : Change y a i t t.stop
  | clear (ha : a = .request (.clearTable i)) : Change y a i t t.clear
  | timer {timer : Cron.TimerId} {choice : Nat} {fired : Option String} {t' : Cron.Table String}
      (ha : a = .move (.tableTimer i timer) choice)
      (h : t.advance y.clock timer = some (fired, t')) : Change y a i t t'

namespace System

variable {y z : System} {a : Step} {i k : TableId} {t t' : Cron.Table String}

/-- What there is under the number of a table before and after a step. -/
inductive TableChange (y : System) (a : Step) (i : TableId) :
    Option (Cron.Table String) → Option (Cron.Table String) → Prop
  | absent : TableChange y a i none none
  | create (zone : ZoneChoice) : TableChange y a i none (some (Cron.Table.create zone))
  | change {t t' : Cron.Table String} (h : t.Change y a i t') : TableChange y a i (some t) (some t')

theorem tableChange_of_tables_eq (h : z.tables = y.tables)
    (ha : ∀ timer choice, a ≠ .move (.tableTimer i timer) choice) :
    y.TableChange a i y.tables[i]? z.tables[i]? := by
  rw [h]
  cases y.tables[i]? with
  | none => exact .absent
  | some t => exact .change (.idle ha)

theorem tableChange_of_modify {f : Cron.Table String → Cron.Table String}
    (h : z.tables = y.tables.modify k f)
    (hf : ∀ t, y.tables[i]? = some t → k = i → t.Change y a i (f t))
    (ha : k ≠ i → ∀ timer choice, a ≠ .move (.tableTimer i timer) choice) :
    y.TableChange a i y.tables[i]? z.tables[i]? := by
  rw [h, Array.getElem?_modify]
  by_cases hk : k = i
  · rw [if_pos hk]
    cases ht : y.tables[i]? with
    | none => exact .absent
    | some t => exact .change (hf t ht hk)
  · rw [if_neg hk]
    cases y.tables[i]? with
    | none => exact .absent
    | some t => exact .change (.idle (ha hk))

/-- Neither the clock nor a standalone queue or table is touched. -/
structure SparesStores (y z : System) : Prop where
  clock : z.clock = y.clock
  queues : z.queues = y.queues
  tables : z.tables = y.tables

theorem Works.sparesStores {own : Option ExecutorId} (h : y.Works own z) : y.SparesStores z :=
  ⟨h.clock, h.queues, h.tables⟩

theorem SparesStores.trans {u : System} (h : y.SparesStores z) (h' : z.SparesStores u) :
    y.SparesStores u :=
  ⟨h'.clock.trans h.clock, h'.queues.trans h.queues, h'.tables.trans h.tables⟩

theorem sparesStores_setScheduler (y : System) (k : SchedulerId) (s : Scheduler) :
    y.SparesStores (y.setScheduler k s) :=
  ⟨rfl, rfl, rfl⟩

/-! ## Requests -/

theorem sparesStores_addPlans (y : System) (k : SchedulerId) (plans : List Plan) :
    y.SparesStores ((y.addPlans k plans).toOption.getD y) := by
  obtain hsame | ⟨_, _, -, -, hset⟩ := addPlans_cases y k plans
  · rw [hsame]
    exact ⟨rfl, rfl, rfl⟩
  · rw [hset]
    exact sparesStores_setScheduler y k _

theorem sparesStores_removePlan (y : System) (k : SchedulerId) (p : Plan) :
    y.SparesStores (y.removePlan k p) := by
  cases hs : y.schedulers[k]? with
  | none =>
      have hsame : y.removePlan k p = y := by simp [removePlan, hs]
      rw [hsame]
      exact ⟨rfl, rfl, rfl⟩
  | some s =>
      have hw : (y.setScheduler k ((s.unschedule p.key).dequeue p.key)).Works none
          (y.removePlan k p) := works_removePlan hs
      exact (sparesStores_setScheduler y k _).trans hw.sparesStores

theorem sparesStores_startScheduler (y : System) (k : SchedulerId) (c : ContextId) :
    y.SparesStores (y.startScheduler k c) := by
  obtain hsame | ⟨_, -, -, hstart⟩ := startScheduler_cases y k c
  · rw [hsame]
    exact ⟨rfl, rfl, rfl⟩
  · rw [hstart]
    exact ⟨rfl, rfl, rfl⟩

/-- Whether a request is about a standalone queue or table. -/
def namesStore : Request → Bool
  | .newQueue _ | .push _ _ | .tryPop _ | .update _ _ | .removeQueued _ _ => true
  | .newTable _ | .addEntry _ _ _ | .removeEntry _ _ => true
  | .startTable _ | .stopTable _ | .clearTable _ => true
  | _ => false

theorem sparesStores_carryOut {r : Request} (h : namesStore r = false) :
    y.SparesStores (y.carryOut r) := by
  cases r with
  | newQueue | push | tryPop | update | removeQueued => cases h
  | newTable | addEntry | removeEntry | startTable | stopTable | clearTable => cases h
  | startTask t c =>
      have hw : y.Works none (y.startTask t c).2 := works_startTask y t c
      exact hw.sparesStores
  | cancelTask t =>
      have hw : y.Works none (y.cancelTask t).2 := works_cancelTask y t
      exact hw.sparesStores
  | cancelExecutor e =>
      have hw : y.Works none (y.cancelExecutor e).2 := works_cancelExecutor y e
      exact hw.sparesStores
  | newChildFor parent timeout =>
      cases h : y.newChildFor parent timeout with
      | none =>
          have hw : y.Works none y := .refl y
          simpa [carryOut, h] using hw.sparesStores
      | some made =>
          have hw : y.Works none made.2 := works_newChildFor h
          simpa [carryOut, h] using hw.sparesStores
  | newScheduler b =>
      cases hb : b.build <;> simp only [carryOut, hb] <;> exact ⟨rfl, rfl, rfl⟩
  | addPlans k plans => exact sparesStores_addPlans y k plans
  | removePlan k p => exact sparesStores_removePlan y k p
  | startScheduler k c => exact sparesStores_startScheduler y k c
  | cancelPlan k key =>
      have hw : y.Works none ((y.cancelPlan k key).toOption.getD y) := works_cancelPlan y k key
      exact hw.sparesStores
  | _ => exact ⟨rfl, rfl, rfl⟩

theorem tableChange_carryOut (y : System) (r : Request) (i : TableId) :
    y.TableChange (.request r) i y.tables[i]? (y.carryOut r).tables[i]? ∧
      (y.carryOut r).clock = y.clock := by
  have hspares (h : y.SparesStores (y.carryOut r)) :
      y.TableChange (.request r) i y.tables[i]? (y.carryOut r).tables[i]? ∧
        (y.carryOut r).clock = y.clock :=
    ⟨tableChange_of_tables_eq h.tables nofun, h.clock⟩
  have hmodify {k : TableId} {f : Cron.Table String → Cron.Table String}
      (h : y.carryOut r = y.modifyTable k f)
      (hf : ∀ t, k = i → Cron.Table.Change y (.request r) i t (f t)) :
      y.TableChange (.request r) i y.tables[i]? (y.carryOut r).tables[i]? ∧
        (y.carryOut r).clock = y.clock := by
    rw [h]
    exact ⟨tableChange_of_modify rfl (fun t _ => hf t) nofun, rfl⟩
  cases r with
  | newQueue | push | tryPop | update | removeQueued =>
      exact ⟨tableChange_of_tables_eq rfl nofun, rfl⟩
  | newTable zone =>
      refine ⟨?_, rfl⟩
      change y.TableChange _ i y.tables[i]? (y.tables.push (Cron.Table.create zone))[i]?
      rw [Array.getElem?_push]
      cases ht : y.tables[i]? with
      | none =>
          split
          · exact .create zone
          · exact .absent
      | some t =>
          have hlt : i < y.tables.size := (Array.getElem?_eq_some_iff.1 ht).1
          rw [if_neg (Nat.ne_of_lt hlt)]
          exact .change (.idle nofun)
  | addEntry k name expression =>
      cases hparse : Cron.Schedule.parse expression with
      | error err => exact hspares (by simp only [carryOut, hparse]; exact ⟨rfl, rfl, rfl⟩)
      | ok schedule =>
          refine hmodify (k := k) (f := fun t => (t.add schedule name).2) ?_ fun t hk => ?_
          · simp only [carryOut, hparse]
          · exact hk ▸ .add rfl hparse
  | removeEntry => exact hmodify rfl (fun t hk => hk ▸ .remove rfl)
  | startTable => exact hmodify rfl (fun t hk => hk ▸ .start rfl)
  | stopTable => exact hmodify rfl (fun t hk => hk ▸ .stop rfl)
  | clearTable => exact hmodify rfl (fun t hk => hk ▸ .clear rfl)
  | _ => exact hspares (sparesStores_carryOut rfl)

/-! ## Moves -/

theorem sparesStores_requestStop (y : System) (k : SchedulerId) (wait : Bool) :
    y.SparesStores (y.requestStop k wait).2 := by
  obtain ⟨u, hu, hstop⟩ := requestStop_cases y k wait
  have hfirst : y.SparesStores u := by
    obtain rfl | ⟨_, _, -, -, rfl⟩ := hu <;> exact ⟨rfl, rfl, rfl⟩
  obtain hsame | ⟨s', hset⟩ := hstop
  · rw [hsame]
    exact hfirst
  · rw [hset]
    exact hfirst.trans (sparesStores_setScheduler u k s')

/-- A call that does not ask a queue for a plan leaves queues and tables alone. -/
theorem CallMove.sparesStores {call call' : Call} (h : y.CallMove call z call')
    (hcall : ∀ q point, call ≠ .pop q point) : y.SparesStores z := by
  cases h with
  | waitOn | pop => exact absurd rfl (hcall _ _)
  | goOn hmade | returns hmade | panics hmade =>
      exact (works_of_mem_executionMoves hmade).sparesStores
  | @stopAndWait e | @stop e =>
      have hw : y.Works none (y.cancelExecutor e).2 := works_cancelExecutor y e
      exact hw.sparesStores
  | awaitEnd hstop | stopScheduler hstop =>
      obtain rfl : _ = z := congrArg Prod.snd hstop
      exact sparesStores_requestStop y _ _
  | _ => exact ⟨rfl, rfl, rfl⟩

theorem sparesStores_of_mem_dispatchMoves {k : SchedulerId} {j : SessionId}
    (h : z ∈ y.dispatchMoves k j) : y.SparesStores z := by
  obtain ⟨s, -, hmove⟩ := of_mem_dispatchMoves h
  cases hmove with
  | move _ hz | skip _ _ hz => exact hz ▸ sparesStores_setScheduler y k _
  | enter _ _ hz => exact hz ▸ ⟨rfl, rfl, rfl⟩
  | @cancelAll s' _ hz =>
      have hw : (y.setScheduler k s').Works none
          (s'.executing.values.foldl cancelExecution (y.setScheduler k s')) :=
        works_foldl_cancelExecution _ _
      exact hz ▸ (sparesStores_setScheduler y k s').trans hw.sparesStores

theorem sparesStores_of_workerMoves {k : SchedulerId} {j : SessionId} {e : ExecutorId}
    {choice : Nat} (h : (y.workerMoves k j e)[choice]? = some z) : y.SparesStores z := by
  obtain ⟨s, w, u, status, -, -, hmade, hmove⟩ := workerMove_of_getElem? h
  have hu : y.SparesStores u :=
    (works_of_mem_executionMoves (List.mem_of_getElem? hmade)).sparesStores
  cases hmove with
  | goOn | panics | returns => exact hu.trans ⟨rfl, rfl, rfl⟩

/-- Only calls and the timers of tables move queues and tables. -/
theorem sparesStores_of_moves {actor : Actor} {choice : Nat}
    (h : (y.moves actor)[choice]? = some z) (hcall : ∀ k, actor ≠ .call k)
    (htimer : ∀ k timer, actor ≠ .tableTimer k timer) : y.SparesStores z := by
  have hmem : z ∈ y.moves actor := List.mem_of_getElem? h
  cases actor with
  | deadline c =>
      obtain ⟨-, rfl⟩ := of_mem_guarded hmem
      exact ⟨rfl, rfl, rfl⟩
  | run r =>
      have hw : y.Works none z := works_of_mem_runMoves hmem
      exact hw.sparesStores
  | call k => exact absurd rfl (hcall k)
  | tableTimer k timer => exact absurd rfl (htimer k timer)
  | planTimer k timer =>
      obtain ⟨s, s', -, -, rfl⟩ := of_mem_planTimerMoves hmem
      exact sparesStores_setScheduler y k s'
  | fetch k j =>
      obtain ⟨s, s', -, -, rfl⟩ := of_mem_fetchMoves hmem
      exact sparesStores_setScheduler y k s'
  | dispatch k j => exact sparesStores_of_mem_dispatchMoves hmem
  | supervisor k j =>
      obtain ⟨s, s', -, -, rfl⟩ := of_mem_closeMoves hmem
      exact sparesStores_setScheduler y k s'
  | worker k j e => exact sparesStores_of_workerMoves h

/-- Only the timers of tables move tables. -/
theorem clock_tables_of_moves {actor : Actor} {choice : Nat}
    (h : (y.moves actor)[choice]? = some z) (htimer : ∀ k timer, actor ≠ .tableTimer k timer) :
    z.clock = y.clock ∧ z.tables = y.tables := by
  by_cases hactor : ∃ k, actor = .call k
  · obtain ⟨k, rfl⟩ := hactor
    obtain ⟨call, u, call', -, hmove, rfl⟩ := callMove_of_mem (List.mem_of_getElem? h)
    by_cases hcall : ∃ q point, call = .pop q point
    · obtain ⟨q, point, rfl⟩ := hcall
      cases hmove with
      | waitOn | pop => exact ⟨rfl, rfl⟩
    · have hspares := hmove.sparesStores fun q point heq => hcall ⟨q, point, heq⟩
      exact ⟨hspares.clock, hspares.tables⟩
  · have hspares := sparesStores_of_moves h (fun k heq => hactor ⟨k, heq⟩) htimer
    exact ⟨hspares.clock, hspares.tables⟩

/-! ## Steps -/

/-- The clock after a step. -/
def clockAfter (y : System) : Step → Clock
  | .pass millis => { y.clock with millis := millis }
  | _ => y.clock

theorem tableChange_of_step (h : y.step? a = some z) (i : TableId) :
    y.TableChange a i y.tables[i]? z.tables[i]? ∧ z.clock = y.clockAfter a := by
  cases a with
  | request r =>
      obtain ⟨-, rfl⟩ := step_request_iff.1 h
      exact tableChange_carryOut y r i
  | pass millis =>
      obtain ⟨hlt, rfl⟩ := step_pass_iff.1 h
      refine ⟨tableChange_of_tables_eq rfl nofun, ?_⟩
      rw [advanceTo, Nat.max_eq_right (Nat.le_of_lt hlt)]
      rfl
  | move actor choice =>
      by_cases hactor : ∃ k timer, actor = .tableTimer k timer
      · obtain ⟨k, timer, rfl⟩ := hactor
        obtain ⟨t, t', fired, ht, hadvance, rfl⟩ :=
          of_mem_tableTimerMoves (List.mem_of_getElem? h)
        refine ⟨tableChange_of_modify (k := k) (f := fun _ => t') rfl (fun u hu hk => ?_)
          fun hk _ _ heq => ?_, rfl⟩
        · subst hk
          obtain rfl := Option.some.inj (hu.symm.trans ht)
          exact .timer rfl hadvance
        · cases heq
          exact hk rfl
      · obtain ⟨hclock, htables⟩ := clock_tables_of_moves h fun k timer heq =>
          hactor ⟨k, timer, heq⟩
        exact ⟨tableChange_of_tables_eq htables fun timer _ heq =>
          hactor ⟨i, timer, (Step.move.inj heq).1⟩, hclock⟩

/-- A table is still there after a step, as the step has changed it. -/
theorem change_of_table (h : y.step? a = some z) (ht : y.tables[i]? = some t) :
    ∃ t', z.tables[i]? = some t' ∧ t.Change y a i t' := by
  have hchange := (tableChange_of_step h i).1
  rw [ht] at hchange
  generalize z.tables[i]? = found at hchange
  cases hchange with
  | change h => exact ⟨_, rfl, h⟩

end System

end Scheduling
