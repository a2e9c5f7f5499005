import Mathlib.Logic.Relation
import Scheduling.Proofs.Workers
import Scheduling.Scenario
/-!
# Scenarios stay within the reachable systems

The commands of a scenario make requests, settle what they set off and let time pass. All of this
is done by steps of the system, so whatever holds of the reachable systems holds of a scenario after
each of its commands.
-/

namespace Scheduling

namespace System

/-- One system leads to another by steps. -/
def Leads : System → System → Prop :=
  Relation.ReflTransGen fun y z => ∃ a, y.step? a = some z

variable {y z u : System}

theorem Leads.refl (y : System) : y.Leads y :=
  Relation.ReflTransGen.refl

theorem Leads.trans (h : y.Leads z) (h' : z.Leads u) : y.Leads u :=
  Relation.ReflTransGen.trans h h'

theorem leads_of_step {a : Step} (h : y.step? a = some z) : y.Leads z :=
  Relation.ReflTransGen.single ⟨a, h⟩

theorem Leads.reachable (h : y.Leads z) (hy : y.Reachable) : z.Reachable := by
  induction h with
  | refl => exact hy
  | tail _ hstep ih =>
      obtain ⟨a, ha⟩ := hstep
      exact .step ih rfl ha

/-! ## What names stand for goes on to exist -/

theorem Leads.hasContext {c : ContextId} (h : y.Leads z) (hc : y.hasContext c = true) :
    z.hasContext c = true := by
  induction h with
  | refl => exact hc
  | tail _ hstep ih =>
      obtain ⟨a, ha⟩ := hstep
      exact (proceeds_of_step ha).hasContext ih

theorem Leads.tasksEndure (h : y.Leads z) : y.TasksEndure z := by
  induction h with
  | refl => exact tasksEndure_of_eq rfl
  | tail _ hstep ih =>
      obtain ⟨a, ha⟩ := hstep
      exact ih.trans (proceeds_of_step ha).tasks

theorem Leads.knows {p : Plan} (h : y.Leads z) (hp : y.knows p = true) : z.knows p = true := by
  induction h with
  | refl => exact hp
  | tail _ hstep ih =>
      obtain ⟨a, ha⟩ := hstep
      exact (proceeds_of_step ha).knows ih

/-- An executor that may be used from outside never becomes that of a worker. -/
theorem Leads.lends {e : ExecutorId} (h : y.Leads z) (he : y.lends e = true) :
    z.lends e = true := by
  induction h with
  | refl => exact he
  | tail _ hstep ih =>
      obtain ⟨a, ha⟩ := hstep
      obtain ⟨hlt, hnone⟩ := lends_iff.1 ih
      refine lends_iff.2 ⟨Nat.lt_of_lt_of_le hlt (proceeds_of_step ha).executors_size, ?_⟩
      intro i j hemploys
      obtain hold | ⟨-, heq, -⟩ := employs_of_step ha hemploys
      · exact hnone i j hold
      · exact Nat.ne_of_lt hlt heq

/-- A new executor may be used from outside. -/
theorem lends_push (hy : y.Reachable) (x : Executor) :
    { y with executors := y.executors.push x }.lends y.executors.size = true := by
  refine lends_iff.2 ⟨?_, fun i j he => ?_⟩
  · simp
  · obtain ⟨s, n, hs, hn, he⟩ := he
    exact Nat.lt_irrefl _ (hy.numbered.lt ⟨s, n, hs, hn, he⟩)

/-! ## Requests, settling and time -/

theorem leads_carryOut {r : Request} (h : y.accepts r = true) : y.Leads (y.carryOut r) :=
  leads_of_step (step_request_iff.2 ⟨h, rfl⟩)

theorem leads_of_mem_moves {a : Actor} (h : z ∈ y.moves a) : y.Leads z := by
  obtain ⟨choice, hchoice⟩ := List.mem_iff_getElem?.1 h
  exact leads_of_step (a := .move a choice) hchoice

theorem leads_advanceTo (y : System) (millis : Nat) : y.Leads (y.advanceTo millis) := by
  by_cases h : y.clock.millis < millis
  · exact leads_of_step (step_pass_iff.2 ⟨h, rfl⟩)
  · have hsame : y.advanceTo millis = y := by
      simp [advanceTo, Nat.max_eq_left (Nat.le_of_not_lt h)]
    rw [hsame]
    exact .refl y

theorem leads_exhaust (fuel : Nat) (y : System) (a : Actor) (moved : Bool) :
    y.Leads (exhaust fuel y a moved).1 := by
  induction fuel generalizing y moved with
  | zero => exact .refl y
  | succ fuel ih =>
      unfold exhaust
      split
      · exact .refl y
      · rename_i z rest hmoves
        have hz : y.Leads z := leads_of_mem_moves (a := a) (by simp [hmoves])
        exact hz.trans (ih z true)

theorem leads_turn (fuel : Nat) (y : System) (as : List Actor) : y.Leads (turn fuel y as).1 := by
  have hfold (y : System) (moved : Bool) :
      y.Leads (as.foldl (fun (made : System × Bool) a => exhaust fuel made.1 a made.2)
        (y, moved)).1 := by
    induction as generalizing y moved with
    | nil => exact .refl y
    | cons a as ih => exact (leads_exhaust fuel y a moved).trans (ih _ _)
  exact hfold y false

theorem leads_settleFor (fuel : Nat) (y : System) : y.Leads (settleFor fuel y) := by
  induction fuel generalizing y with
  | zero => exact .refl y
  | succ fuel ih =>
      have hturn := leads_turn (fuel + 1) y y.actors
      unfold settleFor
      split
      · rename_i z hz
        rw [hz] at hturn
        exact hturn.trans (ih z)
      · rename_i z hz
        rw [hz] at hturn
        exact hturn

theorem leads_settle (y : System) : y.Leads y.settle :=
  leads_settleFor patience y

theorem leads_passFor (done : System → Bool) (limit fuel : Nat) (y : System) :
    y.Leads (passFor done limit fuel y) := by
  induction fuel generalizing y with
  | zero => exact .refl y
  | succ fuel ih =>
      have hsettle := leads_settle y
      unfold passFor
      dsimp only
      split
      · exact hsettle
      · split
        · split
          · exact (hsettle.trans (leads_advanceTo _ _)).trans (ih _)
          · exact hsettle.trans (leads_advanceTo _ _)
        · exact hsettle.trans (leads_advanceTo _ _)

theorem leads_pass (y : System) (done : System → Bool) (limit : Nat) :
    y.Leads (y.pass done limit) :=
  leads_passFor done limit patience y

section Modify

variable {α : Type} {xs : Array α} {k : Nat} {x : α}

/-- A known element may be worked on before it is put back. -/
theorem modify_const (h : xs[k]? = some x) (f : α → α) :
    (xs.modify k fun _ => f x) = xs.modify k f := by
  apply Array.ext_getElem?
  intro l
  rw [Array.getElem?_modify, Array.getElem?_modify]
  split
  · rename_i hl
    subst hl
    rw [h]
    rfl
  · rfl

theorem modify_self (h : xs[k]? = some x) : (xs.modify k fun _ => x) = xs := by
  apply Array.ext_getElem?
  intro l
  rw [Array.getElem?_modify]
  split
  · rename_i hl
    subst hl
    rw [h]
    rfl
  · rfl

end Modify

theorem leads_modifyQueue {q : QueueId} {queue : Queue Plan} (h : y.queues[q]? = some queue)
    {f : Queue Plan → Queue Plan} (hf : y.Leads (y.modifyQueue q f)) :
    y.Leads (y.modifyQueue q fun _ => f queue) := by
  unfold modifyQueue at hf ⊢
  rw [modify_const h]
  exact hf

theorem leads_modifyTable {i : TableId} {table : Cron.Table String}
    (h : y.tables[i]? = some table) {f : Cron.Table String → Cron.Table String}
    (hf : y.Leads (y.modifyTable i f)) : y.Leads (y.modifyTable i fun _ => f table) := by
  unfold modifyTable at hf ⊢
  rw [modify_const h]
  exact hf

end System

namespace Scenario

open Scheduling.System (leads_carryOut leads_pass)

/-- The second scenario comes from the first by steps, and has the same names for contexts and
executors. -/
structure Continues (s s' : Scenario) : Prop where
  leads : s.system.Leads s'.system
  contexts : s'.contexts = s.contexts
  executors : s'.executors = s.executors

theorem Continues.refl (s : Scenario) : s.Continues s :=
  ⟨.refl _, rfl, rfl⟩

theorem continues_of_leads {s : Scenario} {y : System} (h : s.system.Leads y) :
    s.Continues { s with system := y } :=
  ⟨h, rfl, rfl⟩

theorem Continues.trans {s s' s'' : Scenario} (h : s.Continues s') (h' : s'.Continues s'') :
    s.Continues s'' :=
  ⟨h.leads.trans h'.leads, h'.contexts.trans h.contexts, h'.executors.trans h.executors⟩

/-- The system is reachable, the contexts with a name exist, and no executor with a name is that of
a worker. -/
structure Sound (s : Scenario) : Prop where
  reachable : s.system.Reachable
  contexts : ∀ (name : String) (c : ContextId), s.contexts.get? name = some c →
    s.system.hasContext c = true
  executors : ∀ (name : String) (e : ExecutorId), s.executors.get? name = some e →
    s.system.lends e = true

theorem sound_create (origin : Int) : (create origin).Sound where
  reachable := .create origin
  contexts name c h := by simp [create] at h
  executors name e h := by simp [create] at h

variable {s s' : Scenario} {name : String}

theorem Sound.continues (h : s.Sound) (hs : s.Continues s') : s'.Sound where
  reachable := hs.leads.reachable h.reachable
  contexts name c hc := hs.leads.hasContext (h.contexts name c (hs.contexts ▸ hc))
  executors name e he := hs.leads.lends (h.executors name e (hs.executors ▸ he))

/-- A context is given a name. -/
theorem Sound.named {c : ContextId} (h : s.Sound) (hleads : s.system.Leads s'.system)
    (hcontexts : s'.contexts = s.contexts.insert name c)
    (hexecutors : s'.executors = s.executors) (hc : s'.system.hasContext c = true) :
    s'.Sound where
  reachable := hleads.reachable h.reachable
  contexts name' c' hc' := by
    rw [hcontexts, Registry.get?_insert] at hc'
    split at hc'
    · cases hc'
      exact hc
    · exact hleads.hasContext (h.contexts name' c' hc')
  executors name' e he := hleads.lends (h.executors name' e (hexecutors ▸ he))

theorem Sound.namedExecutor {e : ExecutorId} (h : s.Sound) (hleads : s.system.Leads s'.system)
    (hcontexts : s'.contexts = s.contexts)
    (hexecutors : s'.executors = s.executors.insert name e) (he : s'.system.lends e = true) :
    s'.Sound where
  reachable := hleads.reachable h.reachable
  contexts name' c hc := hleads.hasContext (h.contexts name' c (hcontexts ▸ hc))
  executors name' e' he' := by
    rw [hexecutors, Registry.get?_insert] at he'
    split at he'
    · cases he'
      exact he
    · exact hleads.lends (h.executors name' e' he')

/-! ## Looking names up -/

theorem Sound.onContext {f : ContextId → Answer × Scenario} (h : s.Sound)
    (hf : ∀ c, s.system.hasContext c = true → (f c).2.Sound) : (s.onContext name f).2.Sound := by
  unfold Scenario.onContext
  cases hc : s.contexts.get? name with
  | none => exact h
  | some c => exact hf c (h.contexts name c hc)

theorem Sound.onTask {f : TaskId → Task → Answer × Scenario} (h : s.Sound)
    (hf : ∀ t task, t < s.system.tasks.size → (f t task).2.Sound) :
    (s.onTask name f).2.Sound := by
  unfold Scenario.onTask
  cases s.tasks.get? name with
  | none => exact h
  | some t =>
      cases htask : s.system.tasks[t]? with
      | none => simpa [htask] using h
      | some task =>
          have ht := (Array.getElem?_eq_some_iff.1 htask).1
          simpa [htask] using hf t task ht

theorem Sound.onExecutor {f : ExecutorId → Executor → Answer × Scenario} (h : s.Sound)
    (hf : ∀ e x, s.system.lends e = true → (f e x).2.Sound) :
    (s.onExecutor name f).2.Sound := by
  unfold Scenario.onExecutor
  cases he : s.executors.get? name with
  | none => exact h
  | some e =>
      cases hx : s.system.executors[e]? with
      | none => simpa [hx] using h
      | some x => simpa [hx] using hf e x (h.executors name e he)

theorem Sound.onScheduler {f : SchedulerId → Scheduler → Answer × Scenario} (h : s.Sound)
    (hf : ∀ i x, i < s.system.schedulers.size → (f i x).2.Sound) :
    (s.onScheduler name f).2.Sound := by
  unfold Scenario.onScheduler
  cases s.schedulers.get? name with
  | none => exact h
  | some i =>
      cases hx : s.system.schedulers[i]? with
      | none => simpa [hx] using h
      | some x =>
          have hi := (Array.getElem?_eq_some_iff.1 hx).1
          simpa [hx] using hf i x hi

theorem Sound.onQueue {f : Queue Plan → Answer × Queue Plan} (h : s.Sound)
    (hf : ∀ q queue, q < s.system.queues.size → s.system.queues[q]? = some queue →
      s.system.Leads (s.system.modifyQueue q fun _ => (f queue).2)) :
    (s.onQueue name f).2.Sound := by
  unfold Scenario.onQueue
  cases s.queues.get? name with
  | none => exact h
  | some q =>
      cases hqueue : s.system.queues[q]? with
      | none => simpa [hqueue] using h
      | some queue =>
          have hlt := (Array.getElem?_eq_some_iff.1 hqueue).1
          simpa [hqueue, System.modifyQueue] using
            h.continues (continues_of_leads (hf q queue hlt hqueue))

theorem Sound.onTable {f : Cron.Table String → Answer × Cron.Table String} (h : s.Sound)
    (hf : ∀ i table, i < s.system.tables.size → s.system.tables[i]? = some table →
      s.system.Leads (s.system.modifyTable i fun _ => (f table).2)) :
    (s.onTable name f).2.Sound := by
  unfold Scenario.onTable
  cases s.tables.get? name with
  | none => exact h
  | some i =>
      cases htable : s.system.tables[i]? with
      | none => simpa [htable] using h
      | some table =>
          have hlt := (Array.getElem?_eq_some_iff.1 htable).1
          simpa [htable, System.modifyTable] using
            h.continues (continues_of_leads (hf i table hlt htable))

/-! ## Contexts and plans for a command -/

theorem continues_of_contextOr {wanted : Option String} {made : ContextId × Scenario}
    (h : s.Sound) (hmade : s.contextOr wanted = some made) :
    s.Continues made.2 ∧ made.2.system.hasContext made.1 = true := by
  cases wanted with
  | some name =>
      obtain ⟨c, hc, rfl⟩ := Option.map_eq_some_iff.1 hmade
      exact ⟨.refl s, h.contexts name c hc⟩
  | none =>
      obtain rfl := Option.some.inj hmade
      refine ⟨continues_of_leads (leads_carryOut (r := .newContext) rfl), ?_⟩
      simp [System.hasContext]

theorem Sound.withContext {wanted : Option String} {f : ContextId → Scenario → Answer × Scenario}
    (h : s.Sound)
    (hf : ∀ c s', s.Continues s' → s'.system.hasContext c = true → (f c s').2.Sound) :
    (s.withContext wanted f).2.Sound := by
  unfold Scenario.withContext
  split
  · rename_i c s' hmade
    obtain ⟨hs, hc⟩ := continues_of_contextOr h hmade
    exact hf c s' hs hc
  · exact h

theorem continues_of_plan {r : PlanRequest} {made : Plan × Scenario} (h : s.Sound)
    (hmade : s.plan r = some made) :
    s.Continues made.2 ∧ made.2.system.knows made.1 = true := by
  obtain ⟨t, -, hmade⟩ := Option.bind_eq_some_iff.1 hmade
  obtain ⟨task, htask, hmade⟩ := Option.bind_eq_some_iff.1 hmade
  obtain ⟨⟨c, s'⟩, hcontext, hmade⟩ := Option.bind_eq_some_iff.1 hmade
  obtain rfl := Option.some.inj hmade
  obtain ⟨hs, hc⟩ := continues_of_contextOr h hcontext
  obtain ⟨task', htask', hendures⟩ := hs.leads.tasksEndure t task htask
  refine ⟨hs, ?_⟩
  dsimp only at hc ⊢
  simp [System.knows, hc, htask', hendures.id, hendures.createdAt]

theorem continues_of_plans {rs : List PlanRequest} {made : List Plan × Scenario} (h : s.Sound)
    (hmade : s.plans rs = some made) :
    s.Continues made.2 ∧ ∀ p ∈ made.1, made.2.system.knows p = true := by
  induction rs generalizing s made with
  | nil =>
      obtain rfl := Option.some.inj hmade
      exact ⟨.refl s, by simp⟩
  | cons r rs ih =>
      obtain ⟨⟨p, s₁⟩, hplan, hmade⟩ := Option.bind_eq_some_iff.1 hmade
      obtain ⟨⟨ps, s₂⟩, hplans, hmade⟩ := Option.bind_eq_some_iff.1 hmade
      obtain rfl := Option.some.inj hmade
      obtain ⟨hs₁, hp⟩ := continues_of_plan h hplan
      obtain ⟨hs₂, hps⟩ := ih (h.continues hs₁) hplans
      refine ⟨hs₁.trans hs₂, fun q hq => ?_⟩
      obtain rfl | hq := List.mem_cons.1 hq
      · exact hs₂.leads.knows hp
      · exact hps q hq

theorem Sound.withPlans {rs : List PlanRequest} {f : List Plan → Scenario → Answer × Scenario}
    (h : s.Sound)
    (hf : ∀ ps s', s.Continues s' → (∀ p ∈ ps, s'.system.knows p = true) → (f ps s').2.Sound) :
    (s.withPlans rs f).2.Sound := by
  unfold Scenario.withPlans
  split
  · rename_i ps s' hmade
    obtain ⟨hs, hps⟩ := continues_of_plans h hmade
    exact hf ps s' hs hps
  · exact h

theorem Sound.withPlan {r : PlanRequest} {f : Plan → Scenario → Answer × Scenario} (h : s.Sound)
    (hf : ∀ p s', s.Continues s' → s'.system.knows p = true → (f p s').2.Sound) :
    (s.withPlan r f).2.Sound := by
  unfold Scenario.withPlan
  split
  · rename_i p s' hmade
    obtain ⟨hs, hp⟩ := continues_of_plan h hmade
    exact hf p s' hs hp
  · exact h

/-! ## Calls -/

theorem continues_join (s : Scenario) (name : String) (limit : Nat) :
    s.Continues (s.join name limit).2 := by
  unfold join
  split
  · exact .refl s
  · rename_i k hk
    have hpass := leads_pass s.system (callEnded k) (s.system.clock.millis + limit)
    dsimp only
    split <;> exact ⟨hpass, rfl, rfl⟩

theorem Sound.call {mode : CallMode} {c : Call} (h : s.Sound)
    (hc : s.system.acceptsCall c = true) : (s.call mode c).2.Sound := by
  have hcall : s.system.Leads { s.system with calls := s.system.calls.push c } :=
    leads_carryOut (r := .call c) hc
  unfold Scenario.call
  dsimp only
  split
  · exact h.continues ⟨hcall, rfl, rfl⟩
  · have hs : s.Continues { s with
        system := { s.system with calls := s.system.calls.push c }
        calls := s.calls.insert (mode.name.getD "") s.system.calls.size } := ⟨hcall, rfl, rfl⟩
    exact h.continues (hs.trans (continues_join _ _ _))

/-! ## Commands -/

theorem Sound.addContext {parent : Option String} {timeout : Option Duration} (h : s.Sound) :
    (s.addContext name parent timeout).2.Sound := by
  unfold Scenario.addContext
  dsimp only
  split
  · exact h.named (leads_carryOut (r := .newContext) rfl) rfl rfl
      (by simp [System.hasContext, System.newContext, ContextTree.background])
  · refine h.onContext fun c hc => ?_
    exact h.named (leads_carryOut (r := .newChild c) hc) rfl rfl
      (by simp [System.hasContext, System.newChild, ContextTree.child])
  · rename_i d
    refine h.withContext fun c s' hs hc => ?_
    split
    · rename_i made y hmade
      have hleads : s'.system.Leads y := by
        have hcarry := leads_carryOut (y := s'.system) (r := .newChildFor c d) hc
        simpa [System.carryOut, hmade] using hcarry
      obtain ⟨expiry, -, hy⟩ := Option.map_eq_some_iff.1 hmade
      cases hy
      exact h.named (hs.leads.trans hleads) rfl rfl
        (by simp [System.hasContext])
    · exact h.continues hs

theorem leads_removePlans {y : System} {i : SchedulerId} {plans : List Plan}
    (hi : i < y.schedulers.size) (hplans : ∀ p ∈ plans, y.knows p = true) :
    y.Leads (y.removePlans i plans) := by
  induction plans generalizing y with
  | nil => exact .refl y
  | cons p plans ih =>
      have hp := hplans p List.mem_cons_self
      have hremove : y.Leads (y.removePlan i p) :=
        leads_carryOut (r := .removePlan i p) (by simp [System.accepts, hi, hp])
      refine hremove.trans (ih ?_ fun q hq => ?_)
      · have hworks : (y.setScheduler i _).Works none (y.removePlan i p) :=
          System.works_removePlan (Array.getElem?_eq_getElem hi)
        rw [hworks.schedulers]
        exact Nat.lt_of_lt_of_eq hi Array.size_modify.symm
      · exact hremove.knows (hplans q (List.mem_cons_of_mem _ hq))

theorem leads_clear (y : System) (i : TableId) :
    y.Leads { y with tables := y.tables.modify i Cron.Table.clear } := by
  by_cases hi : i < y.tables.size
  · exact leads_carryOut (r := .clearTable i) (by simp [System.accepts, hi])
  · have hsame : y.tables.modify i Cron.Table.clear = y.tables := by
      simp [Array.modify, Array.modifyM, hi]
    rw [hsame]
    exact .refl y

end Scenario

/-- A scheduler that comes with a command was made from settings. -/
def Command.IsBuilt : Command → Prop
  | .scheduler _ s => ∃ b : Blueprint, b.build = .ok s
  | _ => True

namespace Scenario

open Scheduling.System (leads_carryOut leads_pass)

variable {s : Scenario}

theorem Sound.perform {command : Command} (h : s.Sound) (hbuilt : command.IsBuilt) :
    (s.perform command).2.Sound := by
  cases command with
  | wait d => exact h.continues (continues_of_leads (leads_pass _ _ _))
  | join call limit =>
      simp only [Scenario.perform]
      exact h.continues (continues_join s call limit)
  | log => exact h.continues ⟨.refl _, rfl, rfl⟩
  | context name parent timeout => exact h.addContext
  | cancelContext name =>
      exact h.onContext fun c hc =>
        h.continues (continues_of_leads (leads_carryOut (r := .cancelContext c) hc))
  | cancelSilently name =>
      exact h.onContext fun c hc =>
        h.continues (continues_of_leads (leads_carryOut (r := .cancelSilently c) hc))
  | showContext name => exact h.onContext fun _ _ => h
  | sleep mode context d => exact h.onContext fun c hc => h.call hc
  | awaitContext mode context => exact h.onContext fun c hc => h.call hc
  | task name id labels body =>
      exact h.continues ⟨leads_carryOut (r := .newTask _ labels body) rfl, rfl, rfl⟩
  | startTask task context =>
      refine h.onTask fun t task ht => h.withContext fun c s' hs hc => ?_
      have ht' := Nat.lt_of_lt_of_le ht hs.leads.tasksEndure.size_le
      have hstart := leads_carryOut (y := s'.system) (r := .startTask t c)
        (by simp [System.accepts, ht', hc])
      exact h.continues (hs.trans (continues_of_leads hstart))
  | cancelTask task =>
      refine h.onTask fun t task ht => ?_
      exact h.continues (continues_of_leads
        (leads_carryOut (r := .cancelTask t) (by simp [System.accepts, ht])))
  | awaitTask mode task =>
      refine h.onTask fun t task ht => ?_
      exact h.call (by simp [System.acceptsCall, ht])
  | showTask task | resultAs task shape => exact h.onTask fun _ _ _ => h
  | sameTask task other => exact h.onTask fun _ _ _ => h.onTask fun _ _ _ => h
  | executor name task options =>
      refine h.onTask fun t task ht => ?_
      exact h.namedExecutor (leads_carryOut (r := .newExecutor t options)
        (by simp [System.accepts, ht])) rfl rfl (System.lends_push h.reachable _)
  | start mode executor context =>
      refine h.onExecutor fun e x he => h.withContext fun c s' hs hc => ?_
      have he' := hs.leads.lends he
      exact (h.continues hs).call (by simp [System.acceptsCall, he', hc])
  | cancelExecutor executor =>
      exact h.onExecutor fun e x he =>
        h.continues (continues_of_leads (leads_carryOut (r := .cancelExecutor e) he))
  | stopExecutor mode executor wait => exact h.onExecutor fun e x he => h.call he
  | resetExecutor executor =>
      exact h.onExecutor fun e x he =>
        h.continues (continues_of_leads (leads_carryOut (r := .resetExecutor e) he))
  | showExecutor executor => exact h.onExecutor fun _ _ _ => h
  | queue name blocking =>
      exact h.continues ⟨leads_carryOut (r := .newQueue blocking) rfl, rfl, rfl⟩
  | push queue plans =>
      refine h.withPlans fun ps s' hs hps => (h.continues hs).onQueue fun q queue hq hqueue => ?_
      refine System.leads_modifyQueue hqueue (leads_carryOut (r := .push q ps) ?_)
      simpa [System.accepts, hq] using hps
  | tryPop queue =>
      refine h.onQueue fun q queue hq hqueue => ?_
      refine System.leads_modifyQueue hqueue (leads_carryOut (r := .tryPop q) ?_)
      simp [System.accepts, hq]
  | pop mode queue =>
      unfold Scenario.perform
      dsimp only
      cases s.queues.get? queue with
      | none => exact h
      | some q =>
          cases hqueue : s.system.queues[q]? with
          | none => simpa [hqueue] using h
          | some x =>
              have hq := (Array.getElem?_eq_some_iff.1 hqueue).1
              have hcall : s.system.acceptsCall (.pop q .fresh) = true := by
                simp [System.acceptsCall, hq]
              simpa [hqueue] using h.call hcall
  | update queue plan =>
      refine h.withPlan fun p s' hs hp => (h.continues hs).onQueue fun q queue hq hqueue => ?_
      refine System.leads_modifyQueue hqueue (leads_carryOut (r := .update q p) ?_)
      simp [System.accepts, hq, hp]
  | removeQueued queue plan =>
      refine h.withPlan fun p s' hs hp => (h.continues hs).onQueue fun q queue hq hqueue => ?_
      refine System.leads_modifyQueue hqueue (leads_carryOut (r := .removeQueued q p.key) ?_)
      simp [System.accepts, hq]
  | queued queue =>
      refine h.onQueue fun q queue hq hqueue => ?_
      rw [System.modifyQueue, System.modify_self hqueue]
      exact .refl _
  | table name zone =>
      refine h.continues ⟨.trans ?_ (leads_carryOut (r := .newTable zone) rfl), rfl, rfl⟩
      cases s.tables.get? name with
      | none => exact .refl _
      | some i => exact leads_clear s.system i
  | addEntry table name expression =>
      refine h.onTable fun i t hi ht => ?_
      have hadd := leads_carryOut (y := s.system) (r := .addEntry i name expression)
        (by simp [System.accepts, hi])
      cases hparse : Cron.Schedule.parse expression with
      | error err =>
          dsimp only
          rw [System.modifyTable, System.modify_self ht]
          exact .refl _
      | ok schedule =>
          simp only [System.carryOut, hparse] at hadd
          exact System.leads_modifyTable ht hadd
  | removeEntry table id =>
      refine h.onTable fun i t hi ht => ?_
      refine System.leads_modifyTable ht (leads_carryOut (r := .removeEntry i id) ?_)
      simp [System.accepts, hi]
  | startTable table =>
      refine h.onTable fun i t hi ht => ?_
      refine System.leads_modifyTable ht (leads_carryOut (r := .startTable i) ?_)
      simp [System.accepts, hi]
  | stopTable table =>
      refine h.onTable fun i t hi ht => ?_
      refine System.leads_modifyTable ht (leads_carryOut (r := .stopTable i) ?_)
      simp [System.accepts, hi]
  | clearTable table =>
      refine h.onTable fun i t hi ht => ?_
      refine System.leads_modifyTable ht (leads_carryOut (r := .clearTable i) ?_)
      simp [System.accepts, hi]
  | dropTable table =>
      have hclear : (s.onTable table fun t => (Answer.done, t.clear)).2.Sound := by
        refine h.onTable fun i t hi ht => ?_
        refine System.leads_modifyTable ht (leads_carryOut (r := .clearTable i) ?_)
        simp [System.accepts, hi]
      exact hclear.continues ⟨.refl _, rfl, rfl⟩
  | showTable table =>
      refine h.onTable fun i t hi ht => ?_
      rw [System.modifyTable, System.modify_self ht]
      exact .refl _
  | scheduler name scheduler =>
      obtain ⟨b, hb⟩ := hbuilt
      have hnew := leads_carryOut (y := s.system) (r := .newScheduler b) rfl
      simp only [System.carryOut, hb] at hnew
      exact h.continues ⟨hnew, rfl, rfl⟩
  | addPlans scheduler plans =>
      refine h.withPlans fun ps s' hs hps => (h.continues hs).onScheduler fun i x hi => ?_
      have hadd := leads_carryOut (y := s'.system) (r := .addPlans i ps)
        (by simpa [System.accepts, hi] using hps)
      cases hmade : s'.system.addPlans i ps with
      | error err => exact h.continues hs
      | ok y =>
          simp only [System.carryOut, hmade] at hadd
          exact h.continues (hs.trans (continues_of_leads hadd))
  | removePlans scheduler plans =>
      refine h.withPlans fun ps s' hs hps => (h.continues hs).onScheduler fun i x hi => ?_
      have hremove := leads_removePlans hi hps
      exact h.continues (hs.trans (continues_of_leads hremove))
  | startScheduler scheduler context =>
      refine h.withContext fun c s' hs hc => (h.continues hs).onScheduler fun i x hi => ?_
      have hstart := leads_carryOut (y := s'.system) (r := .startScheduler i c)
        (by simp [System.accepts, hi, hc])
      exact h.continues (hs.trans (continues_of_leads hstart))
  | stopScheduler mode scheduler wait =>
      refine h.onScheduler fun i x hi => ?_
      exact h.call (by simp [System.acceptsCall, hi])
  | cancelPlan scheduler key =>
      refine h.onScheduler fun i x hi => ?_
      have hcancel := leads_carryOut (y := s.system) (r := .cancelPlan i key)
        (by simp [System.accepts, hi])
      cases hmade : s.system.cancelPlan i key with
      | error err => exact h
      | ok y =>
          simp only [System.carryOut, hmade] at hcancel
          exact h.continues (continues_of_leads hcancel)
  | planStats scheduler key | showScheduler scheduler => exact h.onScheduler fun _ _ _ => h

theorem Sound.step {command : Command} (h : s.Sound) (hbuilt : command.IsBuilt) :
    (s.step command).2.Sound :=
  (h.perform hbuilt).continues (continues_of_leads (System.leads_settle _))

/-- After each of its commands the system of a scenario is one of those that are reachable. -/
theorem reachable_of_commands (origin : Int) (commands : List Command)
    (hbuilt : ∀ command ∈ commands, command.IsBuilt) :
    (commands.foldl (fun s command => (s.step command).2) (create origin)).system.Reachable := by
  have hsound : (commands.foldl (fun s command => (s.step command).2) (create origin)).Sound :=
    List.foldlRecOn commands _ (sound_create origin) fun _ h command hmem =>
      h.step (hbuilt command hmem)
  exact hsound.reachable

end Scenario

end Scheduling
