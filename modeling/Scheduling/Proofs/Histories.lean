import Scheduling.Proofs.Lifecycle
/-!
# Histories of runs

What is seen of the steps of a run, one after the other. A history is put together from those of the
parts of a run, and whatever is in it was seen in one of the steps.
-/

namespace Scheduling.System

variable {α : Type} {allowed : System → Step → Bool} {see : System → Step → System → List α}
  {y z : System} {a : Step} {i : SchedulerId} {j : SessionId} {s : Scheduler} {n : Session}

/-! ## Steps that are taken -/

/-- Where a step leads that can be taken and is allowed. -/
def next? (allowed : System → Step → Bool) (y : System) (a : Step) : Option System :=
  if allowed y a then y.step? a else none

theorem next?_eq_some_iff :
    y.next? allowed a = some z ↔ allowed y a = true ∧ y.step? a = some z := by
  simp [next?]

theorem tryStep_eq_getD (allowed : System → Step → Bool) (y : System) (a : Step) :
    y.tryStep allowed a = (y.next? allowed a).getD y := by
  unfold tryStep next?
  split <;> rfl

theorem run_append (y : System) (xs ys : List Step) :
    y.run allowed (xs ++ ys) = (y.run allowed xs).run allowed ys :=
  List.foldl_append

theorem run_cons_of_none (h : y.next? allowed a = none) (steps : List Step) :
    y.run allowed (a :: steps) = y.run allowed steps := by
  simp only [run, List.foldl_cons, tryStep_eq_getD, h, Option.getD_none]

theorem run_cons_of_some (h : y.next? allowed a = some z) (steps : List Step) :
    y.run allowed (a :: steps) = z.run allowed steps := by
  simp only [run, List.foldl_cons, tryStep_eq_getD, h, Option.getD_some]

/-- What each step of a list preserves the run preserves. -/
theorem run_induction_mem {P : System → Prop} {steps : List Step}
    (hstep : ∀ y a z, a ∈ steps → allowed y a = true → y.step? a = some z → P y → P z)
    (hy : P y) : P (y.run allowed steps) := by
  induction steps generalizing y with
  | nil => exact hy
  | cons a steps ih =>
      have hrest {y : System} (hy : P y) : P (y.run allowed steps) :=
        ih (fun y b z hb => hstep y b z (List.mem_cons_of_mem a hb)) hy
      cases hnext : y.next? allowed a with
      | none =>
          rw [run_cons_of_none hnext]
          exact hrest hy
      | some z =>
          obtain ⟨hallowed, hz⟩ := next?_eq_some_iff.1 hnext
          rw [run_cons_of_some hnext]
          exact hrest (hstep y a z List.mem_cons_self hallowed hz hy)

/-- What one step preserves a run preserves. -/
theorem run_induction {P : System → Prop}
    (hstep : ∀ y a z, allowed y a = true → y.step? a = some z → P y → P z) (hy : P y)
    (steps : List Step) : P (y.run allowed steps) :=
  run_induction_mem (fun y a z _ => hstep y a z) hy

theorem Reachable.run_any (h : y.Reachable) (allowed : System → Step → Bool)
    (steps : List Step) : (y.run allowed steps).Reachable :=
  run_induction (fun _ _ _ _ hz hy => .step hy rfl hz) h steps

/-! ## Observations -/

/-- What is seen of the steps of a run that are taken, each seen from the system before it and the
one after it. -/
def observe (allowed : System → Step → Bool) (see : System → Step → System → List α)
    (y : System) : List Step → List α
  | [] => []
  | a :: steps =>
    match y.next? allowed a with
    | none => observe allowed see y steps
    | some z => see y a z ++ observe allowed see z steps

theorem observe_cons_of_none (h : y.next? allowed a = none) (steps : List Step) :
    y.observe allowed see (a :: steps) = y.observe allowed see steps := by
  simp only [observe, h]

theorem observe_cons_of_some (h : y.next? allowed a = some z) (steps : List Step) :
    y.observe allowed see (a :: steps) = see y a z ++ z.observe allowed see steps := by
  simp only [observe, h]

theorem observe_append (y : System) (xs ys : List Step) :
    y.observe allowed see (xs ++ ys) =
      y.observe allowed see xs ++ (y.run allowed xs).observe allowed see ys := by
  induction xs generalizing y with
  | nil => rfl
  | cons a xs ih =>
      cases hnext : y.next? allowed a with
      | none =>
          rw [List.cons_append, observe_cons_of_none hnext, observe_cons_of_none hnext,
            run_cons_of_none hnext, ih]
      | some z =>
          rw [List.cons_append, observe_cons_of_some hnext, observe_cons_of_some hnext,
            run_cons_of_some hnext, ih, List.append_assoc]

/-- What is in a history was seen in one of the steps. -/
theorem exists_of_mem_observe {x : α} {steps : List Step} (h : x ∈ y.observe allowed see steps) :
    ∃ (past rest : List Step) (a : Step) (z : System), steps = past ++ a :: rest ∧
      (y.run allowed past).next? allowed a = some z ∧ x ∈ see (y.run allowed past) a z := by
  induction steps generalizing y with
  | nil => cases h
  | cons a steps ih =>
      cases hnext : y.next? allowed a with
      | none =>
          rw [observe_cons_of_none hnext] at h
          obtain ⟨past, rest, b, z, rfl, hz, hx⟩ := ih h
          exact ⟨a :: past, rest, b, z, rfl, by rwa [run_cons_of_none hnext],
            by rwa [run_cons_of_none hnext]⟩
      | some z =>
          rw [observe_cons_of_some hnext] at h
          obtain hx | h := List.mem_append.1 h
          · exact ⟨[], steps, a, z, rfl, hnext, hx⟩
          · obtain ⟨past, rest, b, u, rfl, hu, hx⟩ := ih h
            exact ⟨a :: past, rest, b, u, rfl, by rwa [run_cons_of_some hnext],
              by rwa [run_cons_of_some hnext]⟩

/-- Nothing is seen in a run if nothing is seen in a step and it stays so. -/
theorem observe_eq_nil {P : System → Prop}
    (hstep : ∀ y a z, allowed y a = true → y.step? a = some z → P y → P z ∧ see y a z = [])
    (hy : P y) (steps : List Step) : y.observe allowed see steps = [] := by
  induction steps generalizing y with
  | nil => rfl
  | cons a steps ih =>
      cases hnext : y.next? allowed a with
      | none =>
          rw [observe_cons_of_none hnext]
          exact ih hy
      | some z =>
          obtain ⟨hallowed, hz⟩ := next?_eq_some_iff.1 hnext
          obtain ⟨hPz, hnone⟩ := hstep y a z hallowed hz hy
          rw [observe_cons_of_some hnext, hnone, List.nil_append]
          exact ih hPz

/-- What one step preserves of a system and of what was seen before it holds after a run. -/
theorem observe_induction {P : System → List α → Prop}
    (hstep : ∀ y a z seen, allowed y a = true → y.step? a = some z → P y seen →
      P z (seen ++ see y a z))
    {seen : List α} (hy : P y seen) (steps : List Step) :
    P (y.run allowed steps) (seen ++ y.observe allowed see steps) := by
  induction steps generalizing y seen with
  | nil =>
      rw [observe, List.append_nil]
      exact hy
  | cons a steps ih =>
      cases hnext : y.next? allowed a with
      | none =>
          rw [run_cons_of_none hnext, observe_cons_of_none hnext]
          exact ih hy
      | some z =>
          obtain ⟨hallowed, hz⟩ := next?_eq_some_iff.1 hnext
          rw [run_cons_of_some hnext, observe_cons_of_some hnext, ← List.append_assoc]
          exact ih (hstep y a z seen hallowed hz hy)

/-- What holds of each new scheduler and is preserved by one step, together with what was seen
before it, holds of the schedulers in all runs. -/
theorem observe_induction_scheduler {P : Scheduler → List α → Prop}
    (hcreate : ∀ maxConcurrency zone defaults seen,
      P (Scheduler.create maxConcurrency zone defaults) seen)
    (hstep : ∀ y a z s s' seen, y.ReachableBy allowed → allowed y a = true →
      y.step? a = some z → y.schedulers[i]? = some s → z.schedulers[i]? = some s' →
      s.Change y z a i s' → P s seen → P s' (seen ++ see y a z))
    (origin : Int) (steps : List Step)
    (hs : ((create origin).run allowed steps).schedulers[i]? = some s) :
    P s ((create origin).observe allowed see steps) := by
  have hrun : ((create origin).run allowed steps).ReachableBy allowed ∧
      ∀ s : Scheduler, ((create origin).run allowed steps).schedulers[i]? = some s →
        P s ([] ++ (create origin).observe allowed see steps) := by
    refine observe_induction
      (P := fun y seen => y.ReachableBy allowed ∧
        ∀ s : Scheduler, y.schedulers[i]? = some s → P s seen)
      (fun y a z seen ha hz hy => ⟨.step hy.1 ha hz, fun s' hs' => ?_⟩)
      ⟨.create origin, fun s hs => by simp [create] at hs⟩ steps
    obtain ⟨s₀, hs₀, hchange⟩ | ⟨_, -, hb⟩ := change_of_step hz hs'
    · exact hstep y a z s₀ s' seen hy.1 ha hz hs₀ hs' hchange (hy.2 s₀ hs₀)
    · rw [eq_create_of_build hb]
      exact hcreate _ _ _ _
  exact hrun.2 s hs

/-- What becomes of a record that is carried on in each step of a run that is taken. -/
def track {β : Type} (allowed : System → Step → Bool) (next : System → Step → System → β → β)
    (y : System) (record : β) : List Step → β
  | [] => record
  | a :: steps =>
    match y.next? allowed a with
    | none => track allowed next y record steps
    | some z => track allowed next z (next y a z record) steps

/-- What one step preserves of a system and of a record holds after a run. -/
theorem track_induction {β : Type} {next : System → Step → System → β → β}
    {P : System → β → Prop}
    (hstep : ∀ y a z record, allowed y a = true → y.step? a = some z → P y record →
      P z (next y a z record))
    {record : β} (hy : P y record) (steps : List Step) :
    P (y.run allowed steps) (y.track allowed next record steps) := by
  induction steps generalizing y record with
  | nil => exact hy
  | cons a steps ih =>
      unfold track
      cases hnext : y.next? allowed a with
      | none =>
          rw [run_cons_of_none hnext]
          exact ih hy
      | some z =>
          obtain ⟨hallowed, hz⟩ := next?_eq_some_iff.1 hnext
          rw [run_cons_of_some hnext]
          exact ih (hstep y a z record hallowed hz hy)

/-! ## One session in a run -/

/-- The session `j` of the scheduler `i`. -/
def session? (y : System) (i : SchedulerId) (j : SessionId) : Option Session :=
  y.schedulers[i]?.bind (·.sessions[j]?)

theorem session?_eq_some_iff :
    y.session? i j = some n ↔
      ∃ s : Scheduler, y.schedulers[i]? = some s ∧ s.sessions[j]? = some n :=
  Option.bind_eq_some_iff

/-- A session is still there after a step, and was changed by it or is as it was. -/
theorem change_of_session (h : y.step? a = some z) (hs : y.schedulers[i]? = some s)
    (hn : s.sessions[j]? = some n) :
    ∃ (s' : Scheduler) (n' : Session), z.schedulers[i]? = some s' ∧ s'.sessions[j]? = some n' ∧
      s.SameSettings s' ∧ (n' = n ∨ n.Change y z a i j s s'.stores n') := by
  obtain ⟨s', hs', hchange⟩ := exists_change_of_step h hs
  refine ⟨s', ?_⟩
  obtain hreg | @⟨k, m, m', hset, hedit, hm⟩ | ⟨-, -, rfl⟩ := hchange.outcome
  · have hkeep := hreg.registers
    exact ⟨n, hs', hkeep.sessions ▸ hn, hkeep.toSameSettings, .inl rfl⟩
  · have hlook : s'.sessions[j]? = if k = j then some m' else some n := by
      rw [hedit.sessions, Array.getElem?_setIfInBounds, hn]
      have hlt : k < s.sessions.size := (Array.getElem?_eq_some_iff.1 hedit.before).1
      simp [hlt]
    by_cases hk : k = j
    · subst hk
      obtain rfl := Option.some.inj (hn.symm.trans hedit.before)
      rw [if_pos rfl] at hlook
      exact ⟨m', hs', hlook, hset, .inr hm⟩
    · rw [if_neg hk] at hlook
      exact ⟨n, hs', hlook, hset, .inl rfl⟩
  · have hlook : (s.start y.contexts.nodes.size).sessions[j]? = some n := by
      obtain ⟨hlt, -⟩ := Array.getElem?_eq_some_iff.1 hn
      simp only [Scheduler.start, Array.getElem?_push, Nat.ne_of_lt hlt, if_false, hn]
    exact ⟨n, hs', hlook, ⟨rfl, rfl⟩, .inl rfl⟩

/-- A session that was not there before a step is new. -/
theorem eq_create_of_session?_eq_none (h : y.step? a = some z) (hnone : y.session? i j = none)
    (hn : z.session? i j = some n) :
    n = Scheduler.Session.create y.contexts.nodes.size := by
  obtain ⟨s', hs', hn'⟩ := session?_eq_some_iff.1 hn
  obtain ⟨s, m, hs, hm, -⟩ | hnew := session_of_step h hs' hn'
  · have hsome : y.session? i j = some m := session?_eq_some_iff.2 ⟨s, hs, hm⟩
    rw [hnone] at hsome
    cases hsome
  · exact hnew

end Scheduling.System
