import Scheduling.Proofs.ExecutorUses
import Scheduling.Proofs.Retries
/-!
# What an executor has on record

The attempts of the start calls of an executor come in cycles: each call that is let in begins one,
and a reset forgets them all. Under a retry policy the executor has on record how many attempts the
latest cycle has. Its errors are never taken off, but overwritten by later ones of the same index:
for each index the record has the error of the latest cycle that failed at this index.
-/

namespace Scheduling

/-! ## Cycles of attempts -/

/-- The error of a cycle at an index, if its attempt has failed. -/
def failureOf (cycle : List Outcome) (i : Nat) : Option Error := cycle[i]?.bind failure?

/-- The latest cycle of which an attempt is over, where the newest cycle comes first. -/
def latestCycle (cycles : List (List Outcome)) : List Outcome :=
  (cycles.find? (!·.isEmpty)).getD []

/-- The error at an index of the latest cycle that failed there. -/
def latestFailure (cycles : List (List Outcome)) (i : Nat) : Option Error :=
  cycles.findSome? (failureOf · i)

/-- Adds the outcome of an attempt to the newest cycle. -/
def conclude (outcome : Outcome) : List (List Outcome) → List (List Outcome)
  | [] => []
  | cycle :: cycles => (cycle ++ [outcome]) :: cycles

variable {cycles : List (List Outcome)} {cycle : List Outcome} {outcome : Outcome} {i : Nat}

theorem failureOf_append_singleton :
    failureOf (cycle ++ [outcome]) i =
      if i = cycle.length then failure? outcome else failureOf cycle i := by
  unfold failureOf
  obtain hlt | rfl | hgt := Nat.lt_trichotomy i cycle.length
  · rw [if_neg (Nat.ne_of_lt hlt), List.getElem?_append_left hlt]
  · rw [if_pos rfl, List.getElem?_concat_length, Option.bind_some]
  · have hnone : cycle[i]? = none := List.getElem?_eq_none (Nat.le_of_lt hgt)
    have hnone' : (cycle ++ [outcome])[i]? = none :=
      List.getElem?_eq_none (List.length_append ▸ hgt)
    rw [if_neg (Nat.ne_of_gt hgt), hnone, hnone']

theorem latestFailure_cons :
    latestFailure (cycle :: cycles) i = (failureOf cycle i).or (latestFailure cycles i) := by
  unfold latestFailure
  rw [List.findSome?_cons]
  cases failureOf cycle i <;> rfl

theorem latestFailure_append_singleton :
    latestFailure ((cycle ++ [outcome]) :: cycles) i =
      if i = cycle.length then (failure? outcome).or (latestFailure (cycle :: cycles) i)
      else latestFailure (cycle :: cycles) i := by
  rw [latestFailure_cons, latestFailure_cons, failureOf_append_singleton]
  split
  · rename_i hi
    have hnone : failureOf cycle i = none := by
      rw [failureOf, hi, List.getElem?_eq_none (Nat.le_refl _), Option.bind_none]
    rw [hnone, Option.none_or]
  · rfl

theorem latestCycle_append_singleton :
    latestCycle ((cycle ++ [outcome]) :: cycles) = cycle ++ [outcome] := by
  unfold latestCycle
  rw [List.find?_cons_of_pos (by simp), Option.getD_some]

/-- The latest errors are those of the latest cycle exactly if each index that failed in any cycle
failed in this one. -/
theorem latestFailure_eq_iff :
    (∀ i, latestFailure cycles i = failureOf (latestCycle cycles) i) ↔
      ∀ cycle ∈ cycles, ∀ i, (failureOf cycle i).isSome →
        (failureOf (latestCycle cycles) i).isSome := by
  constructor
  · intro hsame cycle hmem i hfailed
    rw [← hsame i]
    exact List.findSome?_isSome_iff.2 ⟨cycle, hmem, hfailed⟩
  · intro hcovered i
    induction cycles with
    | nil => rfl
    | cons cycle cycles ih =>
        cases cycle with
        | nil => exact ih fun cycle hmem => hcovered cycle (List.mem_cons_of_mem _ hmem)
        | cons outcome outcomes =>
            have hlatest : latestCycle ((outcome :: outcomes) :: cycles) = outcome :: outcomes :=
              rfl
            rw [hlatest] at hcovered ⊢
            rw [latestFailure_cons]
            cases hfailed : failureOf (outcome :: outcomes) i with
            | some err => rfl
            | none =>
                rw [Option.none_or, latestFailure, List.findSome?_eq_none_iff]
                intro cycle hmem
                have hnot := hcovered cycle (List.mem_cons_of_mem _ hmem) i
                rw [hfailed] at hnot
                simpa using hnot

/-- The indices of the latest errors are below the length of the latest cycle exactly if no cycle
failed at an index that this one did not come to. -/
theorem latestFailure_lt_iff :
    (∀ i, (latestFailure cycles i).isSome → i < (latestCycle cycles).length) ↔
      ∀ cycle ∈ cycles, ∀ i, (failureOf cycle i).isSome → i < (latestCycle cycles).length := by
  simp only [latestFailure, List.findSome?_isSome_iff]
  constructor
  · exact fun h cycle hmem i hfailed => h i ⟨cycle, hmem, hfailed⟩
  · rintro h i ⟨cycle, hmem, hfailed⟩
    exact h cycle hmem i hfailed

/-! ## Records -/

/-- An executor that may retry has on record how many attempts the latest cycle has, and for each
index the latest error; any other executor has nothing on record. -/
structure Executor.Books (x : Executor) (cycles : List (List Outcome)) : Prop where
  attempts : x.attempts =
    if x.options.effectiveRetry.isSome then (latestCycle cycles).length else 0
  errors : ∀ i, x.errors.get? i =
    if x.options.effectiveRetry.isSome then latestFailure cycles i else none

namespace Executor

variable {x x' : Executor}

theorem Books.congr (h : x.Books cycles) (hsame : x.SameRecords x')
    (hoptions : x'.options = x.options) : x'.Books cycles where
  attempts := by rw [hsame.attempts, hoptions, h.attempts]
  errors i := by rw [hsame.errors, hoptions, h.errors]

theorem books_nil (hattempts : x.attempts = 0) (herrors : ∀ i, x.errors.get? i = none) :
    x.Books [] where
  attempts := by
    rw [hattempts]
    split <;> rfl
  errors i := by
    rw [herrors]
    split <;> rfl

theorem books_reset (x : Executor) : x.reset.Books [] := books_nil rfl fun _ => rfl

/-- A cycle that is begun changes nothing before its first attempt is over. -/
theorem Books.begins (h : x.Books cycles) : x.Books ([] :: cycles) := ⟨h.attempts, h.errors⟩

/-- An attempt is put on record under the index that it has in its cycle. -/
theorem Books.settle (h : x.Books (cycle :: cycles)) (outcome : Outcome) :
    (x.settle cycle.length outcome).Books ((cycle ++ [outcome]) :: cycles) := by
  have hoptions := x.options_settle cycle.length outcome
  cases hretry : x.options.effectiveRetry with
  | none =>
      have hsame : x.settle cycle.length outcome = x := by
        simp [Executor.settle, hretry]
      rw [hsame]
      exact ⟨by simpa [hretry] using h.attempts, by simpa [hretry] using h.errors⟩
  | some policy =>
      have hrecord : x.settle cycle.length outcome = x.record cycle.length outcome := by
        simp [Executor.settle, hretry]
      have herrors (i : Nat) : x.errors.get? i = latestFailure (cycle :: cycles) i := by
        simpa [hretry] using h.errors i
      rw [hrecord] at hoptions ⊢
      constructor
      · rw [hoptions, hretry, Option.isSome_some, if_pos rfl, latestCycle_append_singleton,
          List.length_append]
        cases outcome <;> rfl
      · intro i
        rw [hoptions, hretry, Option.isSome_some, if_pos rfl, latestFailure_append_singleton]
        cases outcome with
        | ok =>
            refine (herrors i).trans ?_
            simp [failure?]
        | error err =>
            refine (Registry.get?_insert x.errors cycle.length i err).trans ?_
            rw [herrors]
            rfl

end Executor

/-- The index of the attempt that a start call makes or is to make next. -/
def CallPoint.attempt? : CallPoint → Option Nat
  | .entered => none
  | .running attempt _ _ | .pausing attempt _ _ _ => some attempt

namespace System

variable {y z u : System} {a : Step} {e : ExecutorId} {x x' : Executor} {task : Task}
  {context : ContextId} {point : CallPoint} {attempt halt : Nat} {choice : Nat}
  {status : CallStatus} {o : Option (CallId × ContextId × CallPoint)}

/-- What the last attempt of a start call has come to, if the call pauses after it or has
returned. -/
def CallStatus.outcome? : CallStatus → Option Outcome
  | .at (.pausing _ _ _ last) => some (.error last)
  | .ended (.returned outcome) => some outcome
  | _ => none

/-- The outcome of the attempt that has ended in a move of a start call, if one has. It was under
way before, or was begun and refused in the move: a context was made for it. -/
def attemptEnd? (y : System) (c : StartCall) (u : System) (status : CallStatus) : Option Outcome :=
  if c.point.isRunning || y.contexts.nodes.size < u.contexts.nodes.size then status.outcome?
  else none

/-- What becomes of the cycles of an executor in a move of a start call. -/
def cyclesAfter (y : System) (c : StartCall) (u : System) (status : CallStatus)
    (cycles : List (List Outcome)) : List (List Outcome) :=
  let begun := if y.letsIn c then [] :: cycles else cycles
  match y.attemptEnd? c u status with
  | some outcome => conclude outcome begun
  | none => begun

/-- What becomes of the cycles of an executor in a step. -/
def keepCycles (e : ExecutorId) (y : System) (a : Step) (_ : System)
    (cycles : List (List Outcome)) : List (List Outcome) :=
  match a with
  | .request (.resetExecutor e') => if e' = e then [] else cycles
  | .move actor choice =>
    match actor.caller?.bind y.startCall? with
    | none => cycles
    | some c =>
      match y.callMove? c choice with
      | none => cycles
      | some (u, status) => if c.executor = e then y.cyclesAfter c u status cycles else cycles
  | _ => cycles

theorem keepCycles_move {who : Caller} {c : StartCall} (hcall : y.startCall? who = some c)
    (hmade : y.callMove? c choice = some (u, status)) (hc : c.executor = e) :
    keepCycles e y (.move who.actor choice) z cycles = y.cyclesAfter c u status cycles := by
  simp only [keepCycles, Caller.caller?_actor, Option.bind_some, hcall, hmade, hc, if_true]

/-- Other steps have no part in the cycles of an executor. -/
theorem keepCycles_of_leaves {allowed : System → Step → Bool} (hy : y.ReachableBy allowed)
    (h : y.working a ≠ some e) : keepCycles e y a z cycles = cycles := by
  cases a with
  | pass => rfl
  | request r =>
      cases r with
      | resetExecutor e' => exact if_neg fun heq => h (congrArg some heq)
      | _ => rfl
  | move actor choice =>
      unfold keepCycles
      dsimp only
      cases hbind : actor.caller?.bind y.startCall? with
      | none => rfl
      | some c =>
          obtain ⟨who, hwho, hcall⟩ := Option.bind_eq_some_iff.1 hbind
          obtain rfl := Actor.eq_of_caller? hwho
          have hother : c.executor ≠ e := fun heq => h (heq ▸ hy.working_of_startCall? hcall)
          cases hmade : y.callMove? c choice with
          | none => simp only [hmade]
          | some made => simp only [hmade, hother, if_false]

/-- The attempt that a start call makes or is to make next comes after those of the newest cycle. -/
def NextIn (point : CallPoint) (cycles : List (List Outcome)) : Prop :=
  ∀ attempt, point.attempt? = some attempt →
    ∃ cycle earlier, cycles = cycle :: earlier ∧ cycle.length = attempt

/-- When an attempt is due its cycle has begun, and the executor has the earlier ones on record. -/
theorem Due.books (h : y.Due x task context point attempt halt x')
    (hx : y.executors[e]? = some x) (htask : y.tasks[x.task]? = some task) (hbooks : x.Books cycles)
    (hnext : NextIn point cycles) :
    ∃ cycle earlier, (if y.letsIn ⟨e, context, point⟩ then [] :: cycles else cycles) =
      cycle :: earlier ∧ cycle.length = attempt ∧ x'.Books (cycle :: earlier) := by
  have hlets := h.letsIn_iff hx htask
  cases h with
  | enters =>
      rw [if_pos (hlets.2 rfl)]
      exact ⟨[], cycles, rfl, rfl, hbooks.begins.congr ⟨rfl, fun _ => rfl⟩ rfl⟩
  | retries =>
      rw [if_neg fun hlets' => by cases hlets.1 hlets']
      obtain ⟨cycle, earlier, rfl, hlength⟩ := hnext attempt rfl
      exact ⟨cycle, earlier, rfl, hlength, hbooks⟩

/-- In a move of a start call the record of the executor goes on as the cycles do. -/
theorem Course.books (h : y.Course e x task context point (u, status))
    (hx : y.executors[e]? = some x) (htask : y.tasks[x.task]? = some task) (hbooks : x.Books cycles)
    (hnext : NextIn point cycles) :
    ∃ x', u.executors[e]? = some x' ∧
      x'.Books (y.cyclesAfter ⟨e, context, point⟩ u status cycles) ∧
      ∀ point', status.point? = some point' →
        NextIn point' (y.cyclesAfter ⟨e, context, point⟩ u status cycles) := by
  have hlater (hne : point ≠ .entered) : y.letsIn ⟨e, context, point⟩ = false :=
    letsIn_eq_false hne
  unfold cyclesAfter attemptEnd?
  cases h with
  | bars hwhy =>
      have hlets := hwhy.letsIn_eq_false hx htask
      simp only [hlets, CallPoint.isRunning, Nat.lt_irrefl, decide_false, Bool.or_false,
        Bool.false_eq_true, if_false]
      exact ⟨x, hx, hbooks, fun _ hpoint => by cases hpoint⟩
  | givesUp =>
      have hlets := hlater CallPoint.noConfusion
      simp only [hlets, CallPoint.isRunning, Nat.lt_irrefl, decide_false, Bool.or_false,
        Bool.false_eq_true, if_false]
      exact ⟨x, hx, hbooks, fun _ hpoint => by cases hpoint⟩
  | overruns hdue _ hsets _ hsame =>
      obtain ⟨cycle, earlier, hbegun, -, hbooks'⟩ := hdue.books hx htask hbooks hnext
      simp only [CallStatus.outcome?, ite_self, hbegun]
      exact ⟨_, hsets.own, hbooks', fun _ hpoint => by cases hpoint⟩
  | conflicts hdue _ _ hsets _ hnew =>
      obtain ⟨cycle, earlier, hbegun, rfl, hbooks'⟩ := hdue.books hx htask hbooks hnext
      simp only [CallStatus.outcome?, hnew, decide_true, Bool.or_true, if_true, hbegun, conclude]
      exact ⟨_, hsets.own, hbooks'.settle _, fun _ hpoint => by cases hpoint⟩
  | launches hdue _ _ hsets =>
      obtain ⟨cycle, earlier, hbegun, rfl, hbooks'⟩ := hdue.books hx htask hbooks hnext
      simp only [CallStatus.outcome?, ite_self, hbegun]
      refine ⟨_, hsets.own, hbooks', fun _ hpoint attempt hattempt => ?_⟩
      cases hpoint
      cases hattempt
      exact ⟨cycle, earlier, rfl, rfl⟩
  | overrests _ _ hsets =>
      have hlets := hlater CallPoint.noConfusion
      simp only [CallStatus.outcome?, ite_self, hlets, Bool.false_eq_true, if_false]
      exact ⟨x, hsets.own, hbooks, fun _ hpoint => by cases hpoint⟩
  | returns _ _ hsets =>
      have hlets := hlater CallPoint.noConfusion
      obtain ⟨cycle, earlier, rfl, rfl⟩ := hnext _ rfl
      simp only [CallStatus.outcome?, CallPoint.isRunning, Bool.true_or, if_true, hlets,
        Bool.false_eq_true, if_false, conclude]
      have hrest := hbooks.congr (x.sameRecords_rest y.now) (x.options_rest y.now)
      exact ⟨_, hsets.own, hrest.settle _, fun _ hpoint => by cases hpoint⟩
  | pauses _ _ hsets _ _ houtcome =>
      have hlets := hlater CallPoint.noConfusion
      obtain ⟨cycle, earlier, rfl, rfl⟩ := hnext _ rfl
      simp only [CallStatus.outcome?, CallPoint.isRunning, Bool.true_or, if_true, hlets,
        Bool.false_eq_true, if_false, conclude]
      have hrest := hbooks.congr (x.sameRecords_rest y.now) (x.options_rest y.now)
      refine ⟨_, hsets.own, houtcome ▸ hrest.settle _, fun _ hpoint attempt hattempt => ?_⟩
      cases hpoint
      cases hattempt
      exact ⟨_, earlier, rfl, List.length_append⟩

/-- An executor whose users take turns has the cycles of their calls on record. -/
structure Records (y : System) (e : ExecutorId) (cycles : List (List Outcome)) : Prop where
  reachable : y.Reachable
  records : ∃ o x, y.Sole e o ∧ y.executors[e]? = some x ∧ x.Books cycles ∧
    ∀ k context point, o = some (k, context, point) → NextIn point cycles

/-- What one step does to the record of an executor is what it does to the cycles. -/
theorem Records.step (h : y.Records e cycles) (hz : y.step? a = some z)
    (ha : y.takesTurns e a = true) : z.Records e (keepCycles e y a z cycles) where
  reachable := h.reachable.step rfl hz
  records := by
    obtain ⟨o, x, hsole, hx, hbooks, hnext⟩ := h.records
    obtain ⟨o', hsole', hvisit⟩ := hsole.step h.reachable hz ha
    refine ⟨o', ?_⟩
    cases hvisit with
    | leaves hother =>
        obtain ⟨x', hx', hfollows⟩ := follows_of_leaves hz hx hother
        have hsame : x.SameRecords x' := by
          rw [hfollows.idle not_false]
          exact ⟨rfl, fun _ => rfl⟩
        rw [keepCycles_of_leaves h.reachable hother]
        exact ⟨x', hsole', hx', hbooks.congr hsame hfollows.options, hnext⟩
    | resets ha hz' =>
        have hnone : keepCycles e y a z cycles = [] := by
          rw [ha]
          exact if_pos rfl
        rw [hnone]
        exact ⟨x.reset, hsole', hz' ▸ modifyExecutor_look y hx, x.books_reset,
          fun _ _ _ ho => by cases ho⟩
    | calls ha hz' =>
        have hsame : keepCycles e y a z cycles = cycles := by
          rw [ha]
          rfl
        rw [hsame]
        refine ⟨x, hsole', hz' ▸ hx, hbooks, fun k context point ho attempt hattempt => ?_⟩
        cases ho
        cases hattempt
    | @moves k context point choice u status ha hcall hmade hresumes =>
        obtain ⟨x₀, task, hx₀, htask, hcourse⟩ := course_of_mem (List.mem_of_getElem? hmade)
        obtain rfl := Option.some.inj (hx.symm.trans hx₀)
        obtain ⟨x', hx', hbooks', hnext'⟩ :=
          hcourse.books hx htask hbooks (hnext k context point rfl)
        have hcycles : keepCycles e y a z cycles =
            y.cyclesAfter ⟨e, context, point⟩ u status cycles := by
          rw [ha]
          exact keepCycles_move hcall hmade rfl
        rw [hcycles]
        refine ⟨x', hsole', hresumes.executors ▸ hx', hbooks', fun k' context' point' ho => ?_⟩
        obtain ⟨_, hpoint, heq⟩ := Option.map_eq_some_iff.1 ho
        cases heq
        exact hnext' _ hpoint

/-- An executor that has nothing on record and may be used from outside, and any run in which it is
started and reset only while no start call of it is under way. Without a retry policy it has nothing
on record after the run either. Under a retry policy it has the number of attempts of the latest
cycle on record, and for each index the error of the latest cycle that failed there. So the indices
of the errors are below the number of attempts exactly if no cycle failed at an index that the
latest one did not come to, and the errors are those of the latest cycle exactly if no cycle failed
at an index at which the latest one did not fail. -/
theorem records_iff (hy : y.Reachable) (hlends : y.lends e = true)
    (hidle : y.isUnderWay e = false) (hx : y.executors[e]? = some x) (hattempts : x.attempts = 0)
    (herrors : x.errors = Registry.empty) (steps : List Step)
    (hz : y.run (takesTurns e) steps = z)
    (hcycles : y.track (takesTurns e) (keepCycles e) [] steps = cycles) :
    ∃ x', z.executors[e]? = some x' ∧ x'.options = x.options ∧
      (x.options.effectiveRetry = none → x'.attempts = 0 ∧ ∀ i, x'.errors.get? i = none) ∧
      (x.options.effectiveRetry ≠ none →
        x'.attempts = (latestCycle cycles).length ∧
          (∀ i, x'.errors.get? i = latestFailure cycles i) ∧
          ((∀ i, (x'.errors.get? i).isSome → i < x'.attempts) ↔
            ∀ cycle ∈ cycles, ∀ i, (failureOf cycle i).isSome →
              i < (latestCycle cycles).length) ∧
          ((∀ i, x'.errors.get? i = failureOf (latestCycle cycles) i) ↔
            ∀ cycle ∈ cycles, ∀ i, (failureOf cycle i).isSome →
              (failureOf (latestCycle cycles) i).isSome)) := by
  have hstart : y.Records e [] := by
    refine ⟨hy, none, x, sole_none hlends hidle, hx, ?_, fun _ _ _ ho => by cases ho⟩
    exact Executor.books_nil hattempts fun i => by rw [herrors, Registry.get?_empty]
  have hrun : (y.run (takesTurns e) steps).Records e
      (y.track (takesTurns e) (keepCycles e) [] steps) :=
    track_induction (P := fun y cycles => y.Records e cycles)
      (fun _ _ _ _ ha hz h => h.step hz ha) hstart steps
  rw [hz, hcycles] at hrun
  obtain ⟨-, o, x', -, hx', hbooks, -⟩ := hrun
  have hoptions : x'.options = x.options := by
    obtain ⟨x'', hx'', hfollows⟩ := executor_of_run hx (takesTurns e) steps
    rw [hz] at hx''
    obtain rfl := Option.some.inj (hx'.symm.trans hx'')
    exact hfollows.options
  refine ⟨x', hx', hoptions, fun hnone => ?_, fun hsome => ?_⟩
  · obtain ⟨hattempts', herrors'⟩ := hbooks
    simp only [hoptions, hnone, Option.isSome_none, Bool.false_eq_true, if_false] at hattempts'
    simp only [hoptions, hnone, Option.isSome_none, Bool.false_eq_true, if_false] at herrors'
    exact ⟨hattempts', herrors'⟩
  · obtain ⟨hattempts', herrors'⟩ := hbooks
    obtain ⟨policy, hpolicy⟩ := Option.ne_none_iff_exists'.1 hsome
    simp only [hoptions, hpolicy, Option.isSome_some, if_true] at hattempts' herrors'
    refine ⟨hattempts', herrors', ?_, ?_⟩
    · simp only [herrors', hattempts']
      exact latestFailure_lt_iff
    · simp only [herrors']
      exact latestFailure_eq_iff

/-- A task whose first two runs fail, and an executor that may try it twice without a pause. -/
def twiceSteps : List Step :=
  [.request .newContext,
    .request (.newTask "a" [] fun run => if run < 2 then [.fail (.failed "no")] else []),
    .request (.newExecutor 0 { retry := some ⟨2, Duration.zero⟩ })]

/-- A start call whose two attempts fail. -/
def failingCallSteps : List Step :=
  [.request (.call (.start 0 0 .entered)), .move (.call 0) 0] ++ bodySteps 0 ++
    [.move (.call 0) 0, .move (.call 0) 0] ++ bodySteps 1 ++ [.move (.call 0) 0]

/-- A start call after it whose first attempt succeeds. -/
def succeedingCallSteps : List Step :=
  [.request (.call (.start 0 0 .entered)), .move (.call 1) 0] ++ bodySteps 2 ++ [.move (.call 1) 0]

theorem after_twiceSteps :
    (after twiceSteps).lends 0 = true ∧ (after twiceSteps).isUnderWay 0 = false ∧
      ∃ x, (after twiceSteps).executors[0]? = some x ∧ x.attempts = 0 ∧
        x.errors = Registry.empty ∧ x.options.effectiveRetry = some ⟨2, Duration.zero⟩ := by
  refine ⟨by decide +kernel, by decide +kernel,
    Executor.create 0 { retry := some ⟨2, Duration.zero⟩ }, ?_, rfl, rfl, rfl⟩
  with_unfolding_all rfl

/-- After the first call its two attempts and their errors are on record. -/
theorem records_failingCallSteps :
    ∃ (z : System) (x' : Executor) (cycle : List Outcome),
      z = (after twiceSteps).run (takesTurns 0) failingCallSteps ∧
      (after twiceSteps).track (takesTurns 0) (keepCycles 0) [] failingCallSteps = [cycle] ∧
      z.executors[0]? = some x' ∧ x'.attempts = 2 ∧
      (∀ i, (x'.errors.get? i).isSome → i < x'.attempts) ∧
      ∀ i, x'.errors.get? i = failureOf cycle i := by
  obtain ⟨hlends, hidle, x, hx, hattempts, herrors, hretry⟩ := after_twiceSteps
  have hone : ((after twiceSteps).track (takesTurns 0) (keepCycles 0) []
        failingCallSteps).length = 1 ∧
      (latestCycle ((after twiceSteps).track (takesTurns 0) (keepCycles 0) []
        failingCallSteps)).length = 2 := by
    decide +kernel
  obtain ⟨x', hx', -, -, hrecords⟩ :=
    records_iff (reachable_after _) hlends hidle hx hattempts herrors failingCallSteps rfl rfl
  obtain ⟨hcount, -, hbelow, hexact⟩ := hrecords (hretry ▸ Option.some_ne_none _)
  generalize (after twiceSteps).track (takesTurns 0) (keepCycles 0) []
    failingCallSteps = cycles at *
  obtain ⟨cycle, rfl⟩ := List.length_eq_one_iff.1 hone.1
  have hlatest : latestCycle [cycle] = cycle := by cases cycle <;> rfl
  rw [hlatest] at hone hcount hbelow hexact
  refine ⟨_, x', cycle, rfl, rfl, hx', hcount.trans hone.2, hbelow.2 ?_, hexact.2 ?_⟩
  · intro c hmem i hfailed
    obtain rfl := List.mem_singleton.1 hmem
    exact Nat.lt_of_not_le fun hle => by
      rw [failureOf, List.getElem?_eq_none hle] at hfailed
      cases hfailed
  · intro c hmem i hfailed
    obtain rfl := List.mem_singleton.1 hmem
    exact hfailed

/-- After the second call, of one attempt that succeeded, the errors of the first are still on
record. -/
theorem stale_errors_succeedingCallSteps :
    ∃ (z : System) (x' : Executor),
      z = (after twiceSteps).run (takesTurns 0) (failingCallSteps ++ succeedingCallSteps) ∧
      ((after twiceSteps).track (takesTurns 0) (keepCycles 0) []
        (failingCallSteps ++ succeedingCallSteps)).map (·.map failure?) =
          [[none], [some (.failed "no"), some (.failed "no")]] ∧
      z.isUnderWay 0 = false ∧ z.executors[0]? = some x' ∧ x'.attempts = 1 ∧
      x'.errors.get? 0 = some (.failed "no") ∧ x'.errors.get? 1 = some (.failed "no") := by
  have hcycles : ((after twiceSteps).track (takesTurns 0) (keepCycles 0) []
      (failingCallSteps ++ succeedingCallSteps)).map (·.map failure?) =
        [[none], [some (.failed "no"), some (.failed "no")]] := by
    decide +kernel
  have hidle : ((after twiceSteps).run (takesTurns 0)
      (failingCallSteps ++ succeedingCallSteps)).isUnderWay 0 = false := by
    decide +kernel
  have hrecords : ((after twiceSteps).run (takesTurns 0)
      (failingCallSteps ++ succeedingCallSteps)).executors[0]?.any (fun x => x.attempts == 1 &&
        x.errors.get? 0 == some (.failed "no") && x.errors.get? 1 == some (.failed "no")) =
          true := by
    decide +kernel
  obtain ⟨x', hx', hrecords⟩ := (Option.any_eq_true _ _).1 hrecords
  simp only [Bool.and_eq_true, beq_iff_eq] at hrecords
  exact ⟨_, x', rfl, hcycles, hidle, hx', hrecords.1.1, hrecords.1.2, hrecords.2⟩

end System

end Scheduling
