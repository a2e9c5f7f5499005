import Scheduling.Proofs.RetryMoves
/-!
# Logs of start calls

What is seen of a start call that may retry: when each attempt began and ended, with what outcome,
and when the call was told to stop. The log is taken from outside, by what the moves of the call do
to the contexts, the runs and the task around it. What the policy asks for is a condition on the
log, which each entry has to meet.
-/

namespace Scheduling

/-! ## The log -/

/-- An attempt that is over. -/
structure Attempt where
  begun : Instant
  ended : Instant
  outcome : Outcome
  /-- Whether it was to be the last one in any case: the start call was told to stop, the task
  canceled or the error a conflict when it ended. -/
  stops : Bool

/-- The error of an attempt that has failed. -/
def Attempt.error? (a : Attempt) : Option Error := failure? a.outcome

/-- When the pause after an attempt is over. -/
def Attempt.due (a : Attempt) (policy : RetryPolicy) : Instant := Instant.wake a.ended policy.delay

/-- What was seen of a start call since it was admitted. -/
structure Cycle where
  /-- The attempts that are over, first to last. -/
  made : List Attempt := []
  /-- When the attempt under way began. -/
  current : Option Instant := none
  /-- When the call was found to be told to stop. -/
  told : Option Instant := none
  result : Option CallEnd := none
  moves : Nat := 0

namespace Cycle

/-- When the attempts began, the one under way included. -/
def begins (c : Cycle) : List Instant := c.made.map Attempt.begun ++ c.current.toList

/-- The attempt under way is over. -/
def conclude (c : Cycle) (y : System) (call : StartCall) (begun : Instant) (outcome : Outcome) :
    Cycle :=
  { c with
    made := c.made ++
      [⟨begun, y.now, outcome, y.stopsAfter call.executor call.context outcome⟩]
    current := none }

/-- A move from one system to another ends the attempt under way. If there is none, one has begun if
a run has, and is over at once if only a context was made for it. -/
def attempt (c : Cycle) (y u : System) (call : StartCall) : Cycle :=
  match c.current with
  | some begun => c.conclude y call begun (y.taskOf call.executor).outcome
  | none =>
    if y.nextRun < u.nextRun then { c with current := some y.now }
    else if y.contexts.nodes.size < u.contexts.nodes.size then
      c.conclude y call y.now (.error (.alreadyRunning (y.taskOf call.executor).id))
    else c

/-- The start call makes a move. -/
def move (c : Cycle) (y : System) (call : StartCall) (u : System) (status : System.CallStatus) :
    Cycle :=
  { (if status.panics then c else c.attempt y u call) with
    result := status.end?
    moves := c.moves + 1 }

/-- The start call is found to be told to stop, or not. -/
def hear (c : Cycle) (z : System) (call : StartCall) : Cycle :=
  if c.result.isSome then c
  else
    { c with
      told := c.told.or (if z.isTold call.executor call.context then some z.now else none) }

/-- What is seen of the start call of someone in a step. -/
def next (who : Caller) (y : System) (a : Step) (z : System) (c : Cycle) : Cycle :=
  match y.startCall? who with
  | none => c
  | some call =>
    match y.ownMove? who a with
    | none => c.hear z call
    | some (u, status) => (c.move y call u status).hear z call

/-- What is recorded of the attempts is what the policy asks for: there are no more than it allows.
A further one begins only after one that has failed, that was not to be the last in any case and
whose pause is over, in which the call was not told to stop. The call returns the outcome of its
last attempt, which was a success, or was to be the last in any case, or was the last that is
allowed, or in the pause after it the call was told to stop. -/
structure Obeys (c : Cycle) (policy : RetryPolicy) : Prop where
  count : c.begins.length ≤ max policy.attempts 1
  goesOn : ∀ (i : Nat) (a : Attempt) (later : Instant), c.made[i]? = some a →
    c.begins[i + 1]? = some later →
      a.error?.isSome = true ∧ a.stops = false ∧ a.due policy ≤ later ∧
        ∀ t, c.told = some t → a.due policy ≤ t
  returns : ∀ outcome, c.result = some (.returned outcome) →
    c.current = none ∧ ∃ a, c.made.getLast? = some a ∧ a.outcome = outcome ∧
      (outcome = .ok () ∨ a.stops = true ∨ c.made.length = max policy.attempts 1 ∨
        ∃ t, c.told = some t ∧ t.ceilMillis ≤ (a.due policy).ceilMillis)
  moves : c.moves ≤ 2 * max policy.attempts 1

/-- What an executor has on record after a cycle that it began as `x`: the number of attempts that
are over, and the errors of those that have failed in place of earlier ones. -/
structure Counts (c : Cycle) (x x' : Executor) : Prop where
  task : x'.task = x.task
  options : x'.options = x.options
  attempts : x'.attempts = if c.made = [] then x.attempts else c.made.length
  errors : ∀ i, x'.errors.get? i = (c.made[i]?.bind Attempt.error?).or (x.errors.get? i)

variable {c : Cycle} {y z u : System} {call : StartCall} {x x' x'' : Executor}
  {policy : RetryPolicy} {begun : Instant} {outcome : Outcome}

theorem begins_conclude (hcurrent : c.current = some begun) :
    (c.conclude y call begun outcome).begins = c.begins := by
  simp [begins, conclude, hcurrent]

theorem length_begins (hcurrent : c.current = some begun) :
    c.begins.length = c.made.length + 1 := by
  simp [begins, hcurrent]

theorem length_made_le (c : Cycle) : c.made.length ≤ c.begins.length := by
  rw [begins, List.length_append, List.length_map]
  exact Nat.le_add_right _ _

theorem Counts.follows (h : c.Counts x x') (hfollows : x'.Follows False x'') : c.Counts x x'' := by
  rw [hfollows.idle not_false]
  exact ⟨h.task, h.options, h.attempts, h.errors⟩

theorem Counts.of_made {c' : Cycle} (h : c.Counts x x') (hmade : c'.made = c.made) :
    c'.Counts x x' := by
  refine ⟨h.task, h.options, ?_, ?_⟩ <;> rw [hmade]
  · exact h.attempts
  · exact h.errors

theorem Counts.conclude (h : c.Counts x x') (hrecords : x'.Records x'' c.made.length outcome) :
    (c.conclude y call begun outcome).Counts x x'' where
  task := hrecords.task.trans h.task
  options := hrecords.options.trans h.options
  attempts := by simpa [Cycle.conclude] using hrecords.attempts
  errors i := by
    rw [hrecords.errors, h.errors]
    obtain hlt | rfl | hgt := Nat.lt_trichotomy i c.made.length
    · rw [if_neg (Nat.ne_of_lt hlt), Cycle.conclude, List.getElem?_append_left hlt]
    · rw [if_pos rfl, Cycle.conclude, List.getElem?_concat_length,
        List.getElem?_eq_none (Nat.le_refl _)]
      rfl
    · have hlen : (c.conclude y call begun outcome).made.length ≤ i := by
        rw [Cycle.conclude, List.length_append]
        exact hgt
      rw [if_neg (Nat.ne_of_gt hgt), List.getElem?_eq_none (Nat.le_of_lt hgt),
        List.getElem?_eq_none hlen]

/-! ## What a move adds to the log -/

section Moves

variable {status : System.CallStatus}

theorem move_of_panics (h : status.panics = true) :
    c.move y call u status = { c with result := status.end?, moves := c.moves + 1 } := by
  simp only [move, h, ↓reduceIte]

/-- The attempt under way is over. -/
theorem move_of_current (h : status.panics = false) (hcurrent : c.current = some begun) :
    c.move y call u status =
      { c.conclude y call begun (y.taskOf call.executor).outcome with
        result := status.end?
        moves := c.moves + 1 } := by
  simp only [move, h, attempt, hcurrent]
  rfl

/-- An attempt begins. -/
theorem move_of_launch (h : status.panics = false) (hcurrent : c.current = none)
    (hnext : y.nextRun < u.nextRun) :
    c.move y call u status =
      { c with current := some y.now, result := status.end?, moves := c.moves + 1 } := by
  simp only [move, h, attempt, hcurrent, if_pos hnext]
  rfl

/-- An attempt is refused. -/
theorem move_of_refusal (h : status.panics = false) (hcurrent : c.current = none)
    (hnext : u.nextRun = y.nextRun) (hnew : y.contexts.nodes.size < u.contexts.nodes.size) :
    c.move y call u status =
      { c.conclude y call y.now (.error (.alreadyRunning (y.taskOf call.executor).id)) with
        result := status.end?
        moves := c.moves + 1 } := by
  simp only [move, h, attempt, hcurrent, hnext, Nat.lt_irrefl, ↓reduceIte, if_pos hnew]
  rfl

/-- The call ends in a pause. -/
theorem move_of_pause (hcurrent : c.current = none) :
    c.move y call y status = { c with result := status.end?, moves := c.moves + 1 } := by
  have hsame : c.attempt y y call = c := by
    simp only [attempt, hcurrent, Nat.lt_irrefl, ↓reduceIte]
  rw [move, hsame, ite_self]

end Moves

/-! ## Attempts that may begin -/

theorem begins_of_idle (h : c.current = none) : c.begins = c.made.map Attempt.begun := by
  rw [begins, h]
  exact List.append_nil _

/-- A further attempt may begin now. -/
structure Ready (c : Cycle) (policy : RetryPolicy) (y : System) : Prop where
  obeys : c.Obeys policy
  idle : c.current = none
  opened : c.result = none
  count : c.made.length < max policy.attempts 1
  moves : c.moves = 2 * c.made.length
  past : ∀ t ∈ c.begins, t ≤ y.now
  last : ∀ a, c.made.getLast? = some a →
    a.error?.isSome = true ∧ a.stops = false ∧ a.due policy ≤ y.now ∧
      ∀ t, c.told = some t → a.due policy ≤ t

theorem Ready.moves_lt (h : c.Ready policy y) : c.moves + 1 ≤ 2 * max policy.attempts 1 := by
  have hcount := h.count
  rw [h.moves]
  omega

theorem Ready.begin (h : c.Ready policy y) : { c with current := some y.now }.Obeys policy where
  count := by
    have hlen : { c with current := some y.now }.begins.length = c.made.length + 1 :=
      length_begins rfl
    rw [hlen]
    exact h.count
  goesOn i a later ha hlater := by
    have hlt : i < c.made.length := (List.getElem?_eq_some_iff.1 ha).1
    have hlen : (c.made.map Attempt.begun).length = c.made.length := List.length_map _
    replace hlater : (c.made.map Attempt.begun ++ [y.now])[i + 1]? = some later := hlater
    obtain hlt' | heq := Nat.lt_or_eq_of_le (show i + 1 ≤ c.made.length from hlt)
    · rw [List.getElem?_append_left (hlen ▸ hlt'), ← begins_of_idle h.idle] at hlater
      exact h.obeys.goesOn i a later ha hlater
    · rw [heq, ← hlen, List.getElem?_concat_length] at hlater
      obtain rfl := Option.some.inj hlater
      have hlast : c.made.getLast? = some a := by
        rw [List.getLast?_eq_getElem?, ← heq]
        exact ha
      exact h.last a hlast
  returns outcome hresult := by
    rw [h.opened] at hresult
    cases hresult
  moves := h.obeys.moves

theorem Obeys.conclude (h : c.Obeys policy) (hcurrent : c.current = some begun)
    (hopened : c.result = none) : (c.conclude y call begun outcome).Obeys policy := by
  have hlen : c.begins.length = c.made.length + 1 := length_begins hcurrent
  constructor
  · rw [begins_conclude hcurrent]
    exact h.count
  · intro i a later ha hlater
    rw [begins_conclude hcurrent] at hlater
    have hlt : i + 1 < c.begins.length := (List.getElem?_eq_some_iff.1 hlater).1
    rw [Cycle.conclude, List.getElem?_append_left (by omega)] at ha
    exact h.goesOn i a later ha hlater
  · intro outcome' hresult
    replace hresult : c.result = some (.returned outcome') := hresult
    rw [hopened] at hresult
    cases hresult
  · exact h.moves

/-- A move that brings the call no outcome. -/
theorem Obeys.goOn {result : Option CallEnd} {m : Nat} (h : c.Obeys policy)
    (hresult : ∀ outcome, result ≠ some (.returned outcome))
    (hmoves : m ≤ 2 * max policy.attempts 1) :
    { c with result := result, moves := m }.Obeys policy where
  count := h.count
  goesOn := h.goesOn
  returns outcome hreturned := absurd hreturned (hresult outcome)
  moves := hmoves

theorem hear_of_result (hresult : c.result.isSome = true) : c.hear z call = c := if_pos hresult

/-- The call is found to be told to stop since an earlier instant or the present one. -/
theorem Obeys.tell {told : Option Instant} (h : c.Obeys policy) (hopened : c.result = none)
    (hpast : ∀ t ∈ c.begins, t ≤ z.now)
    (hwhen : ∀ t, told = some t → c.told = some t ∨ t = z.now) :
    { c with told := told }.Obeys policy := by
  refine ⟨h.count, fun i a later ha hlater => ?_, fun outcome hreturned => ?_, h.moves⟩
  · obtain ⟨herror, hstops, hdue, hold⟩ := h.goesOn i a later ha hlater
    refine ⟨herror, hstops, hdue, fun t ht => ?_⟩
    obtain hbefore | rfl := hwhen t ht
    · exact hold t hbefore
    · exact Nat.le_trans hdue (hpast later (List.mem_of_getElem? hlater))
  · have hnone : c.result = some (.returned outcome) := hreturned
    rw [hopened] at hnone
    cases hnone

theorem told_of_hear {t : Instant} (h : (c.hear z call).told = some t) :
    c.told = some t ∨ t = z.now := by
  unfold hear at h
  split at h
  · exact .inl h
  · obtain hold | ⟨-, hnew⟩ := Option.or_eq_some_iff.1 h
    · exact .inl hold
    · split at hnew
      · exact .inr (Option.some.inj hnew).symm
      · cases hnew

/-- While the call lasts it is put on record whether it is told to stop, and since when. -/
theorem hear_cases {P : Cycle → Prop} {e : ExecutorId} {context : ContextId} {point : CallPoint}
    (hopened : c.result = none) (htold : c.told.isSome = true → z.isTold e context = true)
    (h : ∀ told : Option Instant, told.isSome = z.isTold e context →
      (∀ t, told = some t → c.told = some t ∨ t = z.now) → P { c with told := told }) :
    P (c.hear z ⟨e, context, point⟩) := by
  have hwhen (t : Instant) (ht : (c.hear z ⟨e, context, point⟩).told = some t) :
      c.told = some t ∨ t = z.now := told_of_hear ht
  rw [hear, if_neg (by simp [hopened])] at hwhen ⊢
  refine h _ ?_ hwhen
  cases hz : z.isTold e context with
  | true => simp
  | false =>
      have hnone : c.told.isSome = false := by
        rw [← Bool.not_eq_true]
        intro hsome
        rw [htold hsome] at hz
        cases hz
      simp [hnone]

theorem Obeys.hear (h : c.Obeys policy) (hpast : ∀ t ∈ c.begins, t ≤ z.now) :
    (c.hear z call).Obeys policy := by
  cases hresult : c.result with
  | some result =>
      rw [hear_of_result (by rw [hresult]; rfl)]
      exact h
  | none =>
      have hwhen (t : Instant) (ht : (c.hear z call).told = some t) :
          c.told = some t ∨ t = z.now := told_of_hear ht
      rw [Cycle.hear, if_neg (by simp [hresult])] at hwhen ⊢
      exact h.tell hresult hpast hwhen

/-! ## What a step adds to the log -/

variable {a : Step} {who : Caller} {status : System.CallStatus}

theorem next_of_gone (hgone : y.startCall? who = none) : c.next who y a z = c := by
  simp only [next, hgone]

theorem next_of_other {call : StartCall} (hcall : y.startCall? who = some call)
    (hown : y.ownMove? who a = none) : c.next who y a z = c.hear z call := by
  simp only [next, hcall, hown]

theorem next_of_move {call : StartCall} (hcall : y.startCall? who = some call)
    (hown : y.ownMove? who a = some (u, status)) :
    c.next who y a z = (c.move y call u status).hear z call := by
  simp only [next, hcall, hown]

theorem made_hear (c : Cycle) (z : System) (call : StartCall) : (c.hear z call).made = c.made := by
  unfold hear
  split <;> rfl

theorem current_hear (c : Cycle) (z : System) (call : StartCall) :
    (c.hear z call).current = c.current := by
  unfold hear
  split <;> rfl

theorem begins_hear (c : Cycle) (z : System) (call : StartCall) :
    (c.hear z call).begins = c.begins := by
  rw [begins, made_hear, current_hear, begins]

theorem Counts.hear {call : StartCall} (h : c.Counts x x') : (c.hear z call).Counts x x' :=
  h.of_made (made_hear c z call)

end Cycle

end Scheduling
