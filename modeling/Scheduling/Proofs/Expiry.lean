import Scheduling.Proofs.ContextWork
import Scheduling.Proofs.Firings
import Scheduling.Proofs.RetryCycles
import Scheduling.Proofs.Settling
/-!
# Contexts that expire

When it is on record which timeouts contexts were given and which of them were cancelled, this alone
tells their deadlines and, in a settled system, which of those that were not cancelled are done. It
also tells how a sleep in such a context ends, if time passes only in settled systems and not past a
timer: as long as the context is not done, some timer above it waits for its deadline.
-/

namespace Scheduling

/-- What is put on record of a context. -/
inductive ContextNote
  /-- It was made with a timeout of its own, which ends at an instant. -/
  | timeout (context : ContextId) (expiry : Instant)
  | cancelled (context : ContextId)
deriving DecidableEq

/-- When the own timeout of a context ends, if it was given one. -/
def ContextNote.ends (notes : List ContextNote) (c : ContextId) : Option Instant :=
  notes.findSome? fun
    | .timeout a expiry => if a = c then some expiry else none
    | .cancelled _ => none

open ContextNote (ends)

/-- Neither a context nor one above it is on record as cancelled. -/
def ContextTree.Spared (t : ContextTree) (notes : List ContextNote) (c : ContextId) : Prop :=
  ∀ a ∈ t.lineage c, .cancelled a ∉ notes

theorem Clock.ceilMillis_le_iff {c : Clock} {t : Instant} :
    t.ceilMillis ≤ c.millis ↔ t ≤ c.now := by
  have hceil (n t : Nat) (h : t ≤ 1000000 * n) : (t + 999999) / 1000000 ≤ n := by omega
  exact ⟨Clock.le_now, hceil c.millis t⟩

namespace System

variable {y z u : System} {a : Step} {notes : List ContextNote} {c : ContextId} {k : CallId}
  {wake : Instant} {start millis : Nat} {allowed : System → Step → Bool}

/-! ## The record -/

/-- What is put on record of the contexts in a step: the timeout of the first one that it makes, and
those that it cancels and that were not hit before. -/
def noteContexts (y : System) (a : Step) (z : System) : List ContextNote :=
  (if y.contexts.nodes.size < z.contexts.nodes.size then
    ((y.timeout? a).map fun timeout =>
      .timeout y.contexts.nodes.size (y.now + timeout.nanos)).toList
  else []) ++
    ((List.range z.contexts.nodes.size).filter fun c =>
      a.cancels c && z.contexts.isHit c && !y.contexts.isHit c).map .cancelled

/-- What is on record of the contexts after some steps. -/
def contextNotes (allowed : System → Step → Bool) (origin : Int) (steps : List Step) :
    List ContextNote :=
  (create origin).observe allowed noteContexts steps

theorem ends_noteContexts (y : System) (a : Step) (z : System) (c : ContextId) :
    ends (y.noteContexts a z) c =
      if y.contexts.nodes.size < z.contexts.nodes.size then y.newEnds a c else none := by
  have hcancelled (cs : List ContextId) : ends (cs.map .cancelled) c = none := by
    rw [ends, List.findSome?_map]
    exact List.findSome?_eq_none_iff.2 fun _ _ => rfl
  rw [noteContexts, ends, List.findSome?_append]
  change Option.or _ (ends _ c) = _
  rw [hcancelled, Option.or_none]
  split
  · cases htimeout : y.timeout? a with
    | none =>
        rw [newEnds, htimeout, Option.map_none, Option.map_none, ite_self]
        rfl
    | some timeout =>
        rw [newEnds, htimeout, Option.map_some, Option.map_some, Option.toList_some,
          List.findSome?_singleton]
        exact if_congr eq_comm rfl rfl
  · rfl

theorem cancelled_mem_noteContexts (hc : a.cancels c = true) (hbefore : y.contexts.isHit c = false)
    (hafter : z.contexts.isHit c = true) : .cancelled c ∈ y.noteContexts a z := by
  obtain ⟨node, hnode, -⟩ := (Option.any_eq_true _ _).1 hafter
  have hlt : c < z.contexts.nodes.size := (Array.getElem?_eq_some_iff.1 hnode).1
  have hseen : (a.cancels c && z.contexts.isHit c && !y.contexts.isHit c) = true := by
    rw [hc, hbefore, hafter]
    rfl
  exact List.mem_append_right _
    (List.mem_map_of_mem (List.mem_filter.2 ⟨List.mem_range.2 hlt, hseen⟩))

/-- The record tells of the contexts of a system, and of no others. -/
structure Recorded (y : System) (notes : List ContextNote) : Prop where
  timed : y.contexts.Timed (ends notes) (.cancelled · ∈ notes) y.now
  fresh : ∀ c, y.contexts.nodes.size ≤ c → ends notes c = none

theorem recorded_create (origin : Int) : (create origin).Recorded [] where
  timed := .empty _ _ _
  fresh _ _ := rfl

theorem Recorded.step (h : y.Recorded notes) (hz : y.step? a = some z) :
    z.Recorded (notes ++ y.noteContexts a z) := by
  have hsize := (proceeds_of_step hz).contexts.size_le
  have hends (c : ContextId) : ends (notes ++ y.noteContexts a z) c =
      (ends notes c).or
        (if y.contexts.nodes.size < z.contexts.nodes.size then y.newEnds a c else none) := by
    rw [← ends_noteContexts]
    exact List.findSome?_append
  have hapart {c : ContextId} (hc : c ≠ y.contexts.nodes.size) :
      ends (notes ++ y.noteContexts a z) c = ends notes c := by
    rw [hends, newEnds, if_neg hc, ite_self, Option.or_none]
  constructor
  case timed =>
    have hbefore : y.contexts.Timed (ends (notes ++ y.noteContexts a z))
        (.cancelled · ∈ notes ++ y.noteContexts a z) z.now :=
      h.timed.mono (fun c hc => hapart (Nat.ne_of_lt hc)) (fun c hc => List.mem_append_left _ hc)
        (now_le_of_step hz)
    obtain hdevelops | ⟨c, choice, rfl, hdue, rfl⟩ := develops_of_step hz
    · refine hbefore.develops (hdevelops.congr fun c hle hlt => ?_) fun c hc hnot hhit => ?_
      · rw [hends, h.fresh c hle, Option.none_or, if_pos (Nat.lt_of_le_of_lt hle hlt)]
      · exact List.mem_append_right _ (cancelled_mem_noteContexts hc hnot hhit)
    · exact hbefore.expire hdue
  case fresh =>
    intro c hc
    have hle := Nat.le_trans hsize hc
    rw [hends, h.fresh c hle, Option.none_or]
    split
    · rename_i hlt
      exact if_neg (Nat.ne_of_gt (Nat.lt_of_lt_of_le hlt hc))
    · rfl

theorem recorded_run (h : y.Recorded notes) (steps : List Step) :
    (y.run allowed steps).Recorded (notes ++ y.observe allowed noteContexts steps) :=
  observe_induction (fun _ _ _ _ _ hz h => h.step hz) h steps

/-! ## Time -/

/-- Time passes only when nobody can move, and not past the next timer. -/
def timely (y : System) : Step → Bool
  | .pass millis => y.actors.all (fun a => (y.moves a).isEmpty) && y.nextWake.all (millis ≤ ·)
  | _ => true

theorem timely_pass_iff (hy : y.Reachable) : y.timely (.pass millis) = true ↔
    y.Settled ∧ ∀ next ∈ y.nextWake, millis ≤ next := by
  change (y.actors.all (fun a => (y.moves a).isEmpty) && y.nextWake.all (millis ≤ ·)) = true ↔ _
  rw [settled_iff hy, Bool.and_eq_true, List.all_eq_true, Option.all_eq_true]
  simp

/-- Steps of time that are timely are just those in which time may pass. -/
theorem passes_iff_timely (hy : y.Reachable) :
    y.Passes z ↔ ∃ millis, y.timely (.pass millis) = true ∧ y.step? (.pass millis) = some z := by
  constructor
  · rintro ⟨hsettled, millis, hlt, hnext, rfl⟩
    exact ⟨millis, (timely_pass_iff hy).2 ⟨hsettled, hnext⟩, step_pass_iff.2 ⟨hlt, rfl⟩⟩
  · rintro ⟨millis, hallowed, hz⟩
    obtain ⟨hsettled, hnext⟩ := (timely_pass_iff hy).1 hallowed
    obtain ⟨hlt, rfl⟩ := step_pass_iff.1 hz
    exact ⟨hsettled, millis, hlt, hnext, rfl⟩

theorem clock_or_passes (hy : y.Reachable) (hallowed : y.timely a = true)
    (hz : y.step? a = some z) : z.clock = y.clock ∨ y.Passes z := by
  cases a with
  | pass millis => exact .inr ((passes_iff_timely hy).2 ⟨millis, hallowed, hz⟩)
  | _ => exact .inl (clock_of_step hz)

/-- Time does not pass a timer. -/
theorem Passes.le_ceilMillis (h : y.Passes z) (hwake : wake ∈ y.wakes) :
    z.clock.millis ≤ wake.ceilMillis := by
  obtain ⟨-, millis, hlt, hnext, rfl⟩ := h
  have hle := System.le_ceilMillis hnext hwake
  exact Nat.max_le.2 ⟨Nat.le_trans (Nat.le_of_lt hlt) hle, hle⟩

theorem mem_wakes_of_mem_timers (hc : c ∈ y.contexts.timers)
    (hwake : y.contexts.deadline c = some wake) : wake ∈ y.wakes := by
  unfold wakes
  simp only [List.mem_append]
  exact .inl (.inl (.inl (.inl (List.mem_filterMap.2 ⟨c, hc, hwake⟩))))

theorem mem_wakes_of_call {call : Call} (hcall : y.calls[k]? = some call)
    (hwake : Call.wake? call = some wake) : wake ∈ y.wakes := by
  have hmem : call ∈ y.calls.toList := Array.mem_toList_iff.2 (Array.mem_of_getElem? hcall)
  unfold wakes
  simp only [List.mem_append]
  exact .inl (.inl (.inr (List.mem_filterMap.2 ⟨call, hmem, hwake⟩)))

theorem mem_wakes_of_worker {i : SchedulerId} {j : SessionId} {s : Scheduler} {n : Session}
    {w : Worker} (hs : y.schedulers[i]? = some s) (hn : s.sessions[j]? = some n)
    (hw : w ∈ n.workers) (hwake : w.point.wake? = some wake) : wake ∈ y.wakes := by
  have hworkers : wake ∈ (s.sessions.toList.map fun n =>
      n.workers.filterMap (·.point.wake?)).flatten :=
    List.mem_flatten_of_mem
      (List.mem_map_of_mem (Array.mem_toList_iff.2 (Array.mem_of_getElem? hn)))
      (List.mem_filterMap.2 ⟨w, hw, hwake⟩)
  unfold wakes
  exact List.mem_append_right _ (List.mem_flatten_of_mem
    (List.mem_map_of_mem (Array.mem_toList_iff.2 (Array.mem_of_getElem? hs)))
    (List.mem_append_right _ hworkers))

theorem Reachable.mem_wakes_of_startCall? {who : Caller} {call : StartCall} (hy : y.Reachable)
    (hcall : y.startCall? who = some call) (hwake : call.point.wake? = some wake) :
    wake ∈ y.wakes := by
  cases who with
  | call k => exact mem_wakes_of_call (startCall?_call_iff.1 hcall) hwake
  | worker i j e =>
      obtain ⟨s, n, w, hs, hn, hw, -, rfl⟩ := hy.startCall?_worker_iff.1 hcall
      exact mem_wakes_of_worker hs hn hw hwake

theorem executionMoves_of_settled {who : Caller} {call : StartCall} (h : y.Settled)
    (hcall : y.startCall? who = some call) :
    y.executionMoves call.executor call.context call.point = [] := by
  refine List.eq_nil_iff_forall_not_mem.2 fun made hmem => ?_
  obtain ⟨choice, hchoice⟩ := List.mem_iff_getElem?.1 hmem
  have hmade : y.callMove? call choice = some made := hchoice
  obtain ⟨z, hz⟩ := exists_step_of_callMove? hcall hmade
  have hmoves : y.moves who.actor = [] := h who.actor
  simp [step?, hmoves] at hz

/-- For every start call the clock waits where time passes only in a settled system and not past the
next timer. -/
theorem Reachable.onTime_of_timely {who : Caller} (hy : y.Reachable) (ha : y.timely a = true) :
    y.onTime who a = true := by
  cases a with
  | pass millis =>
      obtain ⟨hsettled, hnext⟩ := (timely_pass_iff hy).1 ha
      refine (Option.all_eq_true _ _).2 fun call hcall => ?_
      rw [executionMoves_of_settled hsettled hcall, List.isEmpty_nil, Bool.true_and]
      exact (Option.all_eq_true _ _).2 fun wake hwake =>
        decide_eq_true (le_ceilMillis hnext (hy.mem_wakes_of_startCall? hcall hwake))
  | _ => rfl

/-! ## Contexts that were not cancelled -/

theorem isDue_of_settled (h : y.Settled) (c : ContextId) : y.contexts.isDue y.now c = false := by
  have hmoves : y.moves (.deadline c) = [] := h (.deadline c)
  cases hdue : y.contexts.isDue y.now c with
  | false => rfl
  | true => simp [moves, hdue] at hmoves

/-- What is on record tells in a settled system which of the contexts that were not cancelled are
done. -/
theorem Recorded.isDone_iff (h : y.Recorded notes) (hsettled : y.Settled)
    (hc : y.contexts.Spared notes c) : y.contexts.isDone c = true ↔
      ∃ d, y.contexts.deadline c = some d ∧ d.ceilMillis ≤ y.clock.millis := by
  rw [h.timed.isDone_iff hc (isDue_of_settled hsettled)]
  exact exists_congr fun d => and_congr_right fun _ => Clock.ceilMillis_le_iff.symm

/-! ## Sleeps -/

/-- How a sleep may have ended that began in the millisecond `start` and by itself would end in
`stop`, in a context with a deadline. If both ends come in one millisecond, either may be seen. -/
inductive SleepEnd (deadline : Option Instant) (start stop : Nat) : Nat → CallValue → Prop
  | slept (h : ∀ d, deadline = some d → stop ≤ max start d.ceilMillis) :
      SleepEnd deadline start stop stop (.outcome (.ok ()))
  | exceeded {d : Instant} (hd : deadline = some d) (h : max start d.ceilMillis ≤ stop) :
      SleepEnd deadline start stop (max start d.ceilMillis)
        (.outcome (.error .deadlineExceeded))

/-- Where the call `k` stands, which began in the millisecond `start` to sleep in a context that was
not cancelled. -/
inductive SleepPoint (y : System) (k : CallId) (c : ContextId) (wake : Instant) (start : Nat) : Prop
  /-- Time has not gone beyond its end, nor beyond the deadline since it began. -/
  | asleep (hcall : y.calls[k]? = some (.sleep c wake)) (hstart : start ≤ y.clock.millis)
      (hwake : y.clock.millis ≤ wake.ceilMillis)
      (hdeadline : ∀ d, y.contexts.deadline c = some d → y.clock.millis ≤ max start d.ceilMillis)
  | ended {millis : Nat} {value : CallValue} (hcall : y.calls[k]? = some (.ended millis value))
      (hmillis : millis ≤ y.clock.millis)
      (hend : SleepEnd (y.contexts.deadline c) start wake.ceilMillis millis value)

/-- A sleep that goes on in a settled system is before its end, and its context is not done. -/
theorem lt_of_asleep (hsettled : y.Settled) (hcall : y.calls[k]? = some (.sleep c wake)) :
    y.clock.millis < wake.ceilMillis ∧ y.contexts.isDone c = false := by
  have hmoves : y.callMoves k = [] := hsettled (.call k)
  simp only [callMoves, hcall, List.append_eq_nil_iff] at hmoves
  obtain ⟨hlive, hlater⟩ := hmoves
  constructor
  · refine Nat.lt_of_not_le fun hle => ?_
    have hdue : wake ≤ y.now := Clock.ceilMillis_le_iff.1 hle
    rw [if_pos hdue] at hlater
    cases hlater
  · refine Bool.eq_false_iff.2 fun hdone => ?_
    rw [if_pos hdone] at hlive
    cases hlive

/-- A sleep goes on or ends in a step as it should, if only its context is not cancelled. -/
theorem SleepPoint.step (h : y.SleepPoint k c wake start) (hy : y.Reachable)
    (hrecorded : y.Recorded notes) (hspared : y.contexts.Spared notes c)
    (hc : c < y.contexts.nodes.size) (hallowed : y.timely a = true) (hz : y.step? a = some z) :
    z.SleepPoint k c wake start := by
  have hkept : z.contexts.deadline c = y.contexts.deadline c :=
    (proceeds_of_step hz).contexts.deadline_eq hc
  have htime := clock_or_passes hy hallowed hz
  have hlater : y.clock.millis ≤ z.clock.millis := by
    obtain hsame | ⟨-, millis, -, -, rfl⟩ := htime
    · exact Nat.le_of_eq (congrArg Clock.millis hsame).symm
    · exact Nat.le_max_left _ _
  cases h with
  | @ended millis value hcall hmillis hend =>
      obtain hsame | ⟨u, call', hmove, -, -⟩ := call_of_step hz hcall
      · exact .ended hsame (Nat.le_trans hmillis hlater) (hkept ▸ hend)
      · cases hmove
  | asleep hcall hstart hwake hdeadline =>
      obtain hsame | ⟨u, call', hmove, -, hcall'⟩ := call_of_step hz hcall
      · have hnext : z.clock.millis ≤ wake.ceilMillis ∧
            ∀ d, y.contexts.deadline c = some d → z.clock.millis ≤ max start d.ceilMillis := by
          obtain hclock | hpasses := htime
          · rw [hclock]
            exact ⟨hwake, hdeadline⟩
          · refine ⟨hpasses.le_ceilMillis (mem_wakes_of_call hcall rfl), fun d hd => ?_⟩
            -- The context is not done, so that a timer waits for its deadline.
            obtain ⟨-, hlive⟩ := lt_of_asleep hpasses.1 hcall
            obtain ⟨b, -, hmem, hb⟩ := hrecorded.timed.waits c d hlive hd
            exact Nat.le_trans (hpasses.le_ceilMillis (mem_wakes_of_mem_timers hmem hb))
              (Nat.le_max_right _ _)
        exact .asleep hsame (Nat.le_trans hstart hlater) hnext.1 (hkept ▸ hnext.2)
      · cases hmove with
        | cancelSleep hdone =>
            obtain ⟨⟨d, hd, hle⟩, herror⟩ := hrecorded.timed.passed_of_isDone hspared hdone
            have hpast : d.ceilMillis ≤ y.clock.millis := Clock.ceilMillis_le_iff.2 hle
            have hpassed : max start d.ceilMillis = y.clock.millis :=
              Nat.le_antisymm (Nat.max_le.2 ⟨hstart, hpast⟩) (hdeadline d hd)
            rw [doneError, herror, Option.getD_some, ← hpassed] at hcall'
            exact .ended hcall' (hpassed ▸ hlater) (.exceeded (hkept.trans hd) (hpassed ▸ hwake))
        | wakeUp hle =>
            have hended : wake.ceilMillis = y.clock.millis :=
              Nat.le_antisymm (Clock.ceilMillis_le_iff.2 hle) hwake
            rw [← hended] at hcall'
            refine .ended hcall' (hended ▸ hlater) (.slept fun d hd => ?_)
            exact hended ▸ hdeadline d (hkept.symm.trans hd)

/-- A system and the record in a run in which a call sleeps. -/
structure Sleeps (y : System) (notes : List ContextNote) (k : CallId) (c : ContextId)
    (wake : Instant) (start : Nat) : Prop where
  reachable : y.Reachable
  recorded : y.Recorded notes
  context : c < y.contexts.nodes.size
  point : y.contexts.Spared notes c → y.SleepPoint k c wake start

theorem Sleeps.step (h : y.Sleeps notes k c wake start) (hallowed : y.timely a = true)
    (hz : y.step? a = some z) : z.Sleeps (notes ++ y.noteContexts a z) k c wake start where
  reachable := .step h.reachable rfl hz
  recorded := h.recorded.step hz
  context := Nat.lt_of_lt_of_le h.context (proceeds_of_step hz).contexts.size_le
  point hspared := by
    have hbefore : y.contexts.Spared notes c := fun b hb hnote =>
      hspared b ((proceeds_of_step hz).contexts.mem_lineage hb) (List.mem_append_left _ hnote)
    exact (h.point hbefore).step h.reachable h.recorded hbefore h.context hallowed hz

/-- A sleep begins with the call for it. -/
theorem sleeps_of_call (hy : y.Reachable) (h : y.Recorded notes) (hwake : y.now ≤ wake)
    (hz : y.step? (.request (.call (.sleep c wake))) = some z) :
    z.Sleeps (notes ++ y.noteContexts (.request (.call (.sleep c wake))) z) y.calls.size c wake
      y.clock.millis where
  reachable := .step hy rfl hz
  recorded := h.step hz
  context := by
    obtain ⟨haccepts, rfl⟩ := step_request_iff.1 hz
    exact of_decide_eq_true haccepts
  point _ := by
    obtain ⟨-, rfl⟩ := step_request_iff.1 hz
    exact .asleep Array.getElem?_push_size (Nat.le_refl _) (Clock.millis_le_ceilMillis hwake)
      fun d _ => Nat.le_max_left _ _

theorem sleeps_run (h : y.Sleeps notes k c wake start) (steps : List Step) :
    (y.run timely steps).Sleeps (notes ++ y.observe timely noteContexts steps) k c wake start := by
  have hstep (y : System) (a : Step) (z : System) (notes : List ContextNote)
      (hallowed : y.timely a = true) (hz : y.step? a = some z)
      (h : y.Sleeps notes k c wake start) :
      z.Sleeps (notes ++ y.noteContexts a z) k c wake start := h.step hallowed hz
  exact observe_induction hstep h steps

/-! ## Deadlines -/

/-- What a system shows of the timeouts and the cancellations that are on record. -/
structure HonorsTimeouts (y : System) (notes : List ContextNote) : Prop where
  /-- A deadline is the earliest end of the timeouts of the context and of those above it. -/
  earliest : ∀ c, y.contexts.deadline c = ((y.contexts.lineage c).filterMap (ends notes)).min?
  /-- It is not beyond that of any context above. -/
  within : ∀ c, ∀ b ∈ y.contexts.lineage c, ∀ d, y.contexts.deadline b = some d →
    ∃ d', y.contexts.deadline c = some d' ∧ d' ≤ d
  /-- Once all work is done, what was not cancelled is done just if its deadline has passed. -/
  done_iff : y.Settled → ∀ c, y.contexts.Spared notes c → (y.contexts.isDone c = true ↔
    ∃ d, y.contexts.deadline c = some d ∧ d.ceilMillis ≤ y.clock.millis)
  error : ∀ c, y.contexts.Spared notes c → y.contexts.isDone c = true →
    y.contexts.error? c = some .deadlineExceeded

theorem Recorded.honorsTimeouts (h : y.Recorded notes) : y.HonorsTimeouts notes where
  earliest := h.timed.deadline
  within _ _ hb _ hd := h.timed.deadline_le hb hd
  done_iff hsettled _ hspared := h.isDone_iff hsettled hspared
  error _ hspared hdone := (h.timed.passed_of_isDone hspared hdone).2

/-- What becomes of the call `k`, which began in the millisecond `start` to sleep in a context, in a
system in which all work is done. A deadline that was passed before counts as passed in `start`. -/
structure HonorsSleep (y : System) (k : CallId) (c : ContextId) (wake : Instant) (start : Nat) :
    Prop where
  /-- The deadline comes first. -/
  exceeded : ∀ d, y.contexts.deadline c = some d → max start d.ceilMillis < wake.ceilMillis →
    y.calls[k]? = some (if max start d.ceilMillis ≤ y.clock.millis then
      .ended (max start d.ceilMillis) (.outcome (.error .deadlineExceeded)) else .sleep c wake)
  /-- The end of the sleep comes first. -/
  slept : (∀ d, y.contexts.deadline c = some d → wake.ceilMillis < max start d.ceilMillis) →
    y.calls[k]? = some (if wake.ceilMillis ≤ y.clock.millis then
      .ended wake.ceilMillis (.outcome (.ok ())) else .sleep c wake)
  /-- Both come in one millisecond: nothing is promised of which of them is seen. -/
  either : ∀ d, y.contexts.deadline c = some d → max start d.ceilMillis = wake.ceilMillis →
    y.calls[k]? = some (.sleep c wake) ∧ y.clock.millis < wake.ceilMillis ∨
      wake.ceilMillis ≤ y.clock.millis ∧ ∃ outcome,
        y.calls[k]? = some (.ended wake.ceilMillis (.outcome outcome)) ∧
          (outcome = .ok () ∨ outcome = .error .deadlineExceeded)

theorem Sleeps.honorsSleep (h : y.Sleeps notes k c wake start) (hsettled : y.Settled)
    (hspared : y.contexts.Spared notes c) : y.HonorsSleep k c wake start := by
  cases h.point hspared with
  | asleep hcall _ _ _ =>
      obtain ⟨hlt, hlive⟩ := lt_of_asleep hsettled hcall
      have hahead (d : Instant) (hd : y.contexts.deadline c = some d) :
          ¬ max start d.ceilMillis ≤ y.clock.millis := fun hle => by
        have hpast : d.ceilMillis ≤ y.clock.millis := Nat.le_trans (Nat.le_max_right _ _) hle
        rw [(h.recorded.isDone_iff hsettled hspared).2 ⟨d, hd, hpast⟩] at hlive
        cases hlive
      constructor
      case exceeded =>
        intro d hd _
        rw [if_neg (hahead d hd), hcall]
      case slept =>
        intro _
        rw [if_neg (Nat.not_le_of_lt hlt), hcall]
      case either => exact fun _ _ _ => .inl ⟨hcall, hlt⟩
  | ended hcall hmillis hend =>
      cases hend with
      | slept hfirst =>
          constructor
          case exceeded => exact fun d hd hlt => absurd (hfirst d hd) (Nat.not_le_of_lt hlt)
          case slept =>
            intro _
            rw [if_pos hmillis, hcall]
          case either => exact fun _ _ _ => .inr ⟨hmillis, _, hcall, .inl rfl⟩
      | @exceeded d hd hfirst =>
          constructor
          case exceeded =>
            intro d' hd' _
            obtain rfl := Option.some.inj (hd.symm.trans hd')
            rw [if_pos hmillis, hcall]
          case slept => exact fun hlt => absurd hfirst (Nat.not_le_of_lt (hlt d hd))
          case either =>
            intro d' hd' heq
            obtain rfl := Option.some.inj (hd.symm.trans hd')
            rw [heq] at hcall hmillis
            exact .inr ⟨hmillis, _, hcall, .inr rfl⟩

/-- The deadline of a context is the earliest end of the timeouts that were given to it and to those
above it, and so is never beyond the deadline of one above. Once all work of an instant is done, a
context that was not cancelled is done just if the millisecond of its deadline has come, with the
error of an exceeded deadline. A sleep in it ends with this error if that comes first, and well if
the sleep is over first. -/
theorem deadlines_kept (origin : Int) :
    (∀ allowed steps, ((create origin).run allowed steps).HonorsTimeouts
      (contextNotes allowed origin steps)) ∧
    ∀ past rest c d, ((create origin).run timely past).hasContext c = true →
      let y := (create origin).run timely past
      let wake := Instant.wake y.now d
      let steps := past ++ .request (.call (.sleep c wake)) :: rest
      let z := (create origin).run timely steps
      z.Settled → z.contexts.Spared (contextNotes timely origin steps) c →
        z.HonorsSleep y.calls.size c wake y.clock.millis := by
  constructor
  · intro allowed steps
    exact (recorded_run (recorded_create origin) steps).honorsTimeouts
  · intro past rest c d hc y wake steps z hsettled hspared
    have hrecorded : y.Recorded (contextNotes timely origin past) :=
      recorded_run (recorded_create origin) past
    obtain ⟨u, hu⟩ : ∃ u, y.next? timely (.request (.call (.sleep c wake))) = some u :=
      ⟨_, next?_eq_some_iff.2 ⟨rfl, step_request_iff.2 ⟨hc, rfl⟩⟩⟩
    have hreach : y.Reachable := Reachable.run_any (.create origin) _ past
    have hbegins := sleeps_of_call hreach hrecorded (Instant.le_wake y.now d)
      (next?_eq_some_iff.1 hu).2
    have hz : z = u.run timely rest := by
      rw [← run_cons_of_some hu]
      exact run_append _ _ _
    have hnotes : contextNotes timely origin steps = contextNotes timely origin past ++
        y.noteContexts (.request (.call (.sleep c wake))) u ++
          u.observe timely noteContexts rest := by
      rw [List.append_assoc, ← observe_cons_of_some hu]
      exact observe_append _ _ _
    rw [hnotes, hz] at hspared
    rw [hz] at hsettled ⊢
    exact (sleeps_run hbegins rest).honorsSleep hsettled hspared

/-- Below a context with a timeout of one and a half milliseconds there is a child, and below that a
context with a timeout of ten. -/
def nestedContexts : List Step :=
  [.request .newContext, .request (.newChildFor 0 ⟨1500000⟩), .request (.newChild 1),
    .request (.newChildFor 2 ⟨10000000⟩)]

/-- In the innermost context a sleep of five milliseconds begins; after two, the outer timer goes
off and the sleep ends. -/
def nestedSleep : List Step :=
  nestedContexts ++ .request (.call (.sleep 3
    (Instant.wake ((create 0).run timely nestedContexts).now ⟨5000000⟩))) ::
      [.pass 2, .move (.deadline 1) 0, .move (.call 0) 0]

theorem deadlines_kept_nested :
    let z := (create 0).run timely nestedSleep
    z.Settled ∧ z.contexts.Spared (contextNotes timely 0 nestedSleep) 3 ∧
      z.contexts.deadline 3 = some 1500000 ∧ z.contexts.isDone 3 = true ∧
      z.contexts.error? 3 = some .deadlineExceeded ∧
      z.calls[0]? = some (.ended 2 (.outcome (.error .deadlineExceeded))) := by
  intro z
  obtain ⟨hhonors, hsleeps⟩ := deadlines_kept 0
  have hreach : z.Reachable := Reachable.run_any (.create 0) timely nestedSleep
  have hall : (z.actors.all fun a => (z.moves a).isEmpty) = true := by decide +kernel
  have hsettled : z.Settled :=
    (settled_iff hreach).2 fun a ha => List.isEmpty_iff.1 (List.all_eq_true.1 hall a ha)
  have hspared : z.contexts.Spared (contextNotes timely 0 nestedSleep) 3 := by
    unfold ContextTree.Spared
    decide +kernel
  have hdeadline : z.contexts.deadline 3 = some 1500000 := by decide +kernel
  have hmillis : z.clock.millis = 2 := by decide +kernel
  have hdone : z.contexts.isDone 3 = true :=
    ((hhonors timely nestedSleep).done_iff hsettled 3 hspared).2
      ⟨1500000, hdeadline, by rw [hmillis]; decide⟩
  have hends := (hsleeps nestedContexts _ 3 ⟨5000000⟩ (by decide +kernel) hsettled hspared).exceeded
    1500000 hdeadline (by decide +kernel)
  rw [if_pos (by decide +kernel)] at hends
  have herror := (hhonors timely nestedSleep).error 3 hspared hdone
  exact ⟨hsettled, hspared, hdeadline, hdone, herror, hends⟩

end System

end Scheduling
