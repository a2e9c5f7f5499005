import Scheduling.Cron.Table
/-!
# The timers of a cron table

Every live timer belongs to an entry of its table, whatever is done to the table. So a table that is
cleared or stopped, and aborts the timers of its entries, has no live timer left.
-/

namespace Scheduling.Cron.Table

variable {α : Type} {t : Table α} {id : EntryId}

/-- Every timer is held by an entry and fires what the entry gives out, and the next number is
free. -/
structure Linked (t : Table α) : Prop where
  held : ∀ (timer : TimerId) (live : Timer α), t.timers.get? timer = some live →
    ∃ (id : EntryId) (e : Entry α), t.entries.get? id = some e ∧ e.timer = some timer ∧
      e.payload = live.payload
  fresh : ∀ id, t.nextId ≤ id → t.entries.get? id = none

/-- No timer is live, and none will be armed before the table is started. -/
structure Stopped (t : Table α) : Prop where
  timers : t.timers = Registry.empty
  running : t.running = false

/-- The table stands still, and nothing is scheduled. -/
structure Idle (t : Table α) : Prop extends t.Stopped where
  entries : t.entries = Registry.empty

theorem Idle.linked (h : t.Idle) : t.Linked where
  held _ _ hlive := by
    rw [h.timers] at hlive
    cases hlive
  fresh _ _ := by
    rw [h.entries]
    rfl

theorem linked_create (zone : ZoneChoice) : (create zone : Table α).Linked where
  held _ _ h := by cases h
  fresh _ _ := rfl

/-! ## Aborting timers -/

theorem get?_abort (entries : List (Entry α)) (timers : Registry TimerId (Timer α))
    (timer : TimerId) :
    (abort entries timers).get? timer =
      if ∃ e ∈ entries, e.timer = some timer then none else timers.get? timer := by
  induction entries generalizing timers with
  | nil => simp [abort]
  | cons e entries ih =>
      have hcons : abort (e :: entries) timers = abort entries (abort [e] timers) := rfl
      have hone : (abort [e] timers).get? timer =
          if e.timer = some timer then none else timers.get? timer := by
        cases he : e.timer with
        | none => simp [abort, he]
        | some own => simp [abort, he, Registry.get?_erase, eq_comm]
      rw [hcons, ih, hone]
      simp only [List.mem_cons, exists_eq_or_imp]
      by_cases hrest : ∃ e ∈ entries, e.timer = some timer
      · rw [if_pos hrest, if_pos (.inr hrest)]
      · simp only [hrest, or_false, if_false]

/-- Aborting the timers of all entries leaves none. -/
theorem Linked.abort_values (h : t.Linked) : abort t.entries.values t.timers = Registry.empty := by
  refine Registry.eq_empty_iff.2 fun timer => ?_
  rw [get?_abort]
  split
  · rfl
  · rename_i hnone
    cases hlive : t.timers.get? timer with
    | none => rfl
    | some live =>
        obtain ⟨id, e, he, htimer, -⟩ := h.held timer live hlive
        exact absurd ⟨e, Registry.mem_values_iff.2 ⟨id, he⟩, htimer⟩ hnone

/-! ## Operations -/

theorem Linked.arm (h : t.Linked) (id : EntryId) : (t.arm id).Linked := by
  unfold Table.arm
  split
  · rename_i schedule payload hentry
    have hlt : id < t.nextId := by
      refine Nat.lt_of_not_le fun hle => ?_
      rw [h.fresh id hle] at hentry
      cases hentry
    refine ⟨fun timer live hlive => ?_, fun k hk => ?_⟩
    · dsimp only at hlive ⊢
      rw [Registry.get?_insert] at hlive
      by_cases htimer : timer = t.nextTimer
      · rw [if_pos htimer] at hlive
        cases hlive
        exact ⟨id, ⟨schedule, payload, some t.nextTimer⟩, by rw [Registry.get?_insert, if_pos rfl],
          by rw [htimer], rfl⟩
      · rw [if_neg htimer] at hlive
        obtain ⟨k, e, he, hheld⟩ := h.held timer live hlive
        have hk : k ≠ id := by
          rintro rfl
          rw [hentry] at he
          cases he
          cases hheld.1
        exact ⟨k, e, by rw [Registry.get?_insert, if_neg hk, he], hheld⟩
    · dsimp only at hk ⊢
      have hne : k ≠ id := Nat.ne_of_gt (Nat.lt_of_lt_of_le hlt hk)
      rw [Registry.get?_insert, if_neg hne]
      exact h.fresh k hk
  · exact h

theorem Linked.add (h : t.Linked) (schedule : Schedule) (payload : α) :
    (t.add schedule payload).2.Linked := by
  have hadded : Linked
      { t with
        entries := t.entries.insert t.nextId ⟨schedule, payload, none⟩
        nextId := t.nextId + 1 } := by
    refine ⟨fun timer live hlive => ?_, fun k hk => ?_⟩
    · obtain ⟨k, e, he, hheld⟩ := h.held timer live hlive
      have hk : k ≠ t.nextId := by
        rintro rfl
        rw [h.fresh t.nextId (Nat.le_refl _)] at he
        cases he
      exact ⟨k, e, by rw [Registry.get?_insert, if_neg hk, he], hheld⟩
    · dsimp only at hk ⊢
      rw [Registry.get?_insert, if_neg (Nat.ne_of_gt hk)]
      exact h.fresh k (Nat.le_of_succ_le hk)
  unfold Table.add
  dsimp only
  split
  · exact hadded.arm t.nextId
  · exact hadded

theorem Linked.remove (h : t.Linked) (id : EntryId) : (t.remove id).2.Linked := by
  unfold Table.remove
  split
  · rename_i e hentry
    refine ⟨fun timer live hlive => ?_, fun k hk => ?_⟩
    · dsimp only at hlive ⊢
      rw [get?_abort] at hlive
      split at hlive
      · cases hlive
      · rename_i hkept
        obtain ⟨k, e', he', hheld⟩ := h.held timer live hlive
        have hk : k ≠ id := by
          rintro rfl
          rw [hentry] at he'
          cases he'
          exact hkept ⟨e, List.mem_singleton.2 rfl, hheld.1⟩
        exact ⟨k, e', by rw [Registry.get?_erase, if_neg hk, he'], hheld⟩
    · dsimp only at hk ⊢
      rw [Registry.get?_erase, h.fresh k hk, ite_self]
  · exact h

/-- Starting a table arms entries, one after the other. -/
theorem start_induction {P : Table α → Prop} (h : P { t with running := true })
    (harm : ∀ t id, P t → P (t.arm id)) : P t.start := by
  unfold Table.start
  generalize t.entries.keys = ids
  generalize { t with running := true } = u at h
  induction ids generalizing u with
  | nil => exact h
  | cons id ids ih => exact ih _ (harm u id h)

theorem Linked.start (h : t.Linked) : t.start.Linked :=
  start_induction ⟨h.held, h.fresh⟩ fun _ id hu => hu.arm id

theorem Linked.clear (h : t.Linked) : t.clear.Linked where
  held timer live hlive := by
    have hempty : t.clear.timers = Registry.empty := h.abort_values
    rw [hempty] at hlive
    cases hlive
  fresh _ _ := rfl

/-- A table that is cleared and stopped is idle. -/
theorem Linked.idle_clear_stop (h : t.Linked) : t.clear.stop.Idle :=
  ⟨⟨h.clear.abort_values, rfl⟩, rfl⟩

/-- What a live timer can do: it goes to sleep until its next slot, ends when there is none, or
fires when it is time. -/
inductive Advance (t : Table α) (clock : Clock) (timer : TimerId) (live : Timer α) :
    Option α → Table α → Prop
  | sleep (slot : Int) (hpoint : live.point = .seeking)
      (hslot : live.schedule.nextSlot t.zone.zone live.lastFired clock.wall = .at slot) :
      Advance t clock timer live none
        { t with
          timers := t.timers.insert timer
            { live with
              point := .sleeping slot
                (clock.now.wake (Schedule.delayUntil slot clock.wall)) } }
  | finish (hpoint : live.point = .seeking)
      (hnone : ∀ slot, live.schedule.nextSlot t.zone.zone live.lastFired clock.wall ≠ .at slot) :
      Advance t clock timer live none { t with timers := t.timers.erase timer }
  | fire (slot : Int) (wake : Instant) (hpoint : live.point = .sleeping slot wake)
      (hdue : wake ≤ clock.now) :
      Advance t clock timer live (some live.payload)
        { t with
          timers := t.timers.insert timer
            { live with lastFired := some slot, point := .seeking } }

section Advance

variable {clock : Clock} {timer : TimerId} {fired : Option α} {t' : Table α}

theorem advance_cases (h : t.advance clock timer = some (fired, t')) :
    ∃ live : Timer α, t.timers.get? timer = some live ∧
      t.Advance clock timer live fired t' := by
  unfold Table.advance at h
  split at h
  · cases h
  · rename_i live hlive
    refine ⟨live, hlive, ?_⟩
    split at h
    · rename_i hpoint
      split at h
      · rename_i slot hslot
        cases h
        exact .sleep slot hpoint hslot
      · rename_i hnone
        cases h
        exact .finish hpoint hnone
    · rename_i slot wake hpoint
      split at h
      · rename_i hdue
        cases h
        exact .fire slot wake hpoint hdue
      · cases h

/-- Only a live timer goes on. -/
theorem contains_of_advance {result : Option α × Table α}
    (h : t.advance clock timer = some result) : t.timers.contains timer = true := by
  obtain ⟨live, hlive, -⟩ := advance_cases h
  rw [Registry.contains, hlive]
  rfl

theorem Linked.advance (h : t.Linked) (hadvance : t.advance clock timer = some (fired, t')) :
    t'.Linked := by
  obtain ⟨live, hlive, hcase⟩ := advance_cases hadvance
  obtain ⟨id, e, he, hheld⟩ := h.held timer live hlive
  have hinsert {live' : Timer α} (hpayload : live'.payload = live.payload) :
      Linked { t with timers := t.timers.insert timer live' } := by
    refine ⟨fun timer' live'' hlive' => ?_, h.fresh⟩
    dsimp only at hlive'
    rw [Registry.get?_insert] at hlive'
    split at hlive'
    · rename_i heq
      cases hlive'
      exact ⟨id, e, he, heq ▸ hheld.1, hheld.2.trans hpayload.symm⟩
    · exact h.held timer' live'' hlive'
  cases hcase with
  | sleep | fire => exact hinsert rfl
  | finish =>
      refine ⟨fun timer' live' hlive' => ?_, h.fresh⟩
      dsimp only at hlive'
      rw [Registry.get?_erase] at hlive'
      split at hlive'
      · cases hlive'
      · exact h.held timer' live' hlive'

/-- What a timer fires is what it was armed with. -/
theorem payload_of_advance {payload : α}
    (h : t.advance clock timer = some (some payload, t')) :
    ∃ live : Timer α, t.timers.get? timer = some live ∧ live.payload = payload := by
  obtain ⟨live, hlive, hcase⟩ := advance_cases h
  cases hcase with
  | fire => exact ⟨live, hlive, rfl⟩

end Advance

/-- Without entries there is no timer. -/
theorem Linked.timers_of_entries (h : t.Linked) (hentries : t.entries = Registry.empty) :
    t.timers = Registry.empty := by
  refine Registry.eq_empty_iff.2 fun timer => ?_
  cases hlive : t.timers.get? timer with
  | none => rfl
  | some live =>
      obtain ⟨id, e, he, -⟩ := h.held timer live hlive
      rw [hentries] at he
      cases he

/-! ## What a table can fire -/

/-- All that the table can fire is of a kind. -/
structure Carries (kind : α → Prop) (t : Table α) : Prop where
  entries : ∀ (id : EntryId) (e : Entry α), t.entries.get? id = some e → kind e.payload
  timers : ∀ (timer : TimerId) (live : Timer α), t.timers.get? timer = some live →
    kind live.payload

section Carries

variable {kind : α → Prop}

theorem carries_of_empty (hentries : t.entries = Registry.empty)
    (htimers : t.timers = Registry.empty) : t.Carries kind where
  entries _ _ he := by
    rw [hentries] at he
    cases he
  timers _ _ hlive := by
    rw [htimers] at hlive
    cases hlive

theorem Carries.arm (h : t.Carries kind) (id : EntryId) : (t.arm id).Carries kind := by
  unfold Table.arm
  split
  · rename_i schedule payload hentry
    have hpayload : kind payload := h.entries id _ hentry
    refine ⟨fun k e he => ?_, fun timer live hlive => ?_⟩
    · dsimp only at he
      rw [Registry.get?_insert] at he
      split at he
      · cases he
        exact hpayload
      · exact h.entries k e he
    · dsimp only at hlive
      rw [Registry.get?_insert] at hlive
      split at hlive
      · cases hlive
        exact hpayload
      · exact h.timers timer live hlive
  · exact h

theorem Carries.add {payload : α} (h : t.Carries kind) (schedule : Schedule)
    (hpayload : kind payload) : (t.add schedule payload).2.Carries kind := by
  have hadded : Carries kind
      { t with
        entries := t.entries.insert t.nextId ⟨schedule, payload, none⟩
        nextId := t.nextId + 1 } := by
    refine ⟨fun k e he => ?_, h.timers⟩
    dsimp only at he
    rw [Registry.get?_insert] at he
    split at he
    · cases he
      exact hpayload
    · exact h.entries k e he
  unfold Table.add
  dsimp only
  split
  · exact hadded.arm t.nextId
  · exact hadded

/-- Fewer entries and timers carry no more. -/
theorem Carries.of_fewer {t' : Table α} (h : t.Carries kind)
    (hentries : ∀ id e, t'.entries.get? id = some e → t.entries.get? id = some e)
    (htimers : ∀ timer live, t'.timers.get? timer = some live →
      t.timers.get? timer = some live) : t'.Carries kind :=
  ⟨fun id e he => h.entries id e (hentries id e he),
    fun timer live hlive => h.timers timer live (htimers timer live hlive)⟩

theorem get?_of_abort {entries : List (Entry α)} {timers : Registry TimerId (Timer α)}
    {timer : TimerId} {live : Timer α} (h : (abort entries timers).get? timer = some live) :
    timers.get? timer = some live := by
  rw [get?_abort] at h
  split at h
  · cases h
  · exact h

theorem Carries.remove (h : t.Carries kind) (id : EntryId) :
    (t.remove id).2.Carries kind := by
  unfold Table.remove
  split
  · refine h.of_fewer (fun k e he => ?_) fun timer live hlive => get?_of_abort hlive
    dsimp only at he
    rw [Registry.get?_erase] at he
    split at he
    · cases he
    · exact he
  · exact h

theorem Carries.start (h : t.Carries kind) : t.start.Carries kind :=
  start_induction ⟨h.entries, h.timers⟩ fun _ id hu => hu.arm id

theorem Carries.clear_stop (h : t.Carries kind) : t.clear.stop.Carries kind :=
  h.of_fewer (fun _ _ he => by cases he) fun _ _ hlive => get?_of_abort (get?_of_abort hlive)

theorem Carries.advance {clock : Clock} {timer : TimerId} {fired : Option α} {t' : Table α}
    (h : t.Carries kind) (hadvance : t.advance clock timer = some (fired, t')) :
    t'.Carries kind := by
  obtain ⟨live, hlive, hcase⟩ := advance_cases hadvance
  have hinsert {live' : Timer α} (hpayload : live'.payload = live.payload) :
      Carries kind { t with timers := t.timers.insert timer live' } := by
    refine ⟨h.entries, fun timer' live'' hlive' => ?_⟩
    dsimp only at hlive'
    rw [Registry.get?_insert] at hlive'
    split at hlive'
    · cases hlive'
      rw [hpayload]
      exact h.timers timer live hlive
    · exact h.timers timer' live'' hlive'
  cases hcase with
  | sleep | fire => exact hinsert rfl
  | finish =>
      refine h.of_fewer (fun _ _ => id) fun timer' live' hlive' => ?_
      dsimp only at hlive'
      rw [Registry.get?_erase] at hlive'
      split at hlive'
      · cases hlive'
      · exact hlive'

end Carries

/-! ## What the entries give out -/

/-- What the entry with a number gives out. -/
def payload? (t : Table α) (id : EntryId) : Option α := (t.entries.get? id).map Entry.payload

theorem payload?_arm (t : Table α) (id k : EntryId) : (t.arm id).payload? k = t.payload? k := by
  unfold Table.arm
  split
  · rename_i schedule payload hentry
    simp only [payload?, Registry.get?_insert]
    split
    · rename_i hk
      rw [hk, hentry]
      rfl
    · rfl
  · rfl

theorem payload?_add (t : Table α) (schedule : Schedule) (payload : α) (k : EntryId) :
    (t.add schedule payload).2.payload? k =
      if k = t.nextId then some payload else t.payload? k := by
  have hadded : payload?
      { t with
        entries := t.entries.insert t.nextId ⟨schedule, payload, none⟩
        nextId := t.nextId + 1 } k =
      if k = t.nextId then some payload else t.payload? k := by
    simp only [payload?, Registry.get?_insert]
    split <;> rfl
  unfold Table.add
  dsimp only
  split
  · rw [payload?_arm, hadded]
  · exact hadded

theorem payload?_remove (t : Table α) (id k : EntryId) :
    (t.remove id).2.payload? k = if k = id then none else t.payload? k := by
  unfold Table.remove
  split
  · simp only [payload?, Registry.get?_erase]
    split <;> rfl
  · rename_i hnone
    split
    · rename_i hk
      rw [payload?, hk, hnone]
      rfl
    · rfl

theorem payload?_start (t : Table α) (k : EntryId) : t.start.payload? k = t.payload? k :=
  start_induction (P := fun u => u.payload? k = t.payload? k) rfl fun u id hu =>
    (payload?_arm u id k).trans hu

theorem payload?_clear_stop (t : Table α) (k : EntryId) : t.clear.stop.payload? k = none := rfl

theorem payload?_advance {clock : Clock} {timer : TimerId} {fired : Option α} {t' : Table α}
    (h : t.advance clock timer = some (fired, t')) (k : EntryId) :
    t'.payload? k = t.payload? k := by
  obtain ⟨live, -, hcase⟩ := advance_cases h
  cases hcase with
  | sleep | finish | fire => rfl

/-- All that a table can fire is of a kind if all that its entries give out is. -/
theorem Linked.carries {kind : α → Prop} (h : t.Linked)
    (hkind : ∀ id payload, t.payload? id = some payload → kind payload) : t.Carries kind where
  entries id e he := hkind id e.payload (by rw [payload?, he]; rfl)
  timers timer live hlive := by
    obtain ⟨id, e, he, -, hpayload⟩ := h.held timer live hlive
    exact hkind id live.payload (by rw [payload?, he, ← hpayload]; rfl)

/-! ## Whether the table is running -/

theorem running_arm (t : Table α) (id : EntryId) : (t.arm id).running = t.running := by
  unfold Table.arm
  split <;> rfl

theorem running_add (t : Table α) (schedule : Schedule) (payload : α) :
    (t.add schedule payload).2.running = t.running := by
  unfold Table.add
  dsimp only
  split
  · rw [running_arm]
  · rfl

theorem running_remove (t : Table α) (id : EntryId) : (t.remove id).2.running = t.running := by
  unfold Table.remove
  split <;> rfl

theorem running_advance {clock : Clock} {timer : TimerId} {fired : Option α} {t' : Table α}
    (h : t.advance clock timer = some (fired, t')) : t'.running = t.running := by
  obtain ⟨live, -, hcase⟩ := advance_cases h
  cases hcase with
  | sleep | finish | fire => rfl

theorem running_start (t : Table α) : t.start.running = true :=
  start_induction (P := fun u => u.running = true) rfl fun u id hu => (running_arm u id).trans hu

/-! ## Tables that stand still -/

/-- Where there is no timer, none can go on. -/
theorem Stopped.advance_eq_none (h : t.Stopped) (clock : Clock) (timer : TimerId) :
    t.advance clock timer = none := by
  unfold Table.advance
  rw [h.timers]
  rfl

theorem Stopped.add (h : t.Stopped) (schedule : Schedule) (payload : α) :
    (t.add schedule payload).2.Stopped := by
  have hrunning := running_add t schedule payload
  refine ⟨?_, hrunning.trans h.running⟩
  unfold Table.add
  simp only [h.running]
  exact h.timers

theorem Stopped.remove (h : t.Stopped) (id : EntryId) : (t.remove id).2.Stopped := by
  refine ⟨?_, (running_remove t id).trans h.running⟩
  unfold Table.remove
  split
  · refine Registry.eq_empty_iff.2 fun timer => ?_
    rw [get?_abort, h.timers, Registry.get?_empty, ite_self]
  · exact h.timers

theorem Stopped.clear_stop (h : t.Stopped) : t.clear.stop.Stopped := by
  refine ⟨Registry.eq_empty_iff.2 fun timer => ?_, rfl⟩
  change (abort [] (abort t.entries.values t.timers)).get? timer = none
  rw [get?_abort, get?_abort, h.timers, Registry.get?_empty, ite_self, ite_self]

end Scheduling.Cron.Table
