import Scheduling.Proofs.CronTables
/-!
# Which entry holds which timer

A timer is armed for one entry, which holds it until the entry goes or the table is stopped. So no
two entries hold the same timer, an entry of a running table has a live timer unless the timer has
found no next slot, and a timer whose entry is gone never goes on.
-/

namespace Scheduling.Cron.Table

variable {α : Type} {t t' : Table α} {id k : EntryId} {timer : TimerId}

/-! ## Entries after an operation -/

theorem get?_entries_add (t : Table α) (schedule : Schedule) (payload : α) (k : EntryId) :
    (t.add schedule payload).2.entries.get? k =
      if k = t.nextId then
        some ⟨schedule, payload, if t.running then some t.nextTimer else none⟩
      else t.entries.get? k := by
  unfold Table.add Table.arm
  dsimp only
  split
  · rw [Registry.get?_insert, if_pos rfl]
    dsimp only
    rw [Registry.get?_insert, Registry.get?_insert]
    split <;> rfl
  · exact Registry.get?_insert _ _ _ _

theorem get?_timers_add (t : Table α) (schedule : Schedule) (payload : α) (k : TimerId) :
    (t.add schedule payload).2.timers.get? k =
      if t.running = true ∧ k = t.nextTimer then some ⟨schedule, payload, none, .seeking⟩
      else t.timers.get? k := by
  unfold Table.add Table.arm
  dsimp only
  split
  · rename_i hrunning
    rw [Registry.get?_insert, if_pos rfl]
    dsimp only
    rw [Registry.get?_insert]
    simp [hrunning]
  · rename_i hrunning
    simp [hrunning]

theorem nextTimer_add (t : Table α) (schedule : Schedule) (payload : α) :
    (t.add schedule payload).2.nextTimer = if t.running then t.nextTimer + 1 else t.nextTimer := by
  unfold Table.add Table.arm
  dsimp only
  split
  · rw [Registry.get?_insert, if_pos rfl]
  · rfl

theorem get?_entries_remove (t : Table α) (id k : EntryId) :
    (t.remove id).2.entries.get? k = if k = id then none else t.entries.get? k := by
  unfold Table.remove
  split
  · exact Registry.get?_erase _ _ _
  · rename_i hnone
    split
    · rename_i hk
      rw [hk, hnone]
    · rfl

theorem get?_timers_remove (t : Table α) (id : EntryId) (k : TimerId) :
    (t.remove id).2.timers.get? k =
      if ∃ e, t.entries.get? id = some e ∧ e.timer = some k then none else t.timers.get? k := by
  unfold Table.remove
  split
  · rename_i e hentry
    simp only [get?_abort, List.mem_singleton, exists_eq_left, hentry, Option.some.injEq,
      exists_eq_left']
  · rename_i hnone
    simp [hnone]

theorem nextTimer_remove (t : Table α) (id : EntryId) :
    (t.remove id).2.nextTimer = t.nextTimer := by
  unfold Table.remove
  split <;> rfl

/-! ## Timers of entries -/

/-- An entry holds a timer. -/
def Holds (t : Table α) (id : EntryId) (timer : TimerId) : Prop :=
  ∃ e : Entry α, t.entries.get? id = some e ∧ e.timer = some timer

/-- An entry has never been armed since the table was stopped. -/
def Lacks (t : Table α) (id : EntryId) : Prop :=
  ∃ e : Entry α, t.entries.get? id = some e ∧ e.timer = none

/-- Timers are told apart: no two entries hold the same, and the next number is free. -/
structure Owned (t : Table α) : Prop where
  lt : ∀ {id : EntryId} {timer : TimerId}, t.Holds id timer → timer < t.nextTimer
  unique : ∀ {id id' : EntryId} {timer : TimerId},
    t.Holds id timer → t.Holds id' timer → id = id'

/-- The entries hold timers exactly while the table is running. -/
structure Armed (t : Table α) : Prop extends t.Owned where
  idle : t.running = false → ∀ id timer, ¬ t.Holds id timer
  ready : t.running = true → ∀ id, ¬ t.Lacks id

theorem holds_of_entries (h : t'.entries = t.entries) : t'.Holds id timer ↔ t.Holds id timer := by
  rw [Holds, h, Holds]

theorem lacks_of_entries (h : t'.entries = t.entries) : t'.Lacks id ↔ t.Lacks id := by
  rw [Lacks, h, Lacks]

/-- Nothing is held in a table without entries. -/
theorem armed_of_empty (h : t.entries = Registry.empty) : t.Armed where
  lt := by
    rintro id timer ⟨e, he, -⟩
    rw [h] at he
    cases he
  unique := by
    rintro id id' timer ⟨e, he, -⟩
    rw [h] at he
    cases he
  idle := by
    rintro - id timer ⟨e, he, -⟩
    rw [h] at he
    cases he
  ready := by
    rintro - id ⟨e, he, -⟩
    rw [h] at he
    cases he

/-! ### Arming -/

/-- An entry that is armed gets the next timer, which is live. -/
theorem holds_or_of_arm (h : (t.arm id).Holds k timer) :
    t.Holds k timer ∨ k = id ∧ timer = t.nextTimer ∧ (t.arm id).nextTimer = t.nextTimer + 1 ∧
      (t.arm id).timers.contains timer = true := by
  unfold Table.arm at h ⊢
  split at h
  · obtain ⟨e, he, htimer⟩ := h
    dsimp only at he
    rw [Registry.get?_insert] at he
    split at he
    · rename_i hk
      cases he
      cases htimer
      exact .inr ⟨hk, rfl, rfl, by simp [Registry.contains_insert]⟩
    · exact .inl ⟨e, he, htimer⟩
  · exact .inl h

theorem Holds.arm (h : t.Holds k timer) (id : EntryId) : (t.arm id).Holds k timer := by
  obtain ⟨e, he, htimer⟩ := h
  unfold Table.arm
  split
  · rename_i hentry
    have hk : k ≠ id := by
      rintro rfl
      rw [hentry] at he
      cases he
      cases htimer
    exact ⟨e, by rw [Registry.get?_insert, if_neg hk, he], htimer⟩
  · exact ⟨e, he, htimer⟩

/-- An entry that was armed lacks nothing. -/
theorem lacks_of_arm (h : (t.arm id).Lacks k) : k ≠ id ∧ t.Lacks k := by
  obtain ⟨e, he, htimer⟩ := h
  unfold Table.arm at he
  split at he
  · dsimp only at he
    rw [Registry.get?_insert] at he
    split at he
    · cases he
      cases htimer
    · rename_i hk
      exact ⟨hk, e, he, htimer⟩
  · rename_i hother
    refine ⟨?_, e, he, htimer⟩
    rintro rfl
    obtain ⟨schedule, payload, own⟩ := e
    cases htimer
    exact hother _ _ he

theorem nextTimer_le_arm (t : Table α) (id : EntryId) : t.nextTimer ≤ (t.arm id).nextTimer := by
  unfold Table.arm
  split
  · exact Nat.le_succ _
  · exact Nat.le_refl _

/-- Arming an entry leaves all other timers alone. -/
theorem get?_timers_arm (id : EntryId) (h : timer ≠ t.nextTimer) :
    (t.arm id).timers.get? timer = t.timers.get? timer := by
  unfold Table.arm
  split
  · dsimp only
    rw [Registry.get?_insert, if_neg h]
  · rfl

theorem Owned.arm (h : t.Owned) (id : EntryId) : (t.arm id).Owned where
  lt hk := by
    obtain hk | ⟨-, rfl, hnext, -⟩ := holds_or_of_arm hk
    · exact Nat.lt_of_lt_of_le (h.lt hk) (nextTimer_le_arm t id)
    · rw [hnext]
      exact Nat.lt_succ_self _
  unique hk hk' := by
    -- The next number is held by nobody yet, so an old timer is not the new one.
    obtain hk | ⟨rfl, rfl, -⟩ := holds_or_of_arm hk
    · obtain hk' | ⟨-, rfl, -⟩ := holds_or_of_arm hk'
      · exact h.unique hk hk'
      · exact absurd (h.lt hk) (Nat.lt_irrefl _)
    · obtain hk' | ⟨rfl, -, -⟩ := holds_or_of_arm hk'
      · exact absurd (h.lt hk') (Nat.lt_irrefl _)
      · rfl

theorem lacks_of_foldl_arm {ids : List EntryId} (h : (ids.foldl Table.arm t).Lacks k) :
    k ∉ ids ∧ t.Lacks k := by
  induction ids generalizing t with
  | nil => exact ⟨List.not_mem_nil, h⟩
  | cons id ids ih =>
      obtain ⟨hmem, hlacks⟩ := ih h
      obtain ⟨hne, hlacks⟩ := lacks_of_arm hlacks
      exact ⟨List.not_mem_cons_of_ne_of_not_mem hne hmem, hlacks⟩

/-! ### Operations -/

theorem holds_add {schedule : Schedule} {payload : α} :
    (t.add schedule payload).2.Holds k timer ↔
      if k = t.nextId then t.running = true ∧ timer = t.nextTimer else t.Holds k timer := by
  rw [Holds, get?_entries_add]
  split
  · cases t.running <;> simp [eq_comm]
  · rfl

theorem holds_remove : (t.remove id).2.Holds k timer ↔ k ≠ id ∧ t.Holds k timer := by
  rw [Holds, get?_entries_remove]
  by_cases hk : k = id
  · simp [hk]
  · rw [if_neg hk]
    exact (and_iff_right hk).symm

theorem not_holds_clear_stop : ¬ t.clear.stop.Holds k timer := by
  rintro ⟨e, he, -⟩
  cases he

theorem Owned.add (h : t.Owned) (schedule : Schedule) (payload : α) :
    (t.add schedule payload).2.Owned where
  lt hk := by
    rw [holds_add] at hk
    rw [nextTimer_add]
    split at hk
    · obtain ⟨hrunning, rfl⟩ := hk
      rw [if_pos hrunning]
      exact Nat.lt_succ_self _
    · have hlt := h.lt hk
      split
      · exact Nat.lt_succ_of_lt hlt
      · exact hlt
  unique hk hk' := by
    rw [holds_add] at hk hk'
    split at hk <;> split at hk'
    · exact ‹_ = _›.trans ‹_ = _›.symm
    · exact absurd hk.2 (Nat.ne_of_lt (h.lt hk'))
    · exact absurd hk'.2 (Nat.ne_of_lt (h.lt hk))
    · exact h.unique hk hk'

theorem Armed.add (h : t.Armed) (schedule : Schedule) (payload : α) :
    (t.add schedule payload).2.Armed where
  toOwned := h.toOwned.add schedule payload
  idle hstopped id timer hk := by
    rw [running_add] at hstopped
    rw [holds_add, hstopped] at hk
    split at hk
    · cases hk.1
    · exact h.idle hstopped id timer hk
  ready hrunning k := by
    rintro ⟨e, he, htimer⟩
    rw [running_add] at hrunning
    rw [get?_entries_add, hrunning] at he
    split at he
    · cases he
      cases htimer
    · exact h.ready hrunning k ⟨e, he, htimer⟩

theorem Owned.remove (h : t.Owned) (id : EntryId) : (t.remove id).2.Owned where
  lt hk := by
    rw [nextTimer_remove]
    exact h.lt (holds_remove.1 hk).2
  unique hk hk' := h.unique (holds_remove.1 hk).2 (holds_remove.1 hk').2

theorem Armed.remove (h : t.Armed) (id : EntryId) : (t.remove id).2.Armed where
  toOwned := h.toOwned.remove id
  idle hstopped k timer hk :=
    h.idle ((running_remove t id).symm.trans hstopped) k timer (holds_remove.1 hk).2
  ready hrunning k := by
    rintro ⟨e, he, htimer⟩
    rw [get?_entries_remove] at he
    split at he
    · cases he
    · exact h.ready ((running_remove t id).symm.trans hrunning) k ⟨e, he, htimer⟩

theorem Owned.start (h : t.Owned) : t.start.Owned :=
  start_induction ⟨h.lt, h.unique⟩ fun _ id hu => hu.arm id

theorem Armed.start (h : t.Armed) : t.start.Armed where
  toOwned := h.toOwned.start
  idle hstopped := by
    rw [running_start] at hstopped
    cases hstopped
  ready _ k hk := by
    obtain ⟨hmem, e, he, -⟩ := lacks_of_foldl_arm hk
    refine hmem (Registry.contains_iff_mem_keys.1 ?_)
    rw [Registry.contains, he]
    rfl

section Advance

variable {clock : Clock} {fired : Option α}

theorem entries_advance (h : t.advance clock timer = some (fired, t')) :
    t'.entries = t.entries ∧ t'.nextTimer = t.nextTimer := by
  obtain ⟨live, -, hcase⟩ := advance_cases h
  cases hcase with
  | sleep | finish | fire => exact ⟨rfl, rfl⟩

theorem Owned.advance (h : t.Owned) (hadvance : t.advance clock timer = some (fired, t')) :
    t'.Owned := by
  obtain ⟨hentries, hnext⟩ := entries_advance hadvance
  have hholds {k : EntryId} {own : TimerId} : t'.Holds k own ↔ t.Holds k own :=
    holds_of_entries hentries
  exact ⟨fun hk => hnext ▸ h.lt (hholds.1 hk),
    fun hk hk' => h.unique (hholds.1 hk) (hholds.1 hk')⟩

theorem Armed.advance (h : t.Armed) (hadvance : t.advance clock timer = some (fired, t')) :
    t'.Armed := by
  obtain ⟨hentries, -⟩ := entries_advance hadvance
  have hrunning := running_advance hadvance
  have hholds {k : EntryId} {own : TimerId} : t'.Holds k own ↔ t.Holds k own :=
    holds_of_entries hentries
  exact ⟨h.toOwned.advance hadvance,
    fun hstopped k own hk => h.idle (hrunning ▸ hstopped) k own (hholds.1 hk),
    fun hready k hk => h.ready (hrunning ▸ hready) k ((lacks_of_entries hentries).1 hk)⟩

end Advance

/-! ## Timers that have ended -/

/-- A timer has ended and is never armed again. -/
structure Retired (t : Table α) (timer : TimerId) : Prop where
  lt : timer < t.nextTimer
  ended : t.timers.get? timer = none

theorem Retired.advance_eq_none (h : t.Retired timer) (clock : Clock) :
    t.advance clock timer = none := by
  unfold Table.advance
  rw [h.ended]

theorem Retired.arm (h : t.Retired timer) (id : EntryId) : (t.arm id).Retired timer :=
  ⟨Nat.lt_of_lt_of_le h.lt (nextTimer_le_arm t id),
    (get?_timers_arm id (Nat.ne_of_lt h.lt)).trans h.ended⟩

theorem Retired.add (h : t.Retired timer) (schedule : Schedule) (payload : α) :
    (t.add schedule payload).2.Retired timer := by
  refine ⟨?_, ?_⟩
  · rw [nextTimer_add]
    split
    · exact Nat.lt_succ_of_lt h.lt
    · exact h.lt
  · rw [get?_timers_add, if_neg fun hnew => Nat.ne_of_lt h.lt hnew.2]
    exact h.ended

theorem Retired.remove (h : t.Retired timer) (id : EntryId) :
    (t.remove id).2.Retired timer := by
  refine ⟨(nextTimer_remove t id).symm ▸ h.lt, ?_⟩
  rw [get?_timers_remove, h.ended, ite_self]

theorem Retired.start (h : t.Retired timer) : t.start.Retired timer :=
  start_induction (P := fun u => u.Retired timer) ⟨h.lt, h.ended⟩ fun _ id hu => hu.arm id

theorem Retired.clear_stop (h : t.Retired timer) : t.clear.stop.Retired timer := by
  refine ⟨h.lt, ?_⟩
  cases hlive : t.clear.stop.timers.get? timer with
  | none => rfl
  | some live =>
      have hbefore : t.timers.get? timer = some live := get?_of_abort (get?_of_abort hlive)
      rw [h.ended] at hbefore
      cases hbefore

theorem Retired.advance {clock : Clock} {fired : Option α} (h : t.Retired timer)
    (hadvance : t.advance clock k = some (fired, t')) : t'.Retired timer := by
  obtain ⟨-, hnext⟩ := entries_advance hadvance
  refine ⟨hnext.symm ▸ h.lt, ?_⟩
  obtain ⟨live, hlive, hcase⟩ := advance_cases hadvance
  have hne : timer ≠ k := by
    rintro rfl
    rw [h.ended] at hlive
    cases hlive
  cases hcase with
  | sleep | fire => exact (Registry.get?_insert _ _ _ _).trans ((if_neg hne).trans h.ended)
  | finish => exact (Registry.get?_erase _ _ _).trans ((if_neg hne).trans h.ended)

/-! ### Timers that were held -/

/-- A timer that an entry held is still held by it, or it has ended. -/
def Follows (t : Table α) (id : EntryId) (timer : TimerId) : Prop :=
  t.Holds id timer ∨ t.Retired timer

theorem Follows.add (h : t.Follows id timer) (hlinked : t.Linked) (schedule : Schedule)
    (payload : α) : (t.add schedule payload).2.Follows id timer := by
  refine h.imp (fun hheld => ?_) fun hretired => hretired.add schedule payload
  have hne : id ≠ t.nextId := by
    rintro rfl
    obtain ⟨e, he, -⟩ := hheld
    rw [hlinked.fresh t.nextId (Nat.le_refl _)] at he
    cases he
  rw [holds_add, if_neg hne]
  exact hheld

theorem Follows.remove (h : t.Follows id timer) (howned : t.Owned) (k : EntryId) :
    (t.remove k).2.Follows id timer := by
  obtain hheld | hretired := h
  · by_cases hk : id = k
    · obtain ⟨e, he, htimer⟩ := hheld
      refine .inr ⟨(nextTimer_remove t k).symm ▸ howned.lt ⟨e, he, htimer⟩, ?_⟩
      rw [get?_timers_remove, if_pos ⟨e, hk ▸ he, htimer⟩]
    · exact .inl (holds_remove.2 ⟨hk, hheld⟩)
  · exact .inr (hretired.remove k)

theorem Follows.start (h : t.Follows id timer) : t.start.Follows id timer :=
  h.imp (fun hheld => start_induction (P := fun u => u.Holds id timer) hheld
    fun _ k hu => hu.arm k) Retired.start

theorem Follows.clear_stop (h : t.Follows id timer) (hlinked : t.Linked) (howned : t.Owned) :
    t.clear.stop.Follows id timer := by
  have hlt : timer < t.nextTimer := h.elim howned.lt Retired.lt
  refine .inr ⟨hlt, ?_⟩
  rw [hlinked.idle_clear_stop.timers]
  rfl

theorem Follows.advance {clock : Clock} {fired : Option α} (h : t.Follows id timer)
    (hadvance : t.advance clock k = some (fired, t')) : t'.Follows id timer :=
  h.imp (holds_of_entries (entries_advance hadvance).1).2 fun hretired =>
    hretired.advance hadvance

/-! ## Entries that wait for their next slot -/

/-- Every timer that an entry holds is live, but for some. -/
def Served (t : Table α) (spent : List TimerId) : Prop :=
  ∀ (id : EntryId) (timer : TimerId), t.Holds id timer →
    t.timers.contains timer = true ∨ timer ∈ spent

section Served

variable {spent : List TimerId}

theorem Served.arm (h : t.Served spent) (howned : t.Owned) (id : EntryId) :
    (t.arm id).Served spent := by
  intro k timer hk
  obtain hk | ⟨-, -, -, hlive⟩ := holds_or_of_arm hk
  · refine (h k timer hk).imp_left fun hlive => ?_
    rw [Registry.contains, get?_timers_arm id (Nat.ne_of_lt (howned.lt hk))]
    exact hlive
  · exact .inl hlive

theorem Served.add (h : t.Served spent) (howned : t.Owned) (schedule : Schedule) (payload : α) :
    (t.add schedule payload).2.Served spent := by
  intro k timer hk
  rw [Registry.contains, get?_timers_add]
  rw [holds_add] at hk
  split at hk
  · rw [if_pos hk]
    exact .inl rfl
  · rw [if_neg fun hnew => Nat.ne_of_lt (howned.lt hk) hnew.2]
    exact h k timer hk

theorem Served.remove (h : t.Served spent) (howned : t.Owned) (id : EntryId) :
    (t.remove id).2.Served spent := by
  intro k timer hk
  obtain ⟨hne, hk⟩ := holds_remove.1 hk
  have hother : ¬ ∃ e, t.entries.get? id = some e ∧ e.timer = some timer :=
    fun hother => hne (howned.unique hk hother)
  rw [Registry.contains, get?_timers_remove, if_neg hother]
  exact h k timer hk

theorem Served.start (h : t.Served spent) (howned : t.Owned) : t.start.Served spent :=
  (start_induction (P := fun u => u.Served spent ∧ u.Owned) ⟨h, howned.lt, howned.unique⟩
    fun _ id hu => ⟨hu.1.arm hu.2 id, hu.2.arm id⟩).1

theorem served_clear_stop : t.clear.stop.Served spent :=
  fun _ _ hk => absurd hk not_holds_clear_stop

/-- Whether a timer looks for its next slot and there is none. -/
def exhausts (t : Table α) (clock : Clock) (timer : TimerId) : Bool :=
  match t.timers.get? timer with
  | none => false
  | some live =>
    live.point == .seeking &&
      match live.schedule.nextSlot t.zone.zone live.lastFired clock.wall with
      | .at _ => false
      | _ => true

/-- Only a timer that finds no next slot ends by itself. -/
theorem Served.advance {clock : Clock} {fired : Option α} (h : t.Served spent)
    (hadvance : t.advance clock k = some (fired, t')) :
    t'.Served (spent ++ if t.exhausts clock k then [k] else []) := by
  intro id timer hk
  have hk := (holds_of_entries (entries_advance hadvance).1).1 hk
  obtain ⟨live, hlive, hcase⟩ := advance_cases hadvance
  have hinsert (live' : Timer α) (hcontains : t.timers.contains timer = true) :
      (t.timers.insert k live').contains timer = true := by
    rw [Registry.contains_insert, hcontains, Bool.or_true]
  obtain hcontains | hover := h id timer hk
  · cases hcase with
    | sleep | fire => exact .inl (hinsert _ hcontains)
    | finish hpoint hnone =>
        by_cases hne : timer = k
        · have hexhausts : t.exhausts clock k = true := by
            unfold exhausts
            rw [hlive]
            dsimp only
            rw [hpoint]
            split
            · exact absurd ‹_› (hnone _)
            · rfl
          exact .inr (by simp [hexhausts, hne])
        · exact .inl (by rw [Registry.contains_erase, hcontains]; simp [hne])
  · exact .inr (List.mem_append_left _ hover)

end Served

end Scheduling.Cron.Table
