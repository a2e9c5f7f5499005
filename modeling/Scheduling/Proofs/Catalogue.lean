import Mathlib.Data.List.Nodup
import Scheduling.Proofs.Stores
import Scheduling.Proofs.Timers
/-!
# Which key has which cron entry

The keys that are scheduled and the entries of the cron table belong together, one for one, whatever
is added, removed, started or stopped. So a plan that is registered takes the place of the entry of
its key and of no other.
-/

namespace Scheduling

namespace Scheduler

variable {y z : System} {a : Step} {i : SchedulerId} {s s' : Scheduler} {key k : String} {p : Plan}
  {id : Cron.EntryId}

/-- Every key that is known has an entry, made for a plan with that key. -/
def Listed (s : Scheduler) : Prop :=
  ∀ (key : String) (id : Cron.EntryId), s.cronIds.get? key = some id →
    ∃ p : Plan, s.cron.payload? id = some p ∧ p.key = key

/-- Keys and cron entries belong together, one for one. -/
structure Catalogued (s : Scheduler) : Prop where
  linked : s.cron.Linked
  indexed : s.Indexed
  listed : s.Listed

theorem Listed.injective (h : s.Listed) (hkey : s.cronIds.get? key = some id)
    (hk : s.cronIds.get? k = some id) : key = k := by
  obtain ⟨p, hp, rfl⟩ := h key id hkey
  obtain ⟨q, hq, rfl⟩ := h k id hk
  rw [hp] at hq
  cases hq
  rfl

/-- The next number is not known for any key. -/
theorem Catalogued.ne_nextId (h : s.Catalogued) (hkey : s.cronIds.get? key = some id) :
    id ≠ s.cron.nextId := by
  rintro rfl
  obtain ⟨p, hp, -⟩ := h.listed key _ hkey
  rw [Cron.Table.payload?, h.linked.fresh _ (Nat.le_refl _)] at hp
  cases hp

/-- The entries of the table are those of the keys. -/
theorem Catalogued.contains_iff (h : s.Catalogued) :
    s.cron.entries.contains id = true ↔ ∃ key, s.cronIds.get? key = some id := by
  rw [Registry.contains, Option.isSome_iff_exists]
  constructor
  · rintro ⟨e, he⟩
    exact ⟨e.payload.key, h.indexed id e.payload (by rw [Cron.Table.payload?, he]; rfl)⟩
  · rintro ⟨key, hkey⟩
    obtain ⟨p, hp, -⟩ := h.listed key id hkey
    obtain ⟨e, he, -⟩ := Option.map_eq_some_iff.1 hp
    exact ⟨e, he⟩

/-- There are as many keys as entries. -/
theorem Catalogued.scheduled_eq (h : s.Catalogued) : s.scheduled = s.cron.size := by
  have hvalues : s.cronIds.values.Nodup := by
    refine List.Nodup.map_on (fun x hx y hy hxy => ?_) s.cronIds.nodup_keys.of_map
    have hkey : x.1 = y.1 :=
      h.listed.injective (Registry.get?_eq_some_iff.2 hx)
        (Registry.get?_eq_some_iff.2 (by rw [hxy]; exact hy))
    exact Prod.ext hkey hxy
  have hperm : s.cronIds.values.Perm s.cron.entries.keys := by
    refine (List.perm_ext_iff_of_nodup hvalues s.cron.entries.nodup_keys).2 fun id => ?_
    rw [Registry.mem_values_iff]
    exact h.contains_iff.symm.trans Registry.contains_iff_mem_keys
  have hlength := hperm.length_eq
  simp only [Registry.values, Registry.keys, List.length_map] at hlength
  exact hlength

/-! ## Registering a plan -/

section Register

variable {expression : String} {schedule : Cron.Schedule}

theorem cronIds_register (hschedule : p.schedule = some expression)
    (hparse : Cron.Schedule.parse expression = .ok schedule) :
    (s.register p).cronIds = s.cronIds.insert p.key s.cron.nextId := by
  have hadd : (s.cron.add schedule p).1 = s.cron.nextId := rfl
  simp only [register, hschedule, hparse, hadd]

theorem get?_entries_register (hschedule : p.schedule = some expression)
    (hparse : Cron.Schedule.parse expression = .ok schedule) (id : Cron.EntryId) :
    (s.register p).cron.entries.get? id =
      if s.cronIds.get? p.key = some id then none
      else if id = s.cron.nextId then
        some ⟨schedule, p, if s.cron.running then some s.cron.nextTimer else none⟩
      else s.cron.entries.get? id := by
  simp only [register, hschedule, hparse]
  cases hprevious : s.cronIds.get? p.key with
  | none => simp only [Cron.Table.get?_entries_add, reduceCtorEq, if_false]
  | some previous =>
      have hcomm : id = previous ↔ previous = id := eq_comm
      simp only [Cron.Table.get?_entries_remove, Cron.Table.get?_entries_add, Option.some.injEq,
        hcomm]

theorem queue_register (hschedule : p.schedule = some expression)
    (hparse : Cron.Schedule.parse expression = .ok schedule) :
    (s.register p).queue = s.queue := by
  simp only [register, hschedule, hparse]

end Register

/-- The cron entry of a key. -/
def entryOf? (s : Scheduler) (key : String) : Option (Cron.Entry Plan) :=
  (s.cronIds.get? key).bind s.cron.entries.get?

/-- A plan whose schedule can be read becomes the entry of its key; all other entries stay. -/
theorem Catalogued.entryOf?_register {expression : String} {schedule : Cron.Schedule}
    (h : s.Catalogued) (hschedule : p.schedule = some expression)
    (hparse : Cron.Schedule.parse expression = .ok schedule) (key : String) :
    (s.register p).entryOf? key =
      if key = p.key then
        some ⟨schedule, p, if s.cron.running then some s.cron.nextTimer else none⟩
      else s.entryOf? key := by
  unfold entryOf?
  rw [cronIds_register hschedule hparse, Registry.get?_insert]
  split
  · have hnew : s.cronIds.get? p.key ≠ some s.cron.nextId := fun hid => h.ne_nextId hid rfl
    rw [Option.bind_some, get?_entries_register hschedule hparse, if_neg hnew, if_pos rfl]
  · rename_i hkey
    cases hid : s.cronIds.get? key with
    | none => rfl
    | some id =>
        have hother : s.cronIds.get? p.key ≠ some id :=
          fun hprevious => hkey (h.listed.injective hid hprevious)
        simp only [Option.bind_some, get?_entries_register hschedule hparse, if_neg hother,
          if_neg (h.ne_nextId hid)]

/-- What the entry of a key gives out. -/
theorem payload?_of_entryOf? {e : Cron.Entry Plan} (hkey : s.cronIds.get? key = some id)
    (he : s.entryOf? key = some e) : s.cron.payload? id = some e.payload := by
  rw [entryOf?, hkey, Option.bind_some] at he
  rw [Cron.Table.payload?, he, Option.map_some]

theorem Listed.entryOf? (h : s.Listed) (hkey : s.cronIds.get? key = some id) :
    ∃ e : Cron.Entry Plan, s.entryOf? key = some e ∧ e.payload.key = key := by
  obtain ⟨p, hp, rfl⟩ := h key id hkey
  obtain ⟨e, he, rfl⟩ := Option.map_eq_some_iff.1 hp
  exact ⟨e, by rw [Scheduler.entryOf?, hkey, Option.bind_some, he], rfl⟩

theorem linked_register (h : s.cron.Linked) (p : Plan) : (s.register p).cron.Linked :=
  cron_register (fun _ schedule hadd => hadd.add schedule p) (fun _ id hremove => hremove.remove id)
    h

theorem Catalogued.register (h : s.Catalogued) (p : Plan) : (s.register p).Catalogued := by
  refine ⟨linked_register h.linked p, h.indexed.register p, ?_⟩
  cases hschedule : p.schedule with
  | none =>
      have hsame : s.register p = { s with queue := s.queue.push [p] } := by
        simp only [Scheduler.register, hschedule]
      rw [hsame]
      exact h.listed
  | some expression =>
      cases hparse : Cron.Schedule.parse expression with
      | error e =>
          have hsame : s.register p = s := by simp only [Scheduler.register, hschedule, hparse]
          rw [hsame]
          exact h.listed
      | ok schedule =>
          intro key id hkey
          have hentry := h.entryOf?_register hschedule hparse key
          have hids := hkey
          rw [cronIds_register hschedule hparse, Registry.get?_insert] at hids
          split at hids
          · rename_i heq
            rw [if_pos heq] at hentry
            exact ⟨p, payload?_of_entryOf? hkey hentry, heq.symm⟩
          · rename_i hne
            obtain ⟨e, he, hpayload⟩ := h.listed.entryOf? hids
            rw [if_neg hne, he] at hentry
            exact ⟨e.payload, payload?_of_entryOf? hkey hentry, hpayload⟩

theorem Catalogued.foldl_register (h : s.Catalogued) (plans : List Plan) :
    (plans.foldl Scheduler.register s).Catalogued :=
  List.foldlRecOn plans Scheduler.register h fun _ h p _ => h.register p

/-! ## All changes -/

/-- A key that is taken off the schedule loses its entry, and no other key does. -/
theorem Listed.unschedule (h : s.Listed) (key : String) : (s.unschedule key).Listed := by
  unfold Scheduler.unschedule
  split
  · rename_i id hid
    intro k other hk
    dsimp only at hk ⊢
    rw [Registry.get?_erase] at hk
    split at hk
    · cases hk
    · rename_i hne
      have hother : other ≠ id := fun heq => hne (h.injective (heq ▸ hk) hid)
      rw [Cron.Table.payload?_remove, if_neg hother]
      exact h k other hk
  · exact h

theorem Registration.listed (h : s.Registration y a i s') (hs : s.Catalogued) : s'.Listed := by
  cases h with
  | idle | unsupervise => exact hs.listed
  | add _ hadd =>
      rw [eq_foldl_of_add hadd]
      exact (hs.foldl_register _).listed
  | remove => exact hs.listed.unschedule _
  | timer _ hadvance =>
      obtain ⟨fired, cron, hfired, rfl⟩ := advanceTimer_cases hadvance
      intro key id hkey
      obtain ⟨p, hp, hpkey⟩ := hs.listed key id hkey
      exact ⟨p, (Cron.Table.payload?_advance hfired id).trans hp, hpkey⟩

theorem Change.listed (h : s.Change y z a i s') (hs : s.Catalogued) : s'.Listed := by
  obtain hreg | ⟨hcron, hids⟩ | ⟨-, hids⟩ | ⟨-, -, rfl⟩ := h.catalogue_cases
  · exact hreg.listed hs
  · unfold Listed
    rw [hcron, hids]
    exact hs.listed
  · intro key id hkey
    rw [hids] at hkey
    cases hkey
  · intro key id hkey
    obtain ⟨p, hp, hpkey⟩ := hs.listed key id hkey
    exact ⟨p, (Cron.Table.payload?_start _ _).trans hp, hpkey⟩

end Scheduler

namespace System

variable {allowed : System → Step → Bool} {y : System} {i : SchedulerId} {s : Scheduler}

/-- The keys and the cron entries of a scheduler belong together in all runs. -/
theorem ReachableBy.catalogued (h : y.ReachableBy allowed) (hs : y.schedulers[i]? = some s) :
    s.Catalogued := by
  refine ⟨h.linked hs, h.indexed hs, ?_⟩
  induction h generalizing s with
  | create origin => simp [System.create] at hs
  | step h _ hz ih =>
      obtain ⟨s₀, hs₀, hchange⟩ | ⟨_, -, hb⟩ := change_of_step hz hs
      · exact hchange.listed ⟨h.linked hs₀, h.indexed hs₀, ih hs₀⟩
      · rw [eq_create_of_build hb]
        intro key id hkey
        cases hkey

end System

end Scheduling
