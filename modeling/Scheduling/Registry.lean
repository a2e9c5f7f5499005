/-!
# Registries

A registry gives each of its keys one value and lists the keys in the order in which they were
first registered. Main statements: `get?_insert`, `get?_erase`, `get?_modify` and
`contains_iff_mem_keys`.
-/

namespace Scheduling

/-- Values under keys that are all different, in order of first registration. -/
structure Registry (κ α : Type) where
  entries : List (κ × α)
  nodup_keys : (entries.map Prod.fst).Nodup

namespace Registry

variable {κ α : Type} [DecidableEq κ]

/-- No key has a value. -/
def empty : Registry κ α := ⟨[], List.nodup_nil⟩

instance : Inhabited (Registry κ α) := ⟨empty⟩

def keys (r : Registry κ α) : List κ := r.entries.map Prod.fst

def values (r : Registry κ α) : List α := r.entries.map Prod.snd

def size (r : Registry κ α) : Nat := r.entries.length

def isEmpty (r : Registry κ α) : Bool := r.entries.isEmpty

/-- The value of the first entry with a key. -/
def find (k : κ) : List (κ × α) → Option α
  | [] => none
  | e :: es => if e.1 = k then some e.2 else find k es

def get? (r : Registry κ α) (k : κ) : Option α := find k r.entries

/-- Whether a key has a value. -/
def contains (r : Registry κ α) (k : κ) : Bool := (r.get? k).isSome

theorem find_eq_none_iff {es : List (κ × α)} {k : κ} :
    find k es = none ↔ k ∉ es.map Prod.fst := by
  induction es with
  | nil => simp [find]
  | cons e es ih =>
    by_cases h : e.1 = k
    · simp [find, h]
    · simp only [find, h, ↓reduceIte, ih, List.map_cons, List.mem_cons, not_or]
      exact ⟨fun h' => ⟨fun hk => h hk.symm, h'⟩, fun h' => h'.2⟩

theorem find_append (k : κ) (es fs : List (κ × α)) :
    find k (es ++ fs) = (find k es).or (find k fs) := by
  induction es with
  | nil => rfl
  | cons e es ih =>
    by_cases h : e.1 = k <;> simp [find, h, ih]

/-- Entries with the value of one key changed. -/
def modifyEntry (k : κ) (f : α → α) (e : κ × α) : κ × α :=
  if e.1 = k then (e.1, f e.2) else e

theorem map_fst_modifyEntry (k : κ) (f : α → α) (es : List (κ × α)) :
    (es.map (modifyEntry k f)).map Prod.fst = es.map Prod.fst := by
  rw [List.map_map]
  refine List.map_congr_left fun e _ => ?_
  unfold modifyEntry
  simp only [Function.comp_apply]
  split <;> rfl

/-- Changes the value of a key, if it has one. -/
def modify (r : Registry κ α) (k : κ) (f : α → α) : Registry κ α where
  entries := r.entries.map (modifyEntry k f)
  nodup_keys := by
    rw [map_fst_modifyEntry]
    exact r.nodup_keys

/-- Takes a key and its value away. -/
def erase (r : Registry κ α) (k : κ) : Registry κ α where
  entries := r.entries.filter (·.1 ≠ k)
  nodup_keys := r.nodup_keys.sublist (List.filter_sublist.map _)

/-- Gives a key a value; a key that has one already keeps its place. -/
def insert (r : Registry κ α) (k : κ) (v : α) : Registry κ α :=
  if h : find k r.entries = none then
    { entries := r.entries ++ [(k, v)]
      nodup_keys := by
        rw [List.map_append]
        refine List.nodup_append.2 ⟨r.nodup_keys, by simp, ?_⟩
        intro a ha b hb hab
        simp only [List.map_cons, List.map_nil, List.mem_singleton] at hb
        exact find_eq_none_iff.1 h (hb ▸ hab ▸ ha) }
  else r.modify k (fun _ => v)

theorem get?_modify (r : Registry κ α) (k k' : κ) (f : α → α) :
    (r.modify k f).get? k' = if k' = k then (r.get? k').map f else r.get? k' := by
  unfold get? modify
  dsimp only
  generalize r.entries = es
  induction es with
  | nil => simp [find]
  | cons e es ih =>
    simp only [List.map_cons, find, modifyEntry]
    by_cases h1 : e.1 = k
    · by_cases h2 : k' = k
      · simp [h1, h2]
      · have h3 : ¬ e.1 = k' := fun h => h2 (h ▸ h1)
        have h4 : ¬ k = k' := fun h => h2 h.symm
        simp [h1, h2, h4, ih]
    · by_cases h2 : e.1 = k'
      · have h3 : ¬ k' = k := fun h => h1 (h2 ▸ h)
        simp [h2, h3]
      · simp [h1, h2, ih]

theorem get?_erase (r : Registry κ α) (k k' : κ) :
    (r.erase k).get? k' = if k' = k then none else r.get? k' := by
  unfold get? erase
  dsimp only
  generalize r.entries = es
  induction es with
  | nil => simp [find]
  | cons e es ih =>
    by_cases h1 : e.1 = k
    · rw [List.filter_cons_of_neg (by simpa using h1), ih]
      by_cases h2 : k' = k
      · simp [h2]
      · have h3 : ¬ e.1 = k' := fun h => h2 (h ▸ h1)
        simp [h2, find, h3]
    · rw [List.filter_cons_of_pos (by simpa using h1)]
      by_cases h2 : e.1 = k'
      · have h3 : ¬ k' = k := fun h => h1 (h2 ▸ h)
        simp [find, h2, h3]
      · simpa [find, h2] using ih

theorem get?_insert (r : Registry κ α) (k k' : κ) (v : α) :
    (r.insert k v).get? k' = if k' = k then some v else r.get? k' := by
  unfold insert
  split
  · rename_i h
    unfold get?
    dsimp only
    rw [find_append]
    by_cases hk : k' = k
    · subst hk
      simp [h, find]
    · have h' : ¬ k = k' := fun e => hk e.symm
      simp [hk, find, h']
  · rename_i h
    rw [get?_modify]
    by_cases hk : k' = k
    · subst hk
      obtain ⟨x, hx⟩ := Option.ne_none_iff_exists'.1 h
      simp [get?, hx]
    · simp [hk]

theorem find_eq_some_iff {es : List (κ × α)} (h : (es.map Prod.fst).Nodup) {k : κ} {v : α} :
    find k es = some v ↔ (k, v) ∈ es := by
  induction es with
  | nil => simp [find]
  | cons e es ih =>
    obtain ⟨hnot, hnodup⟩ := List.nodup_cons.1 h
    by_cases he : e.1 = k
    · subst he
      have hrest : (e.1, v) ∉ es := fun hmem => hnot (List.mem_map.2 ⟨_, hmem, rfl⟩)
      simp only [find, ↓reduceIte, Option.some.injEq, List.mem_cons, hrest, or_false]
      exact ⟨fun hv => hv ▸ rfl, fun hv => (congrArg Prod.snd hv).symm⟩
    · have hne : (k, v) ≠ e := fun heq => he (heq ▸ rfl)
      simp only [find, he, ↓reduceIte, ih hnodup, List.mem_cons, hne, false_or]

theorem get?_eq_some_iff {r : Registry κ α} {k : κ} {v : α} :
    r.get? k = some v ↔ (k, v) ∈ r.entries :=
  find_eq_some_iff r.nodup_keys

theorem mem_values_iff {r : Registry κ α} {v : α} : v ∈ r.values ↔ ∃ k, r.get? k = some v := by
  simp only [get?_eq_some_iff, values, List.mem_map, Prod.exists, exists_eq_right]

theorem contains_iff_mem_keys {r : Registry κ α} {k : κ} :
    r.contains k = true ↔ k ∈ r.keys := by
  unfold contains get? keys
  rw [Option.isSome_iff_ne_none, Ne, find_eq_none_iff, Classical.not_not]

theorem contains_insert (r : Registry κ α) (k k' : κ) (v : α) :
    (r.insert k v).contains k' = (decide (k' = k) || r.contains k') := by
  unfold contains
  rw [get?_insert]
  split <;> simp_all

theorem contains_erase (r : Registry κ α) (k k' : κ) :
    (r.erase k).contains k' = (decide (k' ≠ k) && r.contains k') := by
  unfold contains
  rw [get?_erase]
  split <;> simp_all

@[simp] theorem get?_empty (k : κ) : (empty : Registry κ α).get? k = none := rfl

theorem eq_empty_iff {r : Registry κ α} : r = empty ↔ ∀ k, r.get? k = none := by
  constructor
  · rintro rfl
    exact get?_empty
  · intro h
    obtain ⟨entries, nodup⟩ := r
    cases entries with
    | nil => rfl
    | cons e es =>
      have he := h e.1
      simp [get?, find] at he

omit [DecidableEq κ] in
theorem size_eq_zero_iff {r : Registry κ α} : r.size = 0 ↔ r = empty := by
  obtain ⟨entries, nodup⟩ := r
  simp [size, empty]

end Registry

end Scheduling
