import Scheduling.Settings
import Scheduling.Proofs.PrintedValues
/-!
# Settings kept as documents

Policies and settings are read back from their documents with each duration cut to what a document
holds of it, and nothing else is lost. A timeout below one millisecond is admissible but is kept as
zero, which is not: such settings are the only admissible ones that cannot be loaded again.
-/

namespace Scheduling

/-! ## Durations -/

namespace Duration

/-- What is left of a span in a document: its whole milliseconds, as far as 64 bits hold them. -/
def stored (d : Duration) : Duration := ofMillis (min (d.nanos / 1000000) (UInt64.size - 1))

/-- A span of whole milliseconds that 64 bits hold. -/
def Whole (d : Duration) : Prop := ∃ n < UInt64.size, d = ofMillis n

theorem stored_eq (d : Duration) : d.stored = ofMillis d.storedMillis := rfl

theorem storedMillis_ofMillis (n : Nat) : (ofMillis n).storedMillis = min n maxMillis := by
  rw [storedMillis, millis_ofMillis]

theorem storedMillis_stored (d : Duration) : d.stored.storedMillis = d.storedMillis := by
  rw [stored_eq, storedMillis_ofMillis]
  exact Nat.min_eq_left (Nat.min_le_right _ _)

theorem stored_of_whole {d : Duration} (h : d.Whole) : d.stored = d := by
  obtain ⟨n, hn, rfl⟩ := h
  have hle : n ≤ maxMillis := Nat.le_pred_of_lt hn
  rw [stored_eq, storedMillis_ofMillis, Nat.min_eq_left hle]

theorem stored_eq_zero_iff {d : Duration} : d.stored = zero ↔ d.nanos < 1000000 := by
  have hpos : 0 < UInt64.size - 1 := by decide
  simp only [stored, ofMillis, zero, mk.injEq]
  omega

theorem reads_json (d : Duration) : Json.Reads Duration.read d.json d.stored :=
  (Json.reads_nat .long (Nat.le_refl _) (Nat.min_le_right _ _)).map ofMillis

theorem clear_json (d : Duration) (rest : List Char) :
    Clear Json.opensNull (d.json.print ++ rest) := Json.clear_printed_nat d.storedMillis rest

end Duration

/-! ## Documents that keep a value -/

/-- A document keeps a value up to what is left of its durations: the value is read back with these,
one of whole milliseconds comes back as it was, and the document of what comes back is the same. -/
structure Keeps {α : Type} (json : α → Json) (parse : String → Except String α)
    (mapDurations : (Duration → Duration) → α → α) (durations : α → List Duration) (a : α) :
    Prop where
  read : parse (json a).text = .ok (mapDurations .stored a)
  whole : (∀ d ∈ durations a, d.Whole) → parse (json a).text = .ok a
  again : (parse (json a).text).map (fun b => (json b).text) = .ok (json a).text

theorem keeps_of_reads {α : Type} {json : α → Json} {read : Json.Reader α}
    {mapDurations : (Duration → Duration) → α → α} {durations : α → List Duration} {a : α}
    (hread : Json.Reads read (json a) (mapDurations .stored a))
    (hjson : json (mapDurations .stored a) = json a)
    (heq : (∀ d ∈ durations a, d.stored = d) → mapDurations .stored a = a) :
    Keeps json (Json.readAll read) mapDurations durations a where
  read := Json.readAll_text hread
  whole hwhole := by
    have hsame := heq fun d hd => Duration.stored_of_whole (hwhole d hd)
    rw [Json.readAll_text hread, hsame]
  again := by
    rw [Json.readAll_text hread, Except.map, hjson]

/-! ## Retry policies -/

namespace RetryPolicy

/-- The number of attempts is one of its type. -/
def Fits (p : RetryPolicy) : Prop := p.attempts ≤ Json.Width.short.greatest

/-- The policy with its duration changed. -/
def mapDurations (f : Duration → Duration) (p : RetryPolicy) : RetryPolicy :=
  { p with delay := f p.delay }

def durations (p : RetryPolicy) : List Duration := [p.delay]

variable {p : RetryPolicy}

theorem mapDurations_eq {f : Duration → Duration} (h : ∀ d ∈ p.durations, f d = d) :
    p.mapDurations f = p := by
  rw [mapDurations, h p.delay List.mem_cons_self]

theorem json_mapDurations_stored (p : RetryPolicy) : (p.mapDurations .stored).json = p.json := by
  simp only [json, mapDurations, Duration.json, Duration.storedMillis_stored]

theorem reads_json (h : p.Fits) : Json.Reads RetryPolicy.read p.json (p.mapDurations .stored) := by
  have hattempts : schema.Fills ⟨0, .zero⟩ [("attempts", .integer p.attempts)]
      ⟨p.attempts, .zero⟩ :=
    .single rfl ((Json.reads_nat .short (by decide) h).map (mk · .zero))
  have hdelay : schema.Fills ⟨p.attempts, .zero⟩ [("delay_ms", p.delay.json)]
      (p.mapDurations .stored) :=
    .single rfl ((Duration.reads_json p.delay).map (mk p.attempts))
  have hnames : ["attempts", "delay_ms"].Nodup := by decide
  refine Json.Schema.reads_object (hattempts.append hdelay) hnames fun slot hslot _ => ?_
  exact List.mem_map_of_mem (f := Json.Slot.name) hslot

end RetryPolicy

/-! ## Policies of an executor -/

namespace Json.Schema

variable {α β : Type} {m : Schema α} {name : String} {a : α} {slot : Slot α}

/-- An optional member fills its field if it is there. -/
theorem fills_optional {read : Reader β} {json : β → Json} {f : β → β} {value : Option β}
    (set : Option β → α) (hslot : m.slots.find? (·.name == name) = some slot)
    (hset : ∀ s, slot.read (set none) s = (readOption read s).map fun (b, rest) => (set b, rest))
    (hread : ∀ b, value = some b → Reads read (json b) (f b))
    (hclear : ∀ b rest, Clear opensNull ((json b).print ++ rest)) :
    m.Fills (set none) (ExecutorOptions.optionalMember name json value) (set (value.map f)) := by
  cases value with
  | none => exact Fills.none (set none)
  | some b =>
      refine Fills.single hslot ?_
      rw [funext hset]
      exact (reads_some (hread b rfl) (hclear b)).map set

theorem names_optional (name : String) (json : β → Json) (value : Option β) :
    ((ExecutorOptions.optionalMember name json value).map Prod.fst).Sublist [name] := by
  cases value with
  | none => exact List.nil_sublist _
  | some b => exact List.Sublist.refl _

end Json.Schema

namespace ExecutorOptions

def Fits (o : ExecutorOptions) : Prop := ∀ p, o.retry = some p → p.Fits

/-- The policies with their durations changed. -/
def mapDurations (f : Duration → Duration) (o : ExecutorOptions) : ExecutorOptions where
  timeout := o.timeout.map f
  retry := o.retry.map (·.mapDurations f)
  cooldown := o.cooldown.map f
  once := o.once

def durations (o : ExecutorOptions) : List Duration :=
  o.timeout.toList ++ o.retry.toList.flatMap (·.durations) ++ o.cooldown.toList

variable {o : ExecutorOptions}

theorem map_eq_self {α : Type} {f : α → α} {value : Option α} (h : ∀ a, value = some a → f a = a) :
    value.map f = value := by
  cases value with
  | none => rfl
  | some a => rw [Option.map_some, h a rfl]

theorem mapDurations_eq {f : Duration → Duration} (h : ∀ d ∈ o.durations, f d = d) :
    o.mapDurations f = o := by
  simp only [durations, List.mem_append, List.mem_flatMap, Option.mem_toList] at h
  have htimeout : o.timeout.map f = o.timeout := map_eq_self fun d hd => h d (.inl (.inl hd))
  have hretry : o.retry.map (·.mapDurations f) = o.retry := map_eq_self fun p hp =>
    RetryPolicy.mapDurations_eq fun d hd => h d (.inl (.inr ⟨p, hp, hd⟩))
  have hcooldown : o.cooldown.map f = o.cooldown := map_eq_self fun d hd => h d (.inr hd)
  rw [mapDurations, htimeout, hretry, hcooldown]

theorem optionalMember_map {α : Type} {json : α → Json} {f : α → α} (name : String)
    (h : ∀ a, json (f a) = json a) (value : Option α) :
    optionalMember name json (value.map f) = optionalMember name json value := by
  cases value with
  | none => rfl
  | some a => simp only [optionalMember, Option.map_some, h]

theorem json_mapDurations_stored (o : ExecutorOptions) :
    (o.mapDurations .stored).json = o.json := by
  have hduration (d : Duration) : d.stored.json = d.json := by
    rw [Duration.json, Duration.json, Duration.storedMillis_stored]
  simp only [json, mapDurations, optionalMember_map _ hduration,
    optionalMember_map _ RetryPolicy.json_mapDurations_stored]

theorem reads_json (h : o.Fits) :
    Json.Reads ExecutorOptions.read o.json (o.mapDurations .stored) := by
  have htimeout : schema.Fills {} (optionalMember "timeout_ms" Duration.json o.timeout)
      { timeout := o.timeout.map .stored } :=
    Json.Schema.fills_optional (fun d => ({ timeout := d } : ExecutorOptions)) rfl (fun _ => rfl)
      (fun d _ => d.reads_json) Duration.clear_json
  have hretry : schema.Fills { timeout := o.timeout.map .stored }
      (optionalMember "retry" RetryPolicy.json o.retry)
      { timeout := o.timeout.map .stored, retry := o.retry.map (·.mapDurations .stored) } :=
    Json.Schema.fills_optional
      (fun p => ({ timeout := o.timeout.map .stored, retry := p } : ExecutorOptions)) rfl
      (fun _ => rfl)
      (fun p hp => RetryPolicy.reads_json (h p hp)) fun p => Json.Schema.clear_printed_object _
  have hcooldown : schema.Fills
      { timeout := o.timeout.map .stored, retry := o.retry.map (·.mapDurations .stored) }
      (optionalMember "cooldown_ms" Duration.json o.cooldown)
      { o.mapDurations .stored with once := false } :=
    Json.Schema.fills_optional
      (fun d => { o.mapDurations .stored with cooldown := d, once := false }) rfl
      (fun _ => rfl) (fun d _ => d.reads_json) Duration.clear_json
  have honce : schema.Fills { o.mapDurations .stored with once := false } [("once", .bool o.once)]
      (o.mapDurations .stored) :=
    .single rfl ((Json.reads_bool o.once).map fun b => { o.mapDurations .stored with once := b })
  refine Json.Schema.reads_object (((htimeout.append hretry).append hcooldown).append honce) ?_ ?_
  · have hnames : ["timeout_ms", "retry", "cooldown_ms", "once"].Nodup := by decide
    simp only [List.map_append]
    exact hnames.sublist ((((Json.Schema.names_optional _ _ _).append
      (Json.Schema.names_optional _ _ _)).append (Json.Schema.names_optional _ _ _)).append
        (List.Sublist.refl _))
  · intro slot hslot hrequired
    simp only [schema, List.mem_cons, List.not_mem_nil, or_false] at hslot
    obtain rfl | rfl | rfl | rfl := hslot <;> cases hrequired

end ExecutorOptions

/-! ## Settings -/

namespace Settings

/-- The numbers are of their types. -/
def Fits (s : Settings) : Prop :=
  s.maxConcurrency ≤ Json.Width.count.greatest ∧ s.defaultExecutor.Fits

/-- The settings with their durations changed. -/
def mapDurations (f : Duration → Duration) (s : Settings) : Settings :=
  { s with defaultExecutor := s.defaultExecutor.mapDurations f }

def durations (s : Settings) : List Duration := s.defaultExecutor.durations

variable {s : Settings}

theorem mapDurations_eq {f : Duration → Duration} (h : ∀ d ∈ s.durations, f d = d) :
    s.mapDurations f = s := by
  rw [mapDurations, ExecutorOptions.mapDurations_eq h]

theorem json_mapDurations_stored (s : Settings) : (s.mapDurations .stored).json = s.json := by
  simp only [json, mapDurations, ExecutorOptions.json_mapDurations_stored]

theorem reads_json (h : s.Fits) : Json.Reads Settings.read s.json (s.mapDurations .stored) := by
  have hcount : schema.Fills standard [("max_concurrency", .integer s.maxConcurrency)]
      ⟨s.maxConcurrency, none, {}⟩ :=
    .single rfl ((Json.reads_nat .count (Nat.le_refl _) h.1).map
      (mk · none {}))
  have hzone : schema.Fills ⟨s.maxConcurrency, none, {}⟩
      (ExecutorOptions.optionalMember "timezone" .string s.timezone)
      ⟨s.maxConcurrency, s.timezone.map id, {}⟩ :=
    Json.Schema.fills_optional (mk s.maxConcurrency · {}) rfl (fun _ => rfl)
      (fun name _ => Json.reads_text "a string" name) fun name rest => by
        rw [Json.print, Json.quote_append]
        exact clear_cons.2 rfl
  rw [Option.map_id_fun, id_eq] at hzone
  have hexecutor : schema.Fills ⟨s.maxConcurrency, s.timezone, {}⟩
      [("default_executor", s.defaultExecutor.json)] (s.mapDurations .stored) :=
    .single rfl ((ExecutorOptions.reads_json h.2).map (mk s.maxConcurrency s.timezone))
  refine Json.Schema.reads_object ((hcount.append hzone).append hexecutor) ?_ ?_
  · have hnames : ["max_concurrency", "timezone", "default_executor"].Nodup := by decide
    simp only [List.map_append]
    exact hnames.sublist (((List.Sublist.refl _).append
      (Json.Schema.names_optional _ _ _)).append (List.Sublist.refl _))
  · intro slot hslot hrequired
    simp only [schema, List.mem_cons, List.not_mem_nil, or_false] at hslot
    obtain rfl | rfl | rfl := hslot <;> cases hrequired

/-! ## Reading back -/

/-- Retry policies, policies and settings are kept by their documents, whatever their durations, the
values that they leave out and the name of the zone. -/
theorem documents_keep :
    (∀ p : RetryPolicy, p.Fits → Keeps RetryPolicy.json RetryPolicy.parse
      RetryPolicy.mapDurations RetryPolicy.durations p) ∧
      (∀ o : ExecutorOptions, o.Fits → Keeps ExecutorOptions.json ExecutorOptions.parse
        ExecutorOptions.mapDurations ExecutorOptions.durations o) ∧
      ∀ s : Settings, s.Fits → Keeps json parse mapDurations durations s :=
  ⟨fun p h => keeps_of_reads (RetryPolicy.reads_json h) p.json_mapDurations_stored
      RetryPolicy.mapDurations_eq,
    fun o h => keeps_of_reads (ExecutorOptions.reads_json h) o.json_mapDurations_stored
      ExecutorOptions.mapDurations_eq,
    fun s h => keeps_of_reads (reads_json h) s.json_mapDurations_stored mapDurations_eq⟩

/-- A timeout of more milliseconds than 64 bits hold, the most attempts, a delay of one nanosecond,
and a zone whose name has to be escaped. -/
theorem documents_keep_extremes :
    let o : ExecutorOptions :=
      ⟨some (.ofSeconds (UInt64.size - 1) 999999999), some ⟨UInt32.size - 1, ⟨1⟩⟩,
        some (.ofMillis 5), true⟩
    let s : Settings := ⟨3, some "\"\\\n\x01\x7f/é", o⟩
    s.Fits ∧ parse s.json.text = .ok { s with
      defaultExecutor :=
        ⟨some (.ofMillis (UInt64.size - 1)), some ⟨UInt32.size - 1, .zero⟩, some (.ofMillis 5),
          true⟩ } := by
  intro o s
  have hfits : s.Fits := ⟨by decide, fun p hp => by
    obtain rfl := Option.some.inj hp
    exact Nat.le_refl _⟩
  exact ⟨hfits, (documents_keep.2.2 s hfits).read⟩

/-! ## Loading -/

end Settings

/-- The one value that a document can spoil is a timeout below one millisecond, which becomes
zero. -/
theorem ExecutorOptions.validate_mapDurations_stored {o : ExecutorOptions}
    (h : o.validate = .ok ()) :
    (o.mapDurations .stored).validate =
      if ∀ d, o.timeout = some d → 1000000 ≤ d.nanos then .ok ()
      else .error (.invalidArgument "timeout must be greater than 0") := by
  have hretry : (o.mapDurations .stored).retry.any (·.attempts == 0) = false := by
    have hany : (o.mapDurations .stored).retry.any (·.attempts == 0) =
        o.retry.any (·.attempts == 0) := by
      rw [mapDurations, Option.any_map]
      rfl
    rw [hany]
    unfold validate at h
    split_ifs at h with _ hzero
    exact Bool.eq_false_iff.2 hzero
  have htimeout : (o.mapDurations .stored).timeout = some .zero ↔
      ¬ ∀ d, o.timeout = some d → 1000000 ≤ d.nanos := by
    simp only [mapDurations, Option.map_eq_some_iff, Duration.stored_eq_zero_iff,
      Classical.not_forall, Nat.not_le, exists_prop]
  rw [validate, hretry]
  simp only [htimeout, ite_not, Bool.false_eq_true, if_false]

namespace Settings

variable {s : Settings}

/-- Whether there is a zone of a name does not depend on the offsets in the database. -/
theorem exists_zone_of_zone_eq_ok {zone : ZoneChoice} (h : s.zone = .ok zone)
    (database : Zone.Database) : ∃ zone, s.zone database = .ok zone := by
  unfold Settings.zone at h ⊢
  generalize s.timezone = name? at h ⊢
  cases name? with
  | none => exact ⟨.localTime, rfl⟩
  | some name =>
      simp only [ZoneChoice.parse, ZoneChoice.ofName?] at h ⊢
      split_ifs at h ⊢
      · exact ⟨.localTime, rfl⟩
      · exact ⟨.named name (database name), rfl⟩

/-- Settings that pass the checks have a zone in every database, and then only their policies are
left to check. -/
theorem validate_of_ok (h : s.validate = .ok ()) : s.maxConcurrency ≠ 0 ∧
    s.defaultExecutor.validate = .ok () ∧ ∀ database, ∃ zone, s.zone database = .ok zone := by
  unfold validate at h
  by_cases hcount : s.maxConcurrency = 0
  · rw [if_pos hcount] at h
    cases h
  · rw [if_neg hcount] at h
    cases hzone : s.zone with
    | error e =>
        rw [hzone] at h
        cases h
    | ok zone =>
        rw [hzone] at h
        cases hpolicies : s.defaultExecutor.validate with
        | error e =>
            rw [hpolicies] at h
            cases h
        | ok => exact ⟨hcount, rfl, exists_zone_of_zone_eq_ok hzone⟩

theorem validate_eq {zone : ZoneChoice} (hcount : s.maxConcurrency ≠ 0)
    (hzone : s.zone = .ok zone) :
    s.validate = s.defaultExecutor.validate.mapError .badPolicies := by
  rw [validate, if_neg hcount, hzone]
  rfl

theorem ofSettings_eq {zone : ZoneChoice} {database : Zone.Database} (hvalid : s.validate = .ok ())
    (hzone : s.zone database = .ok zone) : Scheduler.ofSettings s database =
      .ok (Scheduler.create s.maxConcurrency zone s.defaultExecutor) := by
  obtain ⟨hcount, hpolicies, -⟩ := validate_of_ok hvalid
  simp only [Scheduler.ofSettings, Blueprint.ofSettings, hvalid, hzone, bind, Except.bind,
    Except.mapError, pure, Except.pure, Blueprint.build, hpolicies, if_neg hcount]

/-- Admissible settings stay so in a document, unless their timeout is spoiled. -/
theorem validate_mapDurations_stored (h : s.validate = .ok ()) :
    (s.mapDurations .stored).validate =
      if ∀ d, s.defaultExecutor.timeout = some d → 1000000 ≤ d.nanos then .ok ()
      else .error (.badPolicies (.invalidArgument "timeout must be greater than 0")) := by
  obtain ⟨hcount, hpolicies, hzones⟩ := validate_of_ok h
  obtain ⟨zone, hzone⟩ := hzones Zone.recorded
  have hstored : (s.mapDurations .stored).validate =
      (s.defaultExecutor.mapDurations .stored).validate.mapError .badPolicies :=
    validate_eq (s := s.mapDurations .stored) hcount hzone
  rw [hstored, ExecutorOptions.validate_mapDurations_stored hpolicies]
  split_ifs <;> rfl

theorem load_json_text (h : s.Fits) : load s.json.text =
    (s.mapDurations .stored).validate.map fun _ => s.mapDurations .stored := by
  have hparse : parse s.json.text = .ok (s.mapDurations .stored) := Json.readAll_text (reads_json h)
  rw [load, hparse]
  simp only [Except.mapError, bind, Except.bind]
  cases (s.mapDurations .stored).validate <;> rfl

/-- Admissible settings can be loaded from their own document exactly when their timeout, if they
have one, is not below one millisecond. What is loaded then are the settings up to what a document
holds of the durations, and with any time-zone database they make the scheduler with the same bound,
the same zone and these policies. -/
theorem load_saved_iff (hfits : s.Fits) (hvalid : s.validate = .ok ()) :
    ((∃ loaded, load s.json.text = .ok loaded) ↔
      ∀ d, s.defaultExecutor.timeout = some d → 1000000 ≤ d.nanos) ∧
      (∀ refusal, load s.json.text = .error refusal →
        refusal = .badPolicies (.invalidArgument "timeout must be greater than 0")) ∧
      ∀ database, ∃ zone, s.zone database = .ok zone ∧ ∀ loaded, load s.json.text = .ok loaded →
        loaded = s.mapDurations .stored ∧
          Scheduler.ofSettings loaded database = .ok
            (Scheduler.create s.maxConcurrency zone (s.defaultExecutor.mapDurations .stored)) := by
  obtain ⟨-, -, hzones⟩ := validate_of_ok hvalid
  have hstored := validate_mapDurations_stored hvalid
  rw [load_json_text hfits]
  split_ifs at hstored with hlong
  · rw [hstored]
    refine ⟨⟨fun _ => hlong, fun _ => ⟨_, rfl⟩⟩, fun refusal h => ?_, fun database =>
      (hzones database).imp fun zone hzone => ⟨hzone, fun loaded h => ?_⟩⟩
    · cases h
    · cases h
      exact ⟨rfl, ofSettings_eq hstored hzone⟩
  · rw [hstored]
    refine ⟨⟨fun h => ?_, fun h => absurd h hlong⟩, fun refusal h => ?_, fun database =>
      (hzones database).imp fun zone hzone => ⟨hzone, fun loaded h => ?_⟩⟩
    · obtain ⟨loaded, h⟩ := h
      cases h
    · cases h
      rfl
    · cases h

/-- A timeout that is just long enough, with durations that a document cuts. -/
theorem load_saved_iff_shortTimeout :
    let s : Settings := ⟨4, some "UTC", ⟨some ⟨1000001⟩, some ⟨1, ⟨999999⟩⟩, some ⟨7⟩, false⟩⟩
    s.Fits ∧ s.validate = .ok () ∧ (∃ loaded, load s.json.text = .ok loaded) ∧
      ∃ zone, s.zone = .ok zone ∧ ∀ loaded, load s.json.text = .ok loaded →
        loaded.defaultExecutor = ⟨some (.ofMillis 1), some ⟨1, .zero⟩, some .zero, false⟩ ∧
          loaded.timezone = some "UTC" := by
  intro s
  have hfits : s.Fits := ⟨by decide, fun p hp => by
    obtain rfl := Option.some.inj hp
    exact Nat.succ_le_succ (Nat.zero_le _)⟩
  have hvalid : s.validate = .ok () := by
    have hcheck : s.validate.toBool = true := by decide +kernel
    cases h : s.validate with
    | error e =>
        rw [h] at hcheck
        cases hcheck
    | ok => rfl
  obtain ⟨hloads, -, hscheduler⟩ := load_saved_iff hfits hvalid
  obtain ⟨zone, hzone, hloaded⟩ := hscheduler Zone.recorded
  refine ⟨hfits, hvalid, hloads.2 fun d hd => ?_, zone, hzone, fun loaded h => ?_⟩
  · obtain rfl := Option.some.inj hd
    decide
  · rw [(hloaded loaded h).1]
    exact ⟨rfl, rfl⟩

/-- With a timeout of half a millisecond admissible settings cannot be loaded again. -/
theorem not_loads_saved_halfMilli :
    let s : Settings := ⟨1, none, { timeout := some ⟨500000⟩ }⟩
    s.Fits ∧ s.validate = .ok () ∧ load s.json.text =
      .error (.badPolicies (.invalidArgument "timeout must be greater than 0")) := by
  intro s
  have hfits : s.Fits := ⟨by decide, fun p hp => by cases hp⟩
  refine ⟨hfits, rfl, ?_⟩
  rw [load_json_text hfits]
  rfl

end Settings

end Scheduling
