import Mathlib.Data.List.Basic
import Scheduling.Proofs.Causes
/-!
# Deadlines in context trees

Timeouts are given to contexts when they are made. The deadline of a context is the earliest end of
these timeouts at or above it, although only a context with a timeout of its own may have a timer:
as long as a context with a deadline is not done, some context at or above it waits for just that
instant. What was not cancelled is therefore done once its deadline has passed and no timer is left
to go off.
-/

namespace Scheduling.ContextTree

/-- Contexts are made and cancelled, and none expires. `ends` tells for the number of each new
context when its own timeout ends, if it has one, and only contexts in `cut` are cancelled. -/
inductive Develops (ends : ContextId → Option Instant) (cut : ContextId → Prop) (t : ContextTree) :
    ContextTree → Prop
  | refl : Develops ends cut t t
  | background {u : ContextTree} (h : Develops ends cut t u) (hends : ends u.nodes.size = none) :
      Develops ends cut t u.background.2
  | child {u : ContextTree} (h : Develops ends cut t u) (hends : ends u.nodes.size = none)
      (parent : ContextId) : Develops ends cut t (u.child parent).2
  | childUntil {u : ContextTree} {expiry : Instant} (h : Develops ends cut t u)
      (hends : ends u.nodes.size = some expiry) (parent : ContextId) :
      Develops ends cut t (u.childUntil parent expiry).2
  | cancel {u : ContextTree} {c : ContextId} (h : Develops ends cut t u) (hc : cut c) :
      Develops ends cut t (u.cancel c)
  | cancelSilently {u : ContextTree} {c : ContextId} (h : Develops ends cut t u) (hc : cut c) :
      Develops ends cut t (u.cancelSilently c)

variable {ends : ContextId → Option Instant} {cut cancelled : ContextId → Prop} {now : Instant}
  {t u v : ContextTree} {c : ContextId}

theorem Develops.trans (h : Develops ends cut t u) (h' : Develops ends cut u v) :
    Develops ends cut t v := by
  induction h' with
  | refl => exact h
  | background _ hends ih => exact ih.background hends
  | child _ hends parent ih => exact ih.child hends parent
  | childUntil _ hends parent ih => exact ih.childUntil hends parent
  | cancel _ hc ih => exact ih.cancel hc
  | cancelSilently _ hc ih => exact ih.cancelSilently hc

theorem Develops.grows (h : Develops ends cut t u) : t.Grows u := by
  induction h with
  | refl => exact .refl t
  | background _ _ ih => exact ih.trans (grows_background _)
  | child _ _ parent ih => exact ih.trans (grows_child _ parent)
  | childUntil _ _ parent ih => exact ih.trans (grows_childUntil _ parent _)
  | @cancel _ c _ _ ih => exact ih.trans (grows_cancel _ c)
  | @cancelSilently _ c _ _ ih => exact ih.trans (grows_cancelSilently _ c)

/-- Only the timeouts of the contexts that are made matter. -/
theorem Develops.congr {ends' : ContextId → Option Instant} (h : Develops ends cut t u)
    (hends : ∀ c, t.nodes.size ≤ c → c < u.nodes.size → ends' c = ends c) :
    Develops ends' cut t u := by
  have hpushed {u v : ContextTree} {node : Context} (hnodes : v.nodes = u.nodes.push node) :
      u.nodes.size < v.nodes.size := by
    rw [hnodes, Array.size_push]
    exact Nat.lt_succ_self _
  induction h with
  | refl => exact .refl
  | @background u h hnone ih =>
      have hlt : u.nodes.size < u.background.2.nodes.size := hpushed rfl
      refine (ih fun c hle hc => hends c hle (Nat.lt_trans hc hlt)).background ?_
      rw [hends _ h.grows.size_le hlt, hnone]
  | @child u h hnone parent ih =>
      have hlt : u.nodes.size < (u.child parent).2.nodes.size := hpushed rfl
      refine (ih fun c hle hc => hends c hle (Nat.lt_trans hc hlt)).child ?_ parent
      rw [hends _ h.grows.size_le hlt, hnone]
  | @childUntil u expiry h hsome parent ih =>
      have hlt : u.nodes.size < (u.childUntil parent expiry).2.nodes.size := hpushed rfl
      refine (ih fun c hle hc => hends c hle (Nat.lt_trans hc hlt)).childUntil ?_ parent
      rw [hends _ h.grows.size_le hlt, hsome]
  | cancel _ hd ih =>
      refine (ih fun c hle hc => hends c hle ?_).cancel hd
      exact Nat.lt_of_lt_of_le hc (grows_cancel _ _).size_le
  | cancelSilently _ hd ih =>
      refine (ih fun c hle hc => hends c hle ?_).cancelSilently hd
      exact Nat.lt_of_lt_of_le hc (grows_cancelSilently _ _).size_le

/-! ## Lineages -/

/-- A context is among those at or above it, which are there, and those above them are among
them. -/
structure Nested (t : ContextTree) : Prop where
  made : ∀ c, ∀ a ∈ t.lineage c, a < t.nodes.size
  self : ∀ c, c < t.nodes.size → c ∈ t.lineage c
  above : ∀ c, ∀ a ∈ t.lineage c, ∀ b ∈ t.lineage a, b ∈ t.lineage c

namespace Nested

theorem empty : ContextTree.empty.Nested where
  made c a ha := by cases ha
  self c hc := by cases hc
  above c a ha := by cases ha

theorem of_lineage_eq (h : t.Nested) (hlineage : u.lineage = t.lineage)
    (hsize : u.nodes.size = t.nodes.size) : u.Nested where
  made c a ha := by
    rw [hlineage] at ha
    exact hsize ▸ h.made c a ha
  self c hc := by
    rw [hlineage]
    exact h.self c (hsize ▸ hc)
  above c a ha b hb := by
    rw [hlineage] at ha hb ⊢
    exact h.above c a ha b hb

theorem adds (h : t.Nested) {parent : Option ContextId} (hadds : t.Adds u (t.upward parent)) :
    u.Nested where
  made c a ha := by
    rw [hadds.size]
    by_cases hc : c = t.nodes.size
    · rw [hc, hadds.new] at ha
      obtain rfl | ha := List.mem_cons.1 ha
      · exact Nat.lt_succ_self _
      · obtain ⟨p, -, ha⟩ := exists_of_mem_upward ha
        exact Nat.lt_succ_of_lt (h.made p a ha)
    · rw [hadds.old c hc] at ha
      exact Nat.lt_succ_of_lt (h.made c a ha)
  self c hc := by
    rw [hadds.size] at hc
    by_cases heq : c = t.nodes.size
    · rw [heq, hadds.new]
      exact List.mem_cons_self
    · rw [hadds.old c heq]
      exact h.self c (Nat.lt_of_le_of_ne (Nat.le_of_lt_succ hc) heq)
  above c a ha b hb := by
    have hold {p : ContextId} (ha : a ∈ t.lineage p) : b ∈ t.lineage a := by
      rwa [hadds.old a (Nat.ne_of_lt (h.made p a ha))] at hb
    by_cases hc : c = t.nodes.size
    · rw [hc, hadds.new] at ha ⊢
      obtain rfl | ha := List.mem_cons.1 ha
      · rwa [hadds.new] at hb
      · obtain ⟨p, rfl, ha⟩ := exists_of_mem_upward ha
        exact List.mem_cons_of_mem _ (h.above p a ha b (hold ha))
    · rw [hadds.old c hc] at ha ⊢
      exact h.above c a ha b (hold ha)

/-- What is not done has nothing that is done above it. -/
theorem isDone_eq_false (h : t.Nested) {a : ContextId} (ha : a ∈ t.lineage c)
    (hc : t.isDone c = false) : t.isDone a = false := by
  refine List.any_eq_false.2 fun b hb => ?_
  exact List.any_eq_false.1 hc b (h.above c a ha b hb)

end Nested

/-! ## What a tree shows of the timeouts -/

/-- A tree at an instant, when it is known which timeouts its contexts were given and which contexts
were cancelled. -/
structure Timed (ends : ContextId → Option Instant) (cancelled : ContextId → Prop) (now : Instant)
    (t : ContextTree) : Prop extends t.Nested where
  deadline : ∀ c, t.deadline c = ((t.lineage c).filterMap ends).min?
  /-- A timer is dropped when its context is done. -/
  live : ∀ c ∈ t.timers, c < t.nodes.size ∧ t.isDone c = false
  /-- A context that is not done has a timer for its deadline at or above it. -/
  waits : ∀ c d, t.isDone c = false → t.deadline c = some d →
    ∃ a ∈ t.lineage c, a ∈ t.timers ∧ t.deadline a = some d
  hit : ∀ c, t.isHit c = true →
    cancelled c ∨ t.cause c = some .deadlineExceeded ∧ ∃ d, t.deadline c = some d ∧ d ≤ now
  cause : ∀ c err, t.cause c = some err →
    t.isHit c = true ∧ (err = .deadlineExceeded ∨ cancelled c)

namespace Timed

theorem empty (ends : ContextId → Option Instant) (cancelled : ContextId → Prop)
    (now : Instant) : Timed ends cancelled now ContextTree.empty where
  toNested := .empty
  deadline c := rfl
  live c hc := by cases hc
  waits c d _ hd := by cases hd
  hit c hc := by cases hc
  cause c err h := by cases h

/-- Time goes on, more contexts are cancelled, and timeouts are given to contexts that are not there
yet. -/
theorem mono {ends' : ContextId → Option Instant} {cancelled' : ContextId → Prop} {now' : Instant}
    (h : Timed ends cancelled now t) (hends : ∀ c < t.nodes.size, ends' c = ends c)
    (hcancelled : ∀ c, cancelled c → cancelled' c) (hnow : now ≤ now') :
    Timed ends' cancelled' now' t where
  toNested := h.toNested
  deadline c := by
    rw [h.deadline c, List.filterMap_congr fun a ha => hends a (h.made c a ha)]
  live := h.live
  waits := h.waits
  hit c hc := by
    obtain hcancel | ⟨hcause, d, hd, hle⟩ := h.hit c hc
    · exact .inl (hcancelled c hcancel)
    · exact .inr ⟨hcause, d, hd, Nat.le_trans hle hnow⟩
  cause c err herr := (h.cause c err herr).imp_right (·.imp_right (hcancelled c))

/-! ### New contexts -/

/-- A context is added that is not hit, with the deadline that its timeout and its parent give it.
It gets a timer if it is not done and its parent does not have the same deadline. -/
theorem push (h : Timed ends cancelled now t) (parent : Option ContextId) {expiry : Option Instant}
    (hnodes : u.nodes = t.nodes.push ⟨t.nodes.size :: t.upward parent, expiry, false, none⟩)
    (hexpiry : expiry = ((t.nodes.size :: t.upward parent).filterMap ends).min?)
    (hkept : ∀ c ∈ t.timers, c ∈ u.timers)
    (hlive : ∀ c ∈ u.timers, c ∈ t.timers ∨
      c = t.nodes.size ∧ (t.upward parent).any t.isHit = false)
    (hwaits : ∀ d, (t.upward parent).any t.isHit = false → expiry = some d →
      t.nodes.size ∈ u.timers ∨ ∃ p, parent = some p ∧ t.deadline p = some d) :
    Timed ends cancelled now u := by
  have hadds := adds_of_nodes_eq_push hnodes
  have hdeadline {a : ContextId} (ha : a ≠ t.nodes.size) : u.deadline a = t.deadline a := by
    rw [ContextTree.deadline, get?, hnodes, Array.getElem?_push, if_neg ha]
    rfl
  have hnew : u.deadline t.nodes.size = expiry := by
    rw [ContextTree.deadline, get?, hnodes, Array.getElem?_push_size]
    rfl
  constructor
  case toNested => exact h.toNested.adds hadds
  case deadline =>
    intro c
    by_cases hc : c = t.nodes.size
    · rw [hc, hnew, hadds.new, hexpiry]
    · rw [hdeadline hc, hadds.old c hc, h.deadline]
  case live =>
    intro c hc
    obtain hc | ⟨rfl, hparent⟩ := hlive c hc
    · obtain ⟨hlt, hc⟩ := h.live c hc
      rw [hadds.size, hadds.isDone_old (Nat.ne_of_lt hlt)]
      exact ⟨Nat.lt_succ_of_lt hlt, hc⟩
    · rw [hadds.size, hadds.isDone_new]
      exact ⟨Nat.lt_succ_self _, hparent⟩
  case waits =>
    intro c d hnot hd
    have hused {p a : ContextId} (ha : a ∈ t.lineage p) (hmem : a ∈ t.timers)
        (had : t.deadline a = some d) : a ∈ u.timers ∧ u.deadline a = some d :=
      ⟨hkept a hmem, by rw [hdeadline (Nat.ne_of_lt (h.made p a ha)), had]⟩
    by_cases hc : c = t.nodes.size
    · subst hc
      rw [hadds.isDone_new] at hnot
      rw [hnew] at hd
      rw [hadds.new]
      obtain hmem | ⟨p, rfl, hp⟩ := hwaits d hnot hd
      · exact ⟨_, List.mem_cons_self, hmem, hnew.trans hd⟩
      · obtain ⟨a, ha, hmem, had⟩ := h.waits p d hnot hp
        exact ⟨a, List.mem_cons_of_mem _ ha, hused ha hmem had⟩
    · rw [hadds.isDone_old hc] at hnot
      rw [hdeadline hc] at hd
      rw [hadds.old c hc]
      obtain ⟨a, ha, hmem, had⟩ := h.waits c d hnot hd
      exact ⟨a, ha, hused ha hmem had⟩
  case hit =>
    intro c hc
    rw [hadds.isHit] at hc
    have hne : c ≠ t.nodes.size := by
      rintro rfl
      rw [isHit_size] at hc
      cases hc
    rw [hadds.cause, hdeadline hne]
    exact h.hit c hc
  case cause =>
    intro c err herr
    rw [hadds.cause] at herr
    rw [hadds.isHit]
    exact h.cause c err herr

theorem background (h : Timed ends cancelled now t) (hends : ends t.nodes.size = none) :
    Timed ends cancelled now t.background.2 := by
  refine h.push none rfl ?_ (fun _ hc => hc) (fun _ hc => .inl hc) fun d _ hd => ?_
  · rw [upward, Option.map_none, Option.getD_none, List.filterMap_cons_none hends]
    rfl
  · cases hd

theorem child (h : Timed ends cancelled now t) (hends : ends t.nodes.size = none)
    (parent : ContextId) : Timed ends cancelled now (t.child parent).2 := by
  refine h.push (some parent) rfl ?_ (fun _ hc => hc) (fun _ hc => .inl hc) fun d _ hd => ?_
  · rw [List.filterMap_cons_none hends]
    exact h.deadline parent
  · exact .inr ⟨parent, rfl, hd⟩

theorem childUntil {expiry : Instant} (h : Timed ends cancelled now t)
    (hends : ends t.nodes.size = some expiry) (parent : ContextId) :
    Timed ends cancelled now (t.childUntil parent expiry).2 := by
  have hmem (c : ContextId) : c ∈ (t.childUntil parent expiry).2.timers ↔
      c ∈ t.timers ∨ c = t.nodes.size ∧ t.isDone parent = false := by
    rw [ContextTree.childUntil]
    cases t.isDone parent <;> simp
  refine h.push (some parent) rfl ?_ (fun c hc => (hmem c).2 (.inl hc)) (fun c hc => (hmem c).1 hc)
    fun d hnot _ => .inl ((hmem _).2 (.inr ⟨rfl, hnot⟩))
  have hparent : t.deadline parent = ((t.upward (some parent)).filterMap ends).min? :=
    h.deadline parent
  rw [List.filterMap_cons_some hends, List.min?_cons, ← hparent]
  cases t.deadline parent with
  | none => rfl
  | some d => exact congrArg some (Nat.min_comm d expiry)

/-! ### Hits -/

/-- A context is hit. The timers of what is done then are dropped; a cause may be recorded. -/
theorem modify (h : Timed ends cancelled now t) (hgrows : t.Grows u)
    (hlineage : u.lineage = t.lineage) (hdeadline : u.deadline = t.deadline)
    (hsize : u.nodes.size = t.nodes.size)
    (htimers : ∀ c, c ∈ u.timers ↔ c ∈ t.timers ∧ u.isDone c = false)
    (hhit : ∀ c, u.isHit c = true → t.isHit c = true ∨ cancelled c ∨
      u.cause c = some .deadlineExceeded ∧ ∃ d, t.deadline c = some d ∧ d ≤ now)
    (hkept : ∀ c err, t.cause c = some err → u.cause c = some err)
    (hcause : ∀ c err, u.cause c = some err → t.cause c = some err ∨
      u.isHit c = true ∧ (err = .deadlineExceeded ∨ cancelled c)) :
    Timed ends cancelled now u := by
  have hnested := h.toNested.of_lineage_eq hlineage hsize
  constructor
  case toNested => exact hnested
  case deadline =>
    intro c
    rw [hdeadline, hlineage, h.deadline]
  case live =>
    intro c hc
    obtain ⟨hmem, hdone⟩ := (htimers c).1 hc
    exact ⟨hsize ▸ (h.live c hmem).1, hdone⟩
  case waits =>
    intro c d hnot hd
    have hbefore : t.isDone c = false := Bool.eq_false_iff.2 fun hdone => by
      rw [hgrows.isDone hdone] at hnot
      cases hnot
    rw [hdeadline] at hd
    obtain ⟨a, ha, hmem, had⟩ := h.waits c d hbefore hd
    rw [← hlineage] at ha
    rw [hdeadline]
    exact ⟨a, ha, (htimers a).2 ⟨hmem, hnested.isDone_eq_false ha hnot⟩, had⟩
  case hit =>
    intro c hc
    rw [hdeadline]
    obtain hold | hnew := hhit c hc
    · exact (h.hit c hold).imp_right (·.imp_left (hkept c _))
    · exact hnew
  case cause =>
    intro c err herr
    obtain hold | hnew := hcause c err herr
    · exact (h.cause c err hold).imp_left hgrows.isHit
    · exact hnew

end Timed

/-! ### What a hit records -/

/-- Only the context that is hit counts as hit anew. -/
theorem isHit_of_nodes_eq_modify {f : Context → Context} {d : ContextId}
    (hnodes : u.nodes = t.nodes.modify d f) (h : u.isHit c = true) :
    t.isHit c = true ∨ c = d ∧ d < t.nodes.size := by
  rw [isHit, get?, hnodes, Array.getElem?_modify] at h
  split at h
  · rename_i heq
    obtain ⟨later, hlater, -⟩ := (Option.any_eq_true _ _).1 h
    obtain ⟨node, hnode, -⟩ := Option.map_eq_some_iff.1 hlater
    exact .inr ⟨heq.symm, heq ▸ (Array.getElem?_eq_some_iff.1 hnode).1⟩
  · exact .inl h

theorem isHit_cancelSilently (hc : c < t.nodes.size) : (t.cancelSilently c).isHit c = true := by
  have hnodes : (t.cancelSilently c).nodes = t.nodes.modify c fun n => { n with hit := true } := rfl
  rw [isHit, get?, hnodes, Array.getElem?_modify, if_pos rfl, Array.getElem?_eq_getElem hc]
  rfl

theorem deadline_of_nodes_eq_modify {f : Context → Context} {d : ContextId}
    (hnodes : u.nodes = t.nodes.modify d f) (hf : ∀ node, (f node).deadline = node.deadline) :
    u.deadline = t.deadline := by
  funext c
  rw [deadline, get?, hnodes, Array.getElem?_modify]
  split
  · rw [Option.bind_map]
    exact Option.bind_congr fun node _ => hf node
  · rfl

theorem mem_timers_prune (t : ContextTree) (c : ContextId) :
    c ∈ t.prune.timers ↔ c ∈ t.timers ∧ t.prune.isDone c = false := by
  rw [prune, List.mem_filter, Bool.not_eq_true']
  rfl

/-- A cause is the one of before, or was recorded just now for a context that was not done. -/
theorem cause_hitWith_cases {d : ContextId} {err err' : Error}
    (h : (t.hitWith d err).cause c = some err') :
    t.cause c = some err' ∨ c = d ∧ err' = err ∧ d < t.nodes.size ∧ t.isDone d = false := by
  rw [cause, get?, nodes_hitWith, Array.getElem?_modify] at h
  split at h
  · rename_i heq
    subst heq
    obtain ⟨later, hlater, hcause⟩ := Option.bind_eq_some_iff.1 h
    obtain ⟨node, hnode, rfl⟩ := Option.map_eq_some_iff.1 hlater
    dsimp only at hcause
    split at hcause
    · rename_i hnew
      cases hcause
      rw [Bool.and_eq_true, Bool.not_eq_true'] at hnew
      exact .inr ⟨rfl, rfl, (Array.getElem?_eq_some_iff.1 hnode).1, hnew.2⟩
    · exact .inl (Option.bind_eq_some_iff.2 ⟨node, hnode, hcause⟩)
  · exact .inl h

theorem cause_hitWith_of_some {d : ContextId} {err err' : Error} (h : t.cause c = some err') :
    (t.hitWith d err).cause c = some err' := by
  obtain ⟨node, hnode, hcause⟩ := Option.bind_eq_some_iff.1 h
  rw [get?] at hnode
  rw [cause, get?, nodes_hitWith, Array.getElem?_modify]
  split
  · simp [hnode, hcause]
  · simp [hnode, hcause]

theorem cause_hitWith_self {err : Error} (hc : c < t.nodes.size) (hdone : t.isDone c = false)
    (hcause : t.cause c = none) : (t.hitWith c err).cause c = some err := by
  have hnode := Array.getElem?_eq_getElem hc
  rw [cause, get?, hnode, Option.bind_some] at hcause
  rw [cause, get?, nodes_hitWith, Array.getElem?_modify, if_pos rfl, hnode]
  simp [hcause, hdone]

namespace Timed

theorem isHit_eq_false (h : Timed ends cancelled now t) (hc : c < t.nodes.size)
    (hdone : t.isDone c = false) : t.isHit c = false :=
  Bool.eq_false_iff.2 (List.any_eq_false.1 hdone c (h.self c hc))

theorem hitWith (h : Timed ends cancelled now t) (d : ContextId) {err : Error}
    (herr : err.isContextError = true)
    (hhit : d < t.nodes.size → t.isHit d = false →
      cancelled d ∨ err = .deadlineExceeded ∧ t.isDone d = false ∧
        ∃ i, t.deadline d = some i ∧ i ≤ now) :
    Timed ends cancelled now (t.hitWith d err) := by
  refine h.modify (grows_hitWith t d herr) (lineage_hitWith t d err)
    (deadline_of_nodes_eq_modify (nodes_hitWith t d err) fun _ => rfl) Array.size_modify
    (mem_timers_prune _) (fun c hc => ?_) (fun c err' => cause_hitWith_of_some)
    fun c err' hcause => ?_
  · obtain hold | ⟨rfl, hlt⟩ := isHit_of_nodes_eq_modify (nodes_hitWith t d err) hc
    · exact .inl hold
    · cases hold : t.isHit c with
      | true => exact .inl rfl
      | false =>
          refine .inr ((hhit hlt hold).imp_right fun hlate => ?_)
          obtain ⟨rfl, hdone, hi⟩ := hlate
          have hnone : t.cause c = none := Option.eq_none_iff_forall_ne_some.2 fun err hcause => by
            rw [(h.cause c err hcause).1] at hold
            cases hold
          exact ⟨cause_hitWith_self hlt hdone hnone, hi⟩
  · obtain hold | ⟨rfl, rfl, hd, hdone⟩ := cause_hitWith_cases hcause
    · exact .inl hold
    · refine .inr ⟨?_, ?_⟩
      · rw [isHit_hitWith hd, decide_eq_true rfl, Bool.true_or]
      · exact (hhit hd (h.isHit_eq_false hd hdone)).symm.imp_left (·.1)

/-- A context is cancelled that counts as cancelled from now on, unless it was hit before. -/
theorem cancel (h : Timed ends cancelled now t) (d : ContextId)
    (hd : d < t.nodes.size → t.isHit d = false → cancelled d) :
    Timed ends cancelled now (t.cancel d) :=
  h.hitWith d rfl fun hlt hhit => .inl (hd hlt hhit)

/-- A timer that goes off is due, and its context is not done. -/
theorem expire (h : Timed ends cancelled now t) {d : ContextId} (hdue : t.isDue now d = true) :
    Timed ends cancelled now (t.expire d) := by
  obtain ⟨hmem, hi⟩ := Bool.and_eq_true_iff.1 hdue
  obtain ⟨i, hi, hle⟩ := (Option.any_eq_true _ _).1 hi
  obtain ⟨-, hdone⟩ := h.live d (by simpa using hmem)
  exact h.hitWith d rfl fun _ _ => .inr ⟨rfl, hdone, i, hi, by simpa using hle⟩

theorem cancelSilently (h : Timed ends cancelled now t) (d : ContextId)
    (hd : d < t.nodes.size → t.isHit d = false → cancelled d) :
    Timed ends cancelled now (t.cancelSilently d) := by
  have hnodes : (t.cancelSilently d).nodes = t.nodes.modify d fun n => { n with hit := true } := rfl
  have hcause : (t.cancelSilently d).cause = t.cause := by
    funext c
    rw [ContextTree.cause, get?, hnodes, Array.getElem?_modify]
    split
    · rw [Option.bind_map]
      rfl
    · rfl
  have hlineage : (t.cancelSilently d).lineage = t.lineage := by
    funext c
    rw [lineage, get?, hnodes, Array.getElem?_modify]
    split
    · rw [Option.map_map]
      rfl
    · rfl
  refine h.modify (grows_cancelSilently t d) hlineage
    (deadline_of_nodes_eq_modify hnodes fun _ => rfl) Array.size_modify (mem_timers_prune _)
    (fun c hc => ?_) (fun c err herr => hcause ▸ herr) fun c err herr => .inl (hcause ▸ herr)
  obtain hold | ⟨rfl, hlt⟩ := isHit_of_nodes_eq_modify hnodes hc
  · exact .inl hold
  · cases hold : t.isHit c with
    | true => exact .inl rfl
    | false => exact .inr (.inl (hd hlt hold))

/-- What is made and cancelled goes on to be so, if all that is hit counts as cancelled. -/
theorem develops (h : Timed ends cancelled now t) (hdevelops : Develops ends cut t u)
    (hcut : ∀ c, cut c → t.isHit c = false → u.isHit c = true → cancelled c) :
    Timed ends cancelled now u := by
  have hunhit {u : ContextTree} {d : ContextId} (htu : t.Grows u) (hnot : u.isHit d = false) :
      t.isHit d = false := Bool.eq_false_iff.2 fun hold => by
    rw [htu.isHit hold] at hnot
    cases hnot
  induction hdevelops with
  | refl => exact h
  | background _ hends ih =>
      refine (ih fun c hc hnot hhit => ?_).background hends
      exact hcut c hc hnot ((grows_background _).isHit hhit)
  | child _ hends parent ih =>
      refine (ih fun c hc hnot hhit => ?_).child hends parent
      exact hcut c hc hnot ((grows_child _ parent).isHit hhit)
  | childUntil _ hends parent ih =>
      refine (ih fun c hc hnot hhit => ?_).childUntil hends parent
      exact hcut c hc hnot ((grows_childUntil _ parent _).isHit hhit)
  | @cancel _ d hdevelops hd ih =>
      refine (ih fun c hc hnot hhit => ?_).cancel d fun hlt hnot => ?_
      · exact hcut c hc hnot ((grows_cancel _ d).isHit hhit)
      · exact hcut d hd (hunhit hdevelops.grows hnot) (isHit_cancel hlt)
  | @cancelSilently _ d hdevelops hd ih =>
      refine (ih fun c hc hnot hhit => ?_).cancelSilently d fun hlt hnot => ?_
      · exact hcut c hc hnot ((grows_cancelSilently _ d).isHit hhit)
      · exact hcut d hd (hunhit hdevelops.grows hnot) (isHit_cancelSilently hlt)

/-! ### When contexts are done -/

/-- A deadline is not beyond those above it. -/
theorem deadline_le (h : Timed ends cancelled now t) {a : ContextId} {d : Instant}
    (ha : a ∈ t.lineage c) (hd : t.deadline a = some d) :
    ∃ d', t.deadline c = some d' ∧ d' ≤ d := by
  rw [h.deadline] at hd
  obtain ⟨b, hb, hends⟩ := List.mem_filterMap.1 (List.min?_mem hd)
  have hmem : d ∈ (t.lineage c).filterMap ends :=
    List.mem_filterMap.2 ⟨b, h.above c a ha b hb, hends⟩
  rw [h.deadline]
  exact ⟨_, List.min?_eq_some_min (List.ne_nil_of_mem hmem), List.min_le_of_mem hmem⟩

/-- What was not cancelled is done only when its deadline has passed, and says so. -/
theorem passed_of_isDone (h : Timed ends cancelled now t) (hc : ∀ a ∈ t.lineage c, ¬ cancelled a)
    (hdone : t.isDone c = true) : (∃ d, t.deadline c = some d ∧ d ≤ now) ∧
      t.error? c = some .deadlineExceeded := by
  obtain ⟨a, ha, hhit⟩ := List.any_eq_true.1 hdone
  obtain ⟨hcause, d, hd, hle⟩ := (h.hit a hhit).resolve_left (hc a ha)
  obtain ⟨d', hd', hle'⟩ := h.deadline_le ha hd
  refine ⟨⟨d', hd', Nat.le_trans hle' hle⟩, ?_⟩
  obtain ⟨err, herr⟩ : ∃ err, (t.lineage c).findSome? t.cause = some err :=
    Option.isSome_iff_exists.1 (List.findSome?_isSome_iff.2 ⟨a, ha, by rw [hcause]; rfl⟩)
  obtain ⟨b, hb, hcause'⟩ := List.exists_of_findSome?_eq_some herr
  obtain rfl := (h.cause b err hcause').2.resolve_right (hc b hb)
  rw [error?, if_pos hdone, herr, Option.getD_some]

/-- When no timer is left to go off, what was not cancelled is done exactly when its deadline has
passed. -/
theorem isDone_iff (h : Timed ends cancelled now t) (hc : ∀ a ∈ t.lineage c, ¬ cancelled a)
    (hsettled : ∀ a, t.isDue now a = false) :
    t.isDone c = true ↔ ∃ d, t.deadline c = some d ∧ d ≤ now := by
  refine ⟨fun hdone => (h.passed_of_isDone hc hdone).1, fun hpassed => ?_⟩
  obtain ⟨d, hd, hle⟩ := hpassed
  cases hdone : t.isDone c with
  | true => rfl
  | false =>
      obtain ⟨a, -, hmem, had⟩ := h.waits c d hdone hd
      have hdue : t.isDue now a = true := by
        rw [isDue, had]
        simp [hmem, hle]
      rw [hsettled a] at hdue
      cases hdue

end Timed

end Scheduling.ContextTree
