import Scheduling.Context
import Scheduling.Proofs.Lists
/-!
# Growth of context trees

Contexts are only ever added and hit: none is lost, moved to another place or revived, and none is
hit for a cause other than a cancellation or a deadline. So a context that is done stays done,
whatever happens to the tree.
-/

namespace Scheduling.ContextTree

/-- A context comes after its ancestors. -/
def Ordered (t : ContextTree) : Prop := ∀ c, ∀ a ∈ t.lineage c, a ≤ c

/-- The second tree is a later stage of the first. -/
structure Grows (t u : ContextTree) : Prop where
  nodes : ∀ (c : ContextId) (node : Context), t.nodes[c]? = some node →
    ∃ later : Context, u.nodes[c]? = some later ∧ later.lineage = node.lineage ∧
      (node.hit = true → later.hit = true) ∧ later.deadline = node.deadline
  ordered : t.Ordered → u.Ordered
  causes : ∀ (c : ContextId) (later : Context) (err : Error), u.nodes[c]? = some later →
    later.cause = some err → err.isContextError = true ∨ t.cause c = some err

namespace Grows

theorem refl (t : ContextTree) : t.Grows t where
  nodes _ node h := ⟨node, h, rfl, id, rfl⟩
  ordered := id
  causes c later err h herr := .inr (by simp [cause, get?, h, herr])

theorem trans {t u v : ContextTree} (htu : t.Grows u) (huv : u.Grows v) : t.Grows v where
  nodes c node h := by
    obtain ⟨node₁, h₁, hl₁, hh₁, hd₁⟩ := htu.nodes c node h
    obtain ⟨node₂, h₂, hl₂, hh₂, hd₂⟩ := huv.nodes c node₁ h₁
    exact ⟨node₂, h₂, hl₂.trans hl₁, fun hhit => hh₂ (hh₁ hhit), hd₂.trans hd₁⟩
  ordered ht := huv.ordered (htu.ordered ht)
  causes c later err h herr := by
    obtain hcontext | hcause := huv.causes c later err h herr
    · exact .inl hcontext
    · obtain ⟨node, hnode, hcause⟩ := Option.bind_eq_some_iff.1 hcause
      exact htu.causes c node err hnode hcause

theorem size_le {t u : ContextTree} (h : t.Grows u) : t.nodes.size ≤ u.nodes.size := by
  refine Nat.le_of_not_lt fun hlt => ?_
  obtain ⟨later, hlater, -⟩ := h.nodes u.nodes.size _ (Array.getElem?_eq_getElem hlt)
  exact Nat.lt_irrefl _ (Array.getElem?_eq_some_iff.1 hlater).1

theorem lineage_eq {t u : ContextTree} (h : t.Grows u) {c : ContextId} {node : Context}
    (hc : t.nodes[c]? = some node) : u.lineage c = t.lineage c := by
  obtain ⟨later, hlater, hl, -⟩ := h.nodes c node hc
  simp [lineage, get?, hc, hlater, hl]

/-- A context keeps its deadline. -/
theorem deadline_eq {t u : ContextTree} (h : t.Grows u) {c : ContextId} (hc : c < t.nodes.size) :
    u.deadline c = t.deadline c := by
  have hnode := Array.getElem?_eq_getElem hc
  obtain ⟨later, hlater, -, -, hd⟩ := h.nodes c _ hnode
  simp [deadline, get?, hnode, hlater, hd]

theorem mem_lineage {t u : ContextTree} (h : t.Grows u) {a c : ContextId}
    (ha : a ∈ t.lineage c) : a ∈ u.lineage c := by
  cases hnode : t.nodes[c]? with
  | none => simp [lineage, get?, hnode] at ha
  | some node => rwa [h.lineage_eq hnode]

theorem isHit {t u : ContextTree} (h : t.Grows u) {c : ContextId} (hc : t.isHit c = true) :
    u.isHit c = true := by
  unfold ContextTree.isHit get? at hc ⊢
  obtain ⟨node, hnode, hhit⟩ := (Option.any_eq_true _ _).1 hc
  obtain ⟨later, hlater, -, hh, -⟩ := h.nodes c node hnode
  rw [hlater]
  exact hh hhit

/-- A context that is done stays done. -/
theorem isDone {t u : ContextTree} (h : t.Grows u) {c : ContextId} (hc : t.isDone c = true) :
    u.isDone c = true := by
  unfold ContextTree.isDone at hc ⊢
  obtain ⟨a, ha, hhit⟩ := List.any_eq_true.1 hc
  cases hnode : t.nodes[c]? with
  | none => simp [lineage, get?, hnode] at ha
  | some node =>
      rw [h.lineage_eq hnode]
      exact List.any_eq_true.2 ⟨a, ha, h.isHit hhit⟩

end Grows

theorem lineage_of_size_le {t : ContextTree} {c : ContextId} (h : t.nodes.size ≤ c) :
    t.lineage c = [] := by
  rw [lineage, get?, Array.getElem?_eq_none h]
  rfl

theorem lt_size_of_mem_lineage {t : ContextTree} {a c : ContextId} (h : a ∈ t.lineage c) :
    c < t.nodes.size := by
  refine Nat.lt_of_not_le fun hle => ?_
  rw [lineage_of_size_le hle] at h
  cases h

theorem grows_of_nodes_eq_push {t u : ContextTree} {node : Context} (hcause : node.cause = none)
    (hlineage : ∀ a ∈ node.lineage, a = t.nodes.size ∨ ∃ parent, a ∈ t.lineage parent)
    (h : u.nodes = t.nodes.push node) : t.Grows u where
  nodes c old hold := by
    obtain ⟨hlt, -⟩ := Array.getElem?_eq_some_iff.1 hold
    refine ⟨old, ?_, rfl, id, rfl⟩
    rw [h, Array.getElem?_push_lt hlt, ← hold, Array.getElem?_eq_getElem hlt]
  ordered ht c a ha := by
    rw [lineage, get?, h, Array.getElem?_push] at ha
    split at ha
    · rename_i hc
      rw [hc]
      obtain rfl | ⟨parent, ha⟩ := hlineage a ha
      · exact Nat.le_refl _
      · exact Nat.le_trans (ht parent a ha) (Nat.le_of_lt (lt_size_of_mem_lineage ha))
    · exact ht c a ha
  causes c later err hlater herr := by
    rw [h, Array.getElem?_push] at hlater
    split at hlater
    · cases hlater
      rw [hcause] at herr
      cases herr
    · exact .inr (by simp [cause, get?, hlater, herr])

theorem grows_of_nodes_eq_modify {t u : ContextTree} {c : ContextId} {f : Context → Context}
    (h : u.nodes = t.nodes.modify c f) (hl : ∀ node, (f node).lineage = node.lineage)
    (hh : ∀ node, node.hit = true → (f node).hit = true)
    (hd : ∀ node, (f node).deadline = node.deadline)
    (hcause : ∀ node err, (f node).cause = some err →
      err.isContextError = true ∨ node.cause = some err) : t.Grows u where
  nodes c' node hnode := by
    rw [h, Array.getElem?_modify, hnode]
    by_cases hc : c = c'
    · exact ⟨f node, by simp [hc], hl node, hh node, hd node⟩
    · exact ⟨node, by simp [hc], rfl, id, rfl⟩
  ordered ht c' a ha := by
    refine ht c' a ?_
    rw [lineage, get?, h, Array.getElem?_modify] at ha
    split at ha
    · rw [Option.map_map] at ha
      simpa only [lineage, get?, Function.comp_def, hl] using ha
    · exact ha
  causes c' later err hlater herr := by
    rw [h, Array.getElem?_modify] at hlater
    split at hlater
    · obtain ⟨node, hnode, rfl⟩ := Option.map_eq_some_iff.1 hlater
      exact (hcause node err herr).imp_right fun hold => by simp [cause, get?, hnode, hold]
    · exact .inr (by simp [cause, get?, hlater, herr])

theorem grows_background (t : ContextTree) : t.Grows t.background.2 :=
  grows_of_nodes_eq_push rfl (fun _ ha => .inl (List.mem_singleton.1 ha)) rfl

theorem grows_child (t : ContextTree) (parent : ContextId) : t.Grows (t.child parent).2 :=
  grows_of_nodes_eq_push rfl (fun _ ha => (List.mem_cons.1 ha).imp_right fun ha => ⟨parent, ha⟩) rfl

theorem grows_childUntil (t : ContextTree) (parent : ContextId) (expiry : Instant) :
    t.Grows (t.childUntil parent expiry).2 :=
  grows_of_nodes_eq_push rfl (fun _ ha => (List.mem_cons.1 ha).imp_right fun ha => ⟨parent, ha⟩) rfl

theorem grows_hitWith (t : ContextTree) (c : ContextId) {cause : Error}
    (hcause : cause.isContextError = true) : t.Grows (t.hitWith c cause) := by
  have h : (t.hitWith c cause).nodes = t.nodes.modify c fun n =>
      { n with
        hit := true
        cause := if n.cause.isNone && !t.isDone c then some cause else n.cause } := rfl
  refine grows_of_nodes_eq_modify h (fun _ => rfl) (fun _ _ => rfl) (fun _ => rfl)
    fun node err herr => ?_
  dsimp only at herr
  split at herr
  · cases herr
    exact .inl hcause
  · exact .inr herr

theorem grows_cancel (t : ContextTree) (c : ContextId) : t.Grows (t.cancel c) :=
  grows_hitWith t c rfl

theorem grows_expire (t : ContextTree) (c : ContextId) : t.Grows (t.expire c) :=
  grows_hitWith t c rfl

theorem grows_cancelSilently (t : ContextTree) (c : ContextId) : t.Grows (t.cancelSilently c) := by
  have h : (t.cancelSilently c).nodes = t.nodes.modify c fun n =>
      { n with hit := true } := rfl
  exact grows_of_nodes_eq_modify h (fun _ => rfl) (fun _ _ => rfl) (fun _ => rfl)
    fun _ _ herr => .inr herr

/-- A context is done once it was cancelled. -/
theorem isDone_cancel {t : ContextTree} {c : ContextId} {node : Context}
    (h : t.nodes[c]? = some node) (hc : c ∈ node.lineage) : (t.cancel c).isDone c = true := by
  unfold isDone
  rw [(grows_cancel t c).lineage_eq h]
  refine List.any_eq_true.2 ⟨c, by simpa [lineage, get?, h] using hc, ?_⟩
  simp [isHit, get?, cancel, hitWith, prune, Array.getElem?_modify, h]

theorem isDone_cancel_self {t : ContextTree} {c : ContextId} (h : c ∈ t.lineage c) :
    (t.cancel c).isDone c = true := by
  cases hnode : t.nodes[c]? with
  | none => simp [lineage, get?, hnode] at h
  | some node => exact isDone_cancel hnode (by simpa [lineage, get?, hnode] using h)

/-- A context has an error exactly when it is done. -/
theorem isSome_error? (t : ContextTree) (c : ContextId) : (t.error? c).isSome = t.isDone c := by
  unfold error?
  split <;> simp_all

/-! ## Contexts below others -/

/-- A context was made below another. -/
structure ChildOf (t : ContextTree) (c parent : ContextId) : Prop where
  made : c < t.nodes.size
  lineage : t.lineage c = c :: t.lineage parent
  lt : parent < c

theorem ChildOf.parent {t : ContextTree} {c parent : ContextId} (h : t.ChildOf c parent) :
    parent < t.nodes.size := Nat.lt_trans h.lt h.made

/-- The new context of a tree is a child of the one whose ancestors it has above it. -/
theorem childOf_of_push {t u : ContextTree} {parent : ContextId} {node : Context}
    (h : parent < t.nodes.size) (hnodes : u.nodes = t.nodes.push node)
    (hlineage : node.lineage = t.nodes.size :: t.lineage parent) (hgrows : t.Grows u) :
    u.ChildOf t.nodes.size parent where
  made := by simp [hnodes]
  lineage := by
    rw [hgrows.lineage_eq (Array.getElem?_eq_getElem h), lineage, get?, hnodes,
      Array.getElem?_push_size]
    exact hlineage
  lt := h

theorem childOf_child {t : ContextTree} {parent : ContextId} (h : parent < t.nodes.size) :
    (t.child parent).2.ChildOf t.nodes.size parent :=
  childOf_of_push h rfl rfl (grows_child t parent)

theorem childOf_childUntil {t : ContextTree} {parent : ContextId} (h : parent < t.nodes.size)
    (expiry : Instant) : (t.childUntil parent expiry).2.ChildOf t.nodes.size parent :=
  childOf_of_push h rfl rfl (grows_childUntil t parent expiry)

theorem deadline_child (t : ContextTree) (parent : ContextId) :
    (t.child parent).2.deadline t.nodes.size = t.deadline parent := by
  rw [deadline, get?, child, Array.getElem?_push_size]
  rfl

theorem deadline_childUntil (t : ContextTree) (parent : ContextId) (expiry : Instant) :
    (t.childUntil parent expiry).2.deadline t.nodes.size =
      some (((t.deadline parent).map (min · expiry)).getD expiry) := by
  rw [deadline, get?, childUntil, Array.getElem?_push_size]
  rfl

theorem ChildOf.grows {t u : ContextTree} {c parent : ContextId} (h : t.ChildOf c parent)
    (hgrows : t.Grows u) : u.ChildOf c parent where
  made := Nat.lt_of_lt_of_le h.made hgrows.size_le
  lineage := by
    rw [hgrows.lineage_eq (Array.getElem?_eq_getElem h.made), h.lineage,
      hgrows.lineage_eq (Array.getElem?_eq_getElem h.parent)]
  lt := h.lt

/-- A context lies above those that were made below it. -/
theorem ChildOf.notMem_lineage {t : ContextTree} {c parent : ContextId} (h : t.ChildOf c parent)
    (ht : t.Ordered) : c ∉ t.lineage parent := fun hmem =>
  Nat.not_le_of_lt h.lt (ht parent c hmem)

/-- A context is done when it was hit or the context above it is done. -/
theorem ChildOf.isDone {t : ContextTree} {c parent : ContextId} (h : t.ChildOf c parent) :
    t.isDone c = (t.isHit c || t.isDone parent) := by
  rw [ContextTree.isDone, h.lineage, List.any_cons, ContextTree.isDone]

/-! ## Contexts that a cancellation does not reach -/

/-- A context is the same in both trees, as far as anybody can see. -/
structure Agrees (t u : ContextTree) (c : ContextId) : Prop where
  lineage : u.lineage c = t.lineage c
  deadline : u.deadline c = t.deadline c
  isDone : u.isDone c = t.isDone c
  error : u.error? c = t.error? c

theorem Agrees.trans {t u v : ContextTree} {c : ContextId} (h : t.Agrees u c)
    (h' : u.Agrees v c) : t.Agrees v c :=
  ⟨h'.lineage.trans h.lineage, h'.deadline.trans h.deadline, h'.isDone.trans h.isDone,
    h'.error.trans h.error⟩

theorem nodes_hitWith (t : ContextTree) (c : ContextId) (cause : Error) :
    (t.hitWith c cause).nodes = t.nodes.modify c fun n =>
      { n with
        hit := true
        cause := if n.cause.isNone && !t.isDone c then some cause else n.cause } := rfl

theorem lineage_hitWith (t : ContextTree) (c : ContextId) (cause : Error) :
    (t.hitWith c cause).lineage = t.lineage := by
  funext c'
  rw [lineage, get?, nodes_hitWith, Array.getElem?_modify]
  split <;> simp [lineage, get?, Function.comp_def]

theorem isHit_hitWith {t : ContextTree} {c : ContextId} (hc : c < t.nodes.size) (cause : Error)
    (c' : ContextId) : (t.hitWith c cause).isHit c' = (decide (c' = c) || t.isHit c') := by
  rw [isHit, get?, nodes_hitWith, Array.getElem?_modify]
  by_cases heq : c = c'
  · rw [if_pos heq, ← heq, Array.getElem?_eq_getElem hc]
    simp
  · have hne : ¬ c' = c := fun h => heq h.symm
    rw [if_neg heq, decide_eq_false hne, Bool.false_or, isHit, get?]

theorem isHit_cancel {t : ContextTree} {c : ContextId} (hc : c < t.nodes.size) :
    (t.cancel c).isHit c = true := by
  rw [cancel, isHit_hitWith hc, decide_eq_true rfl, Bool.true_or]

/-- A hit reaches only the contexts below the one that is hit. -/
theorem agrees_hitWith {t : ContextTree} {c c' : ContextId} (h : c ∉ t.lineage c')
    (cause : Error) : t.Agrees (t.hitWith c cause) c' := by
  have hlineage := congrFun (lineage_hitWith t c cause) c'
  have hget (a : ContextId) (ha : a ∈ t.lineage c') : (t.hitWith c cause).get? a = t.get? a := by
    have hne : c ≠ a := fun heq => h (heq ▸ ha)
    rw [get?, nodes_hitWith, Array.getElem?_modify, if_neg hne, get?]
  have hhit : (t.lineage c').any (t.hitWith c cause).isHit = (t.lineage c').any t.isHit := by
    rw [Bool.eq_iff_iff, List.any_eq_true, List.any_eq_true]
    exact exists_congr fun a => and_congr_right fun ha => by rw [isHit, hget a ha, isHit]
  have hcause : (t.lineage c').findSome? (t.hitWith c cause).cause =
      (t.lineage c').findSome? t.cause :=
    findSome?_congr fun a ha => by rw [ContextTree.cause, hget a ha, ContextTree.cause]
  have hdone : (t.hitWith c cause).isDone c' = t.isDone c' := by
    rw [isDone, hlineage, hhit, isDone]
  refine ⟨hlineage, ?_, hdone, ?_⟩
  · rw [deadline, get?, nodes_hitWith, Array.getElem?_modify]
    split
    · exact Option.bind_map
    · rfl
  · rw [error?, hdone, hlineage, hcause, error?]

theorem agrees_cancel {t : ContextTree} {c c' : ContextId} (h : c ∉ t.lineage c') :
    t.Agrees (t.cancel c) c' := agrees_hitWith h .canceled

end Scheduling.ContextTree
