import Scheduling.Proofs.Contexts
/-!
# Why contexts are done

A tree of contexts is built by making contexts and hitting them, by cancellations and by deadlines,
in any order. A context is done when it or one above it was hit, before or after it was made, and
its error is the cause of the earliest of these hits. So an error stays as it is, and a hit changes
nothing for the contexts that are not below.

The tree records a cause only where a hit finds a context that is not done, and a context looks for
the nearest cause. Both agree since a context that is done has a cause at or above it, and a later
hit above that one comes too far up to be found.
-/

namespace Scheduling.ContextTree

/-! ## The first of a list -/

section First

variable {α β : Type} {R R' : α → β → Prop} {l : List α} {x : α} {b : β}

/-- The first member of a list that has any partner has this one. -/
def FirstWith (R : α → β → Prop) (l : List α) (b : β) : Prop :=
  ∃ (before : List α) (x : α) (after : List α), l = before ++ x :: after ∧
    R x b ∧ ∀ y ∈ before, ∀ b', ¬ R y b'

theorem FirstWith.append (h : FirstWith R l b) (l' : List α) : FirstWith R (l ++ l') b := by
  obtain ⟨before, x, after, rfl, hx, hbefore⟩ := h
  exact ⟨before, x, after ++ l', by simp, hx, hbefore⟩

theorem exists_firstWith_iff : (∃ b, FirstWith R l b) ↔ ∃ x ∈ l, ∃ b, R x b := by
  constructor
  · rintro ⟨b, before, x, after, rfl, hx, -⟩
    exact ⟨x, by simp, b, hx⟩
  · rintro ⟨x, hx, b, hb⟩
    induction l with
    | nil => cases hx
    | cons y l ih =>
        by_cases hy : ∃ b, R y b
        · obtain ⟨b', hb'⟩ := hy
          exact ⟨b', [], y, l, rfl, hb', fun _ h => by cases h⟩
        · obtain rfl | hx := List.mem_cons.1 hx
          · exact absurd ⟨b, hb⟩ hy
          · obtain ⟨b', before, x', after, rfl, hx', hbefore⟩ := ih hx
            refine ⟨b', y :: before, x', after, rfl, hx', fun z hz b'' hb'' => ?_⟩
            obtain rfl | hz := List.mem_cons.1 hz
            · exact hy ⟨b'', hb''⟩
            · exact hbefore z hz b'' hb''

theorem firstWith_append_singleton :
    FirstWith R (l ++ [x]) b ↔ FirstWith R l b ∨ (∀ y ∈ l, ∀ b', ¬ R y b') ∧ R x b := by
  constructor
  · rintro ⟨before, x', after, hl, hx', hbefore⟩
    obtain rfl | ⟨init, last, rfl⟩ := List.eq_nil_or_concat after
    · obtain ⟨rfl, hx⟩ := List.append_inj' hl rfl
      cases hx
      exact .inr ⟨hbefore, hx'⟩
    · have hl' : l ++ [x] = (before ++ x' :: init) ++ [last] := by simp [hl]
      obtain ⟨rfl, -⟩ := List.append_inj' hl' rfl
      exact .inl ⟨before, x', init, rfl, hx', hbefore⟩
  · rintro (h | ⟨hl, hx⟩)
    · exact h.append [x]
    · exact ⟨l, x, [], rfl, hx, hl⟩

theorem firstWith_congr (h : ∀ x ∈ l, ∀ b, R x b ↔ R' x b) :
    FirstWith R l b ↔ FirstWith R' l b := by
  have himp {S S' : α → β → Prop} (h : ∀ x ∈ l, ∀ b, S x b ↔ S' x b) (hs : FirstWith S l b) :
      FirstWith S' l b := by
    obtain ⟨before, x, after, hl, hx, hbefore⟩ := hs
    subst hl
    exact ⟨before, x, after, rfl, (h x (by simp) b).1 hx, fun y hy b' hb' =>
      hbefore y hy b' ((h y (by simp [hy]) b').2 hb')⟩
  exact ⟨himp h, himp fun x hx b => (h x hx b).symm⟩

end First

/-! ## The history of a tree -/

/-- What happens to a tree of contexts. -/
inductive Event
  | background
  | child (parent : ContextId)
  | childUntil (parent : ContextId) (expiry : Instant)
  | cancel (c : ContextId)
  | expire (c : ContextId)

/-- The contexts that an event speaks of are there. -/
def Event.Possible (t : ContextTree) : Event → Prop
  | .background => True
  | .child parent | .childUntil parent _ => parent < t.nodes.size
  | .cancel c | .expire c => c < t.nodes.size

instance (t : ContextTree) : (e : Event) → Decidable (e.Possible t)
  | .background => .isTrue trivial
  | .child parent | .childUntil parent _ => inferInstanceAs (Decidable (parent < t.nodes.size))
  | .cancel c | .expire c => inferInstanceAs (Decidable (c < t.nodes.size))

def apply (t : ContextTree) : Event → ContextTree
  | .background => t.background.2
  | .child parent => (t.child parent).2
  | .childUntil parent expiry => (t.childUntil parent expiry).2
  | .cancel c => t.cancel c
  | .expire c => t.expire c

/-- Some events have made a tree. -/
inductive Builds : List Event → ContextTree → Prop
  | nil : Builds [] empty
  | snoc {es : List Event} {t : ContextTree} {e : Event} (h : Builds es t) (he : e.Possible t) :
      Builds (es ++ [e]) (t.apply e)

/-- The parent, if any, of the context that an event makes. -/
def Event.parent? : Event → Option (Option ContextId)
  | .background => some none
  | .child parent | .childUntil parent _ => some (some parent)
  | .cancel _ | .expire _ => none

/-- The parents of the contexts that some events make, by the numbers of the contexts. -/
def parents (es : List Event) : List (Option ContextId) := es.filterMap Event.parent?

/-- With these parents, a context is another one or an ancestor of it. -/
inductive Above (ps : List (Option ContextId)) : ContextId → ContextId → Prop
  | self (c : ContextId) : Above ps c c
  | parent {a c parent : ContextId} (hc : ps[c]? = some (some parent)) (h : Above ps a parent) :
      Above ps a c

/-- An event hits a context. -/
inductive Event.Hits : Event → ContextId → Error → Prop
  | cancel (c : ContextId) : Hits (.cancel c) c .canceled
  | expire (c : ContextId) : Hits (.expire c) c .deadlineExceeded

/-- An event hits a context or an ancestor of it. -/
def Reaches (ps : List (Option ContextId)) (c : ContextId) (e : Event) (err : Error) : Prop :=
  ∃ a, e.Hits a err ∧ Above ps a c

/-- The earliest event that hits a context or an ancestor of it does so for a cause. -/
def FirstCause (es : List Event) (c : ContextId) (err : Error) : Prop :=
  FirstWith (Reaches (parents es) c) es err

/-! ## Trees with a new context -/

/-- The error of contexts that are hit at some of them. -/
def errorAmong (t : ContextTree) (l : List ContextId) : Option Error :=
  if l.any t.isHit then some ((l.findSome? t.cause).getD .canceled) else none

theorem error?_eq_errorAmong (t : ContextTree) (c : ContextId) :
    t.error? c = t.errorAmong (t.lineage c) := rfl

/-- A parent, if there is one, and its ancestors. -/
def upward (t : ContextTree) (parent : Option ContextId) : List ContextId :=
  (parent.map t.lineage).getD []

theorem errorAmong_upward (t : ContextTree) (parent : Option ContextId) :
    t.errorAmong (t.upward parent) = parent.bind t.error? := by
  cases parent with
  | none => rfl
  | some p => exact (error?_eq_errorAmong t p).symm

theorem exists_of_mem_upward {t : ContextTree} {parent : Option ContextId} {a : ContextId}
    (h : a ∈ t.upward parent) : ∃ p, parent = some p ∧ a ∈ t.lineage p := by
  cases parent with
  | none => cases h
  | some p => exact ⟨p, rfl, h⟩

/-- The second tree has one more context, below some others and not hit. -/
structure Adds (t u : ContextTree) (rest : List ContextId) : Prop where
  size : u.nodes.size = t.nodes.size + 1
  new : u.lineage t.nodes.size = t.nodes.size :: rest
  old : ∀ c, c ≠ t.nodes.size → u.lineage c = t.lineage c
  isHit : u.isHit = t.isHit
  cause : u.cause = t.cause

theorem adds_of_nodes_eq_push {t u : ContextTree} {rest : List ContextId}
    {deadline : Option Instant}
    (h : u.nodes = t.nodes.push ⟨t.nodes.size :: rest, deadline, false, none⟩) : t.Adds u rest where
  size := by rw [h, Array.size_push]
  new := by
    rw [lineage, get?, h, Array.getElem?_push_size]
    rfl
  old c hc := by rw [lineage, get?, h, Array.getElem?_push, if_neg hc, lineage, get?]
  isHit := by
    funext c
    rw [isHit, get?, h, Array.getElem?_push]
    split
    · rename_i hc
      rw [hc, isHit, get?, Array.getElem?_eq_none (Nat.le_refl _)]
      rfl
    · rfl
  cause := by
    funext c
    rw [cause, get?, h, Array.getElem?_push]
    split
    · rename_i hc
      rw [hc, cause, get?, Array.getElem?_eq_none (Nat.le_refl _)]
      rfl
    · rfl

theorem adds_apply (t : ContextTree) {e : Event} {parent : Option ContextId}
    (h : e.parent? = some parent) : t.Adds (t.apply e) (t.upward parent) := by
  cases e with
  | background | child | childUntil =>
      cases h
      exact adds_of_nodes_eq_push rfl
  | cancel | expire => cases h

theorem isHit_size (t : ContextTree) : t.isHit t.nodes.size = false := by
  rw [isHit, get?, Array.getElem?_eq_none (Nat.le_refl _)]
  rfl

theorem cause_size (t : ContextTree) : t.cause t.nodes.size = none := by
  rw [cause, get?, Array.getElem?_eq_none (Nat.le_refl _)]
  rfl

namespace Adds

variable {t u : ContextTree} {rest : List ContextId}

theorem errorAmong (h : t.Adds u rest) (l : List ContextId) :
    u.errorAmong l = t.errorAmong l := by
  unfold ContextTree.errorAmong
  rw [h.isHit, h.cause]

theorem error?_old (h : t.Adds u rest) {c : ContextId} (hc : c ≠ t.nodes.size) :
    u.error? c = t.error? c := by
  rw [error?_eq_errorAmong, h.old c hc, h.errorAmong, error?_eq_errorAmong]

theorem error?_new (h : t.Adds u rest) : u.error? t.nodes.size = t.errorAmong rest := by
  rw [error?_eq_errorAmong, h.new, h.errorAmong]
  simp only [ContextTree.errorAmong, List.any_cons, isHit_size, Bool.false_or,
    List.findSome?_cons, cause_size]

theorem isDone_old (h : t.Adds u rest) {c : ContextId} (hc : c ≠ t.nodes.size) :
    u.isDone c = t.isDone c := by
  rw [isDone, h.old c hc, h.isHit, isDone]

theorem isDone_new (h : t.Adds u rest) : u.isDone t.nodes.size = rest.any t.isHit := by
  rw [isDone, h.new, h.isHit, List.any_cons, isHit_size, Bool.false_or]

end Adds

/-! ## Causes that are recorded -/

/-- The ancestors of an ancestor are the ones further up, and whatever is done has a recorded cause
at or above it. -/
structure Sound (t : ContextTree) : Prop where
  self : ∀ c, c < t.nodes.size → c ∈ t.lineage c
  split : ∀ c a, a ∈ t.lineage c → ∃ nearer, t.lineage c = nearer ++ t.lineage a ∧ a ∉ nearer
  made : ∀ c a, a ∈ t.lineage c → a < t.nodes.size
  hit : ∀ c, t.isHit c = false → t.cause c = none
  explained : ∀ c, t.isDone c = true → ∃ a ∈ t.lineage c, (t.cause a).isSome = true

namespace Sound

theorem empty : ContextTree.empty.Sound where
  self c hc := by cases hc
  split c a ha := by
    rw [lineage_of_size_le (Nat.zero_le c)] at ha
    cases ha
  made c a ha := by
    rw [lineage_of_size_le (Nat.zero_le c)] at ha
    cases ha
  hit c _ := rfl
  explained c hc := by
    rw [isDone, lineage_of_size_le (Nat.zero_le c)] at hc
    cases hc

variable {t u : ContextTree} {parent : Option ContextId}

theorem adds (hs : t.Sound) (h : t.Adds u (t.upward parent))
    (hparent : ∀ p, parent = some p → p < t.nodes.size) : u.Sound := by
  have hold {a : ContextId} (ha : a < t.nodes.size) : u.lineage a = t.lineage a :=
    h.old a (Nat.ne_of_lt ha)
  have hne {c a : ContextId} (ha : a ∈ t.lineage c) : a ≠ t.nodes.size :=
    Nat.ne_of_lt (hs.made c a ha)
  refine ⟨fun c hc => ?_, fun c a ha => ?_, fun c a ha => ?_, fun c hc => ?_, fun c hc => ?_⟩
  · by_cases heq : c = t.nodes.size
    · rw [heq, h.new]
      exact List.mem_cons_self
    · rw [h.old c heq]
      rw [h.size] at hc
      exact hs.self c (by omega)
  · by_cases heq : c = t.nodes.size
    · rw [heq, h.new] at ha ⊢
      obtain rfl | ha := List.mem_cons.1 ha
      · exact ⟨[], by rw [h.new]; rfl, List.not_mem_nil⟩
      · obtain ⟨p, rfl, ha⟩ := exists_of_mem_upward ha
        obtain ⟨nearer, hnearer, hnot⟩ := hs.split p a ha
        refine ⟨t.nodes.size :: nearer, ?_, fun hmem => ?_⟩
        · rw [h.old a (hne ha)]
          exact congrArg (t.nodes.size :: ·) hnearer
        · exact (List.mem_cons.1 hmem).elim (hne ha) hnot
    · rw [h.old c heq] at ha ⊢
      obtain ⟨nearer, hnearer, hnot⟩ := hs.split c a ha
      exact ⟨nearer, by rw [h.old a (hne ha), hnearer], hnot⟩
  · rw [h.size]
    by_cases heq : c = t.nodes.size
    · rw [heq, h.new] at ha
      obtain rfl | ha := List.mem_cons.1 ha
      · exact Nat.lt_succ_self _
      · obtain ⟨p, rfl, ha⟩ := exists_of_mem_upward ha
        exact Nat.lt_succ_of_lt (hs.made p a ha)
    · rw [h.old c heq] at ha
      exact Nat.lt_succ_of_lt (hs.made c a ha)
  · rw [h.isHit] at hc
    rw [h.cause]
    exact hs.hit c hc
  · rw [isDone, h.isHit] at hc
    rw [h.cause]
    by_cases heq : c = t.nodes.size
    · rw [heq, h.new] at hc ⊢
      rw [List.any_cons, isHit_size, Bool.false_or] at hc
      cases parent with
      | none => cases hc
      | some p =>
          obtain ⟨a, ha, hcause⟩ := hs.explained p hc
          exact ⟨a, List.mem_cons_of_mem _ ha, hcause⟩
    · rw [h.old c heq] at hc ⊢
      exact hs.explained c hc

theorem isHit_eq_false {c a : ContextId} (hc : t.isDone c = false) (ha : a ∈ t.lineage c) :
    t.isHit a = false :=
  Bool.eq_false_iff.2 (List.any_eq_false.1 hc a ha)

theorem isDone_eq_false (hs : t.Sound) {c a : ContextId} (hc : t.isDone c = false)
    (ha : a ∈ t.lineage c) : t.isDone a = false := by
  obtain ⟨nearer, hnearer, -⟩ := hs.split c a ha
  rw [isDone, hnearer, List.any_append, Bool.or_eq_false_iff] at hc
  exact hc.2

/-- A context that is not done has no cause at or above it. -/
theorem cause_eq_none (hs : t.Sound) {c a : ContextId} (hc : t.isDone c = false)
    (ha : a ∈ t.lineage c) : t.cause a = none := hs.hit a (isHit_eq_false hc ha)

theorem cause_hitWith (hs : t.Sound) {d : ContextId} (hd : d < t.nodes.size) (err : Error)
    (c : ContextId) :
    (t.hitWith d err).cause c =
      if c = d ∧ t.isDone d = false then some err else t.cause c := by
  rw [cause, get?, nodes_hitWith, Array.getElem?_modify]
  by_cases heq : d = c
  · subst heq
    rw [if_pos rfl, Array.getElem?_eq_getElem hd]
    have hcause : t.cause d = t.nodes[d].cause := by
      rw [cause, get?, Array.getElem?_eq_getElem hd]
      rfl
    cases hdone : t.isDone d with
    | true => simp [hcause]
    | false =>
        have hnone := hs.cause_eq_none hdone (hs.self d hd)
        rw [hcause] at hnone
        simp [hnone]
  · rw [if_neg heq, if_neg fun h => heq h.1.symm, cause, get?]

theorem hitWith (hs : t.Sound) {d : ContextId} (hd : d < t.nodes.size) (err : Error) :
    (t.hitWith d err).Sound := by
  have hlineage (c : ContextId) : (t.hitWith d err).lineage c = t.lineage c :=
    congrFun (lineage_hitWith t d err) c
  have hsize : (t.hitWith d err).nodes.size = t.nodes.size := by
    rw [nodes_hitWith, Array.size_modify]
  have hkept {a : ContextId} (ha : (t.cause a).isSome = true) :
      ((t.hitWith d err).cause a).isSome = true := by
    rw [hs.cause_hitWith hd]
    split
    · rfl
    · exact ha
  refine ⟨fun c hc => ?_, fun c a ha => ?_, fun c a ha => ?_, fun c hc => ?_, fun c hc => ?_⟩
  · rw [hlineage]
    exact hs.self c (hsize ▸ hc)
  · rw [hlineage] at ha ⊢
    rw [hlineage]
    exact hs.split c a ha
  · rw [hlineage] at ha
    rw [hsize]
    exact hs.made c a ha
  · rw [isHit_hitWith hd, Bool.or_eq_false_iff, decide_eq_false_iff_not] at hc
    rw [hs.cause_hitWith hd, if_neg fun h => hc.1 h.1]
    exact hs.hit c hc.2
  · rw [hlineage]
    cases hdone : t.isDone c with
    | true =>
        obtain ⟨a, ha, hcause⟩ := hs.explained c hdone
        exact ⟨a, ha, hkept hcause⟩
    | false =>
        -- the hit came at or above the context, and found that one not done either
        have hmem : d ∈ t.lineage c := Decidable.byContradiction fun hnot => by
          rw [(agrees_hitWith hnot err).isDone, hdone] at hc
          cases hc
        refine ⟨d, hmem, ?_⟩
        rw [hs.cause_hitWith hd, if_pos ⟨rfl, hs.isDone_eq_false hdone hmem⟩]
        rfl

/-- The error of a context is the nearest recorded cause. -/
theorem error?_eq_findSome? (hs : t.Sound) (c : ContextId) :
    t.error? c = (t.lineage c).findSome? t.cause := by
  unfold error?
  cases hdone : t.isDone c with
  | false =>
      rw [if_neg Bool.false_ne_true]
      exact (List.findSome?_eq_none_iff.2 fun a ha => hs.cause_eq_none hdone ha).symm
  | true =>
      rw [if_pos rfl]
      obtain ⟨a, ha, hcause⟩ := hs.explained c hdone
      obtain ⟨err, herr⟩ := Option.isSome_iff_exists.1
        (List.findSome?_isSome_iff.2 ⟨a, ha, hcause⟩)
      rw [herr]
      rfl

theorem findSome?_hitWith_self (hs : t.Sound) {d : ContextId} (hd : d < t.nodes.size)
    (err : Error) : (t.lineage d).findSome? (t.hitWith d err).cause =
      some (((t.lineage d).findSome? t.cause).getD err) := by
  cases hdone : t.isDone d with
  | true =>
      have hcause : (t.hitWith d err).cause = t.cause := by
        funext c
        rw [hs.cause_hitWith hd, if_neg fun h => Bool.false_ne_true (h.2.symm.trans hdone)]
      obtain ⟨a, ha, hsome⟩ := hs.explained d hdone
      obtain ⟨err', herr'⟩ := Option.isSome_iff_exists.1
        (List.findSome?_isSome_iff.2 ⟨a, ha, hsome⟩)
      rw [hcause, herr']
      rfl
  | false =>
      have hnone : (t.lineage d).findSome? t.cause = none :=
        List.findSome?_eq_none_iff.2 fun a ha => hs.cause_eq_none hdone ha
      have hcause := hs.cause_hitWith hd err
      have hfound : ((t.lineage d).findSome? (t.hitWith d err).cause).isSome = true := by
        refine List.findSome?_isSome_iff.2 ⟨d, hs.self d hd, ?_⟩
        rw [hcause, if_pos ⟨rfl, hdone⟩]
        rfl
      obtain ⟨err', herr'⟩ := Option.isSome_iff_exists.1 hfound
      obtain ⟨a, ha, hcause'⟩ := List.exists_of_findSome?_eq_some herr'
      rw [hcause] at hcause'
      split at hcause'
      · rw [herr', ← hcause', hnone]
        rfl
      · rw [hs.cause_eq_none hdone ha] at hcause'
        cases hcause'

/-- A hit gives its cause to the contexts below that are not done, and leaves the others theirs. -/
theorem error?_hitWith (hs : t.Sound) {c d : ContextId} (hmem : d ∈ t.lineage c) (err : Error) :
    (t.hitWith d err).error? c = some ((t.error? c).getD err) := by
  have hd := hs.made c d hmem
  obtain ⟨nearer, hnearer, hnot⟩ := hs.split c d hmem
  have hbelow : nearer.findSome? (t.hitWith d err).cause = nearer.findSome? t.cause := by
    refine findSome?_congr fun a ha => ?_
    rw [hs.cause_hitWith hd, if_neg]
    rintro ⟨rfl, -⟩
    exact hnot ha
  rw [(hs.hitWith hd err).error?_eq_findSome?, hs.error?_eq_findSome?, lineage_hitWith, hnearer,
    List.findSome?_append, List.findSome?_append, hbelow, hs.findSome?_hitWith_self hd]
  cases nearer.findSome? t.cause <;> rfl

end Sound

/-! ## Contexts above others in a history -/

section Above

variable {ps : List (Option ContextId)} {a c : ContextId}

theorem Above.append (h : Above ps a c) (later : List (Option ContextId)) :
    Above (ps ++ later) a c := by
  induction h with
  | self => exact .self _
  | parent hc _ ih =>
      obtain ⟨hlt, -⟩ := List.getElem?_eq_some_iff.1 hc
      exact .parent ((List.getElem?_append_left hlt).trans hc) ih

/-- The ancestors of a context stay the same. -/
theorem above_append_iff
    (hps : ∀ (c parent : ContextId), ps[c]? = some (some parent) → parent < c) (hc : c < ps.length)
    (later : List (Option ContextId)) : Above (ps ++ later) a c ↔ Above ps a c := by
  refine ⟨fun h => ?_, fun h => h.append later⟩
  induction h with
  | self => exact .self _
  | parent hparent _ ih =>
      rw [List.getElem?_append_left hc] at hparent
      exact .parent hparent (ih (Nat.lt_trans (hps _ _ hparent) hc))

theorem above_new_iff (hps : ∀ (c parent : ContextId), ps[c]? = some (some parent) → parent < c)
    {parent : Option ContextId} (hparent : ∀ p, parent = some p → p < ps.length) :
    Above (ps ++ [parent]) a ps.length ↔ a = ps.length ∨ ∃ p, parent = some p ∧ Above ps a p := by
  constructor
  · intro h
    cases h with
    | self => exact .inl rfl
    | @parent _ p hp h =>
        rw [List.getElem?_concat_length] at hp
        have hp' := Option.some.inj hp
        exact .inr ⟨p, hp', (above_append_iff hps (hparent p hp') _).1 h⟩
  · rintro (rfl | ⟨p, rfl, h⟩)
    · exact .self _
    · exact .parent List.getElem?_concat_length (h.append _)

theorem smaller_concat (hps : ∀ (c parent : ContextId), ps[c]? = some (some parent) → parent < c)
    {parent : Option ContextId} (hparent : ∀ p, parent = some p → p < ps.length) {p : ContextId}
    (h : (ps ++ [parent])[c]? = some (some p)) : p < c := by
  by_cases hlt : c < ps.length
  · rw [List.getElem?_append_left hlt] at h
    exact hps c p h
  · have hlast : c = ps.length := by
      obtain ⟨hle, -⟩ := List.getElem?_eq_some_iff.1 h
      rw [List.length_append, List.length_singleton] at hle
      exact Nat.le_antisymm (Nat.le_of_lt_succ hle) (Nat.le_of_not_lt hlt)
    rw [hlast, List.getElem?_concat_length] at h
    rw [hlast]
    exact hparent p (Option.some.inj h)

end Above

/-! ## The error is the earliest cause -/

theorem Event.makes_or_hits (e : Event) :
    (∃ parent, e.parent? = some parent ∧ ∀ a err, ¬ e.Hits a err) ∨
      ∃ c err, e.parent? = none ∧ e.Hits c err := by
  cases e with
  | background | child | childUntil => exact .inl ⟨_, rfl, fun a err h => by cases h⟩
  | cancel c => exact .inr ⟨c, _, rfl, .cancel c⟩
  | expire c => exact .inr ⟨c, _, rfl, .expire c⟩

theorem Event.Hits.unique {e : Event} {a b : ContextId} {err err' : Error} (h : e.Hits a err)
    (h' : e.Hits b err') : a = b ∧ err = err' := by
  cases h <;> cases h' <;> exact ⟨rfl, rfl⟩

theorem Event.Hits.apply {e : Event} {c : ContextId} {err : Error} (h : e.Hits c err)
    (t : ContextTree) : t.apply e = t.hitWith c err := by
  cases h <;> rfl

theorem Event.Hits.possible {e : Event} {c : ContextId} {err : Error} (h : e.Hits c err)
    {t : ContextTree} (he : e.Possible t) : c < t.nodes.size := by
  cases h <;> exact he

theorem Event.Possible.parent {e : Event} {t : ContextTree} (he : e.Possible t)
    {p : ContextId} (h : e.parent? = some (some p)) : p < t.nodes.size := by
  cases e with
  | child | childUntil =>
      cases h
      exact he
  | background | cancel | expire => cases h

/-- What a tree shows of the events that made it. -/
structure Recorded (es : List Event) (t : ContextTree) : Prop where
  sound : t.Sound
  size : (parents es).length = t.nodes.size
  smaller : ∀ (c parent : ContextId), (parents es)[c]? = some (some parent) → parent < c
  lineage : ∀ (c a : ContextId), c < t.nodes.size → (a ∈ t.lineage c ↔ Above (parents es) a c)
  made : ∀ (e : Event) (a : ContextId) (err : Error), e ∈ es → e.Hits a err → a < t.nodes.size
  error : ∀ (c : ContextId) (err : Error), c < t.nodes.size →
    (t.error? c = some err ↔ FirstCause es c err)

theorem recorded_nil : Recorded [] empty where
  sound := .empty
  size := rfl
  smaller c parent h := by cases h
  lineage c a hc := by cases hc
  made e a err h := by cases h
  error c err hc := by cases hc

theorem parents_concat (es : List Event) (e : Event) :
    parents (es ++ [e]) = parents es ++ e.parent?.toList := by
  unfold parents
  rw [List.filterMap_append, List.filterMap_cons]
  cases e.parent? <;> rfl

namespace Recorded

variable {es : List Event} {t : ContextTree}

/-- A context is done when an event has hit it or an ancestor of it. -/
theorem isDone_iff (h : Recorded es t) {c : ContextId} (hc : c < t.nodes.size) :
    t.isDone c = true ↔ ∃ e ∈ es, ∃ err, Reaches (parents es) c e err := by
  rw [← exists_firstWith_iff, ← isSome_error?, Option.isSome_iff_exists]
  exact exists_congr fun err => h.error c err hc

/-- No event has hit a new context yet, so it is reached by what reaches its parent. -/
theorem reaches_new_iff (h : Recorded es t) {parent : Option ContextId}
    (hvalid : ∀ p, parent = some p → p < t.nodes.size) {e : Event} (he : e ∈ es) (err : Error) :
    Reaches (parents es ++ [parent]) t.nodes.size e err ↔
      ∃ p, parent = some p ∧ Reaches (parents es) p e err := by
  have hnew (a : ContextId) : Above (parents es ++ [parent]) a t.nodes.size ↔
      a = t.nodes.size ∨ ∃ p, parent = some p ∧ Above (parents es) a p := by
    rw [← h.size]
    exact above_new_iff h.smaller fun p hp => h.size ▸ hvalid p hp
  constructor
  · rintro ⟨a, ha, habove⟩
    obtain rfl | ⟨p, hp, habove⟩ := (hnew a).1 habove
    · exact absurd (h.made e _ err he ha) (Nat.lt_irrefl _)
    · exact ⟨p, hp, a, ha, habove⟩
  · rintro ⟨p, hp, a, ha, habove⟩
    exact ⟨a, ha, (hnew a).2 (.inr ⟨p, hp, habove⟩)⟩

/-- The first cause of a new context is that of its parent. -/
theorem firstWith_new_iff (h : Recorded es t) {parent : Option ContextId}
    (hvalid : ∀ p, parent = some p → p < t.nodes.size) (err : Error) :
    FirstWith (Reaches (parents es ++ [parent]) t.nodes.size) es err ↔
      ∃ p, parent = some p ∧ FirstCause es p err := by
  rw [firstWith_congr fun e he err => h.reaches_new_iff hvalid he err]
  cases parent with
  | none =>
      refine iff_of_false (fun hfirst => ?_) (by simp)
      obtain ⟨-, -, -, p, hp, -⟩ := exists_firstWith_iff.1 ⟨err, hfirst⟩
      cases hp
  | some p => simp [FirstCause]

theorem make (h : Recorded es t) {e : Event} {parent : Option ContextId} (he : e.Possible t)
    (hparent : e.parent? = some parent) (hhits : ∀ a err, ¬ e.Hits a err) :
    Recorded (es ++ [e]) (t.apply e) := by
  have hadds := adds_apply t hparent
  have hps : parents (es ++ [e]) = parents es ++ [parent] := by
    rw [parents_concat, hparent]
    rfl
  have hvalid (p : ContextId) (hp : parent = some p) : p < t.nodes.size :=
    he.parent (hp ▸ hparent)
  have hvalid' (p : ContextId) (hp : parent = some p) : p < (parents es).length :=
    h.size ▸ hvalid p hp
  have hold {c : ContextId} (hc : c < t.nodes.size) (a : ContextId) :
      Above (parents (es ++ [e])) a c ↔ Above (parents es) a c := by
    rw [hps]
    exact above_append_iff h.smaller (h.size ▸ hc) _
  have hlt {c : ContextId} (hc : c < (t.apply e).nodes.size) (hne : c ≠ t.nodes.size) :
      c < t.nodes.size := by
    rw [hadds.size] at hc
    exact Nat.lt_of_le_of_ne (Nat.le_of_lt_succ hc) hne
  refine ⟨h.sound.adds hadds hvalid, ?_, fun c p hc => ?_, fun c a hc => ?_,
    fun e' a err he' hhit => ?_, fun c err hc => ?_⟩
  · rw [hps, List.length_append, h.size, hadds.size]
    rfl
  · exact smaller_concat h.smaller hvalid' (hps ▸ hc)
  · by_cases heq : c = t.nodes.size
    · rw [heq, hadds.new, hps, ← h.size, above_new_iff h.smaller hvalid', h.size, List.mem_cons]
      refine or_congr_right ?_
      cases hp : parent with
      | none => simp [upward]
      | some p => simp [upward, h.lineage p a (hvalid p hp)]
    · rw [hadds.old c heq, h.lineage c a (hlt hc heq), hold (hlt hc heq)]
  · rw [hadds.size]
    obtain he' | he' := List.mem_append.1 he'
    · exact Nat.lt_succ_of_lt (h.made e' a err he' hhit)
    · obtain rfl := List.mem_singleton.1 he'
      exact absurd hhit (hhits a err)
  · have hnot (c : ContextId) (err : Error) : ¬ Reaches (parents (es ++ [e])) c e err := by
      rintro ⟨a, ha, -⟩
      exact hhits a err ha
    unfold FirstCause
    rw [firstWith_append_singleton, or_iff_left fun hlast => hnot c err hlast.2]
    by_cases heq : c = t.nodes.size
    · rw [heq, hadds.error?_new, hps, h.firstWith_new_iff hvalid, errorAmong_upward,
        Option.bind_eq_some_iff]
      exact exists_congr fun p => and_congr_right fun hp => h.error p err (hvalid p hp)
    · rw [hadds.error?_old heq, h.error c err (hlt hc heq)]
      exact firstWith_congr fun e' _ err' =>
        exists_congr fun a => and_congr_right fun _ => (hold (hlt hc heq) a).symm

theorem hit (h : Recorded es t) {e : Event} {d : ContextId} {err : Error}
    (hnone : e.parent? = none) (hhit : e.Hits d err) (hd : d < t.nodes.size) :
    Recorded (es ++ [e]) (t.hitWith d err) := by
  have hps : parents (es ++ [e]) = parents es := by
    rw [parents_concat, hnone]
    exact List.append_nil _
  have hsize : (t.hitWith d err).nodes.size = t.nodes.size := by
    rw [nodes_hitWith, Array.size_modify]
  refine ⟨h.sound.hitWith hd err, ?_, ?_, fun c a hc => ?_, fun e' a err' he' hhit' => ?_,
    fun c err' hc => ?_⟩
  · rw [hps, hsize, h.size]
  · rw [hps]
    exact h.smaller
  · rw [hsize] at hc
    rw [hps, lineage_hitWith]
    exact h.lineage c a hc
  · rw [hsize]
    obtain he' | he' := List.mem_append.1 he'
    · exact h.made e' a err' he' hhit'
    · obtain rfl := List.mem_singleton.1 he'
      obtain ⟨rfl, -⟩ := hhit.unique hhit'
      exact hd
  · rw [hsize] at hc
    have hfirst : t.error? c = some err' ↔ FirstWith (Reaches (parents es) c) es err' :=
      h.error c err' hc
    unfold FirstCause
    rw [hps, firstWith_append_singleton, ← hfirst]
    have hlast : Reaches (parents es) c e err' ↔ err = err' ∧ d ∈ t.lineage c := by
      constructor
      · rintro ⟨a, ha, habove⟩
        obtain ⟨rfl, rfl⟩ := hhit.unique ha
        exact ⟨rfl, (h.lineage c d hc).2 habove⟩
      · rintro ⟨rfl, hmem⟩
        exact ⟨d, hhit, (h.lineage c d hc).1 hmem⟩
    by_cases hmem : d ∈ t.lineage c
    · rw [h.sound.error?_hitWith hmem]
      cases hdone : t.isDone c with
      | true =>
          obtain ⟨err₀, herr₀⟩ := Option.isSome_iff_exists.1 ((isSome_error? t c).trans hdone)
          obtain ⟨e', he', err'', hr⟩ := (h.isDone_iff hc).1 hdone
          rw [herr₀, or_iff_left fun hall => hall.1 e' he' err'' hr, Option.getD_some]
      | false =>
          have hnone : t.error? c = none :=
            Option.not_isSome_iff_eq_none.1 (by rw [isSome_error?, hdone]; exact Bool.false_ne_true)
          have hall (e' : Event) (he' : e' ∈ es) (err'' : Error) :
              ¬ Reaches (parents es) c e' err'' := fun hr => by
            rw [(h.isDone_iff hc).2 ⟨e', he', err'', hr⟩] at hdone
            cases hdone
          rw [hnone, or_iff_right (by simp), and_iff_right hall, hlast, and_iff_left hmem]
          exact Option.some_inj
    · rw [(agrees_hitWith hmem err).error, or_iff_left fun hall => hmem (hlast.1 hall.2).2]

end Recorded

theorem Builds.recorded {es : List Event} {t : ContextTree} (h : Builds es t) :
    Recorded es t := by
  induction h with
  | nil => exact recorded_nil
  | @snoc es t e _ he ih =>
      obtain ⟨parent, hparent, hhits⟩ | ⟨c, err, hnone, hhit⟩ := e.makes_or_hits
      · exact ih.make he hparent hhits
      · rw [hhit.apply]
        exact ih.hit hnone hhit (hhit.possible he)

theorem parents_append (es later : List Event) :
    parents (es ++ later) = parents es ++ parents later := List.filterMap_append

/-- A first cause stays the first. -/
theorem FirstCause.append {es : List Event} {t : ContextTree} (h : Recorded es t) {c : ContextId}
    (hc : c < t.nodes.size) {err : Error} (hfirst : FirstCause es c err) (later : List Event) :
    FirstCause (es ++ later) c err := by
  have hcongr : FirstWith (Reaches (parents (es ++ later)) c) es err :=
    (firstWith_congr fun e _ err' => exists_congr fun a => and_congr_right fun _ => by
      rw [parents_append]
      exact above_append_iff h.smaller (h.size ▸ hc) _).2 hfirst
  exact hcongr.append later

/-- A context is done when it or a context above it was hit, in whatever order contexts were made
and hit, and its error is the cause of the earliest such hit. Later events leave an error as it is,
and a hit leaves the contexts alone that are not below. -/
theorem error?_eq_earliest {es : List Event} {t : ContextTree} (h : Builds es t) {c : ContextId}
    (hc : c < (parents es).length) :
    (t.isDone c = true ↔ ∃ e ∈ es, ∃ err, Reaches (parents es) c e err) ∧
      (t.error? c = none ↔ t.isDone c = false) ∧
      (∀ err, t.error? c = some err ↔ FirstCause es c err) ∧
      (∀ (later : List Event) (u : ContextTree) (err : Error), Builds (es ++ later) u →
        t.error? c = some err → u.error? c = some err) ∧
      ∀ (e : Event) (d : ContextId) (err : Error), e.Possible t → e.Hits d err →
        ¬ Above (parents es) d c →
          (t.apply e).isDone c = t.isDone c ∧ (t.apply e).error? c = t.error? c := by
  have hrec := h.recorded
  rw [hrec.size] at hc
  refine ⟨hrec.isDone_iff hc, ?_, fun err => hrec.error c err hc, fun later u err hu herr => ?_,
    fun e d err he hhit hnot => ?_⟩
  · rw [← isSome_error?, Option.isSome_eq_false_iff, Option.isNone_iff_eq_none]
  · have hrec' := hu.recorded
    have hc' : c < u.nodes.size := by
      rw [← hrec.size] at hc
      rw [← hrec'.size, parents_append, List.length_append]
      exact Nat.lt_add_right _ hc
    exact (hrec'.error c err hc').2 (((hrec.error c err hc).1 herr).append hrec hc later)
  · rw [hhit.apply]
    have hagrees := agrees_hitWith (fun hmem => hnot ((hrec.lineage c d hc).1 hmem)) err
    exact ⟨hagrees.isDone, hagrees.error⟩

/-- A deadline comes before a cancellation further up, and a child is made after both. -/
def lateChildEvents : List Event :=
  [.background, .childUntil 0 1000, .expire 1, .cancel 0, .child 1, .cancel 2]

theorem error?_eq_earliest_lateChildRun :
    ∃ t, Builds lateChildEvents t ∧ t.error? 0 = some .canceled ∧
      FirstCause lateChildEvents 2 .deadlineExceeded ∧
      ∀ (later : List Event) (u : ContextTree), Builds (lateChildEvents ++ later) u →
        u.error? 2 = some .deadlineExceeded := by
  have htimeout : Builds [.background, .childUntil 0 1000] _ :=
    .snoc (.snoc .nil (by decide)) (by decide)
  have hhits : Builds [.background, .childUntil 0 1000, .expire 1, .cancel 0] _ :=
    .snoc (.snoc htimeout (by decide)) (by decide)
  have hbuilds : Builds lateChildEvents _ := .snoc (.snoc hhits (by decide)) (by decide)
  obtain ⟨-, -, hfirst, hlater, -⟩ := error?_eq_earliest hbuilds (c := 2) (by decide)
  exact ⟨_, hbuilds, rfl, (hfirst _).1 rfl, fun later u hu => hlater later u _ hu rfl⟩

end Scheduling.ContextTree
