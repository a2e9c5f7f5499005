import Scheduling.Proofs.Lists
import Scheduling.Proofs.Schedules
/-!
# Expressions of five words

An expression of five words is read with a `0` for the seconds in front. Fields need no blank
between them, and a number takes the blanks behind it along, so the `0` is a field of its own only
if the first word cannot go on from it. A word that begins with `-`, `/` or `,` makes the `0` the
beginning of a range, of a stepped item or of a list.
-/

namespace Scheduling

/-! ## Trimmed text -/

namespace Text

theorem head?_trim {s : List Char} {c : Char} (h : (trim s).head? = some c) :
    isBlank c = false := by
  have hprefix : trim s <+: s.dropWhile isBlank := by
    have hsuffix := List.dropWhile_suffix isBlank (l := (s.dropWhile isBlank).reverse)
    exact List.reverse_reverse (s.dropWhile isBlank) ▸ List.reverse_prefix.2 hsuffix
  obtain ⟨rest, hrest⟩ := hprefix
  have hhead : (s.dropWhile isBlank).head? = some c := by
    rw [← hrest, List.head?_append, h, Option.some_or]
  have hnot := List.head?_dropWhile_not isBlank s
  rw [hhead] at hnot
  exact hnot

theorem isBlank_of_grammar {c : Char} (h : Cron.Grammar.isBlank c = true) : isBlank c = true := by
  simp only [Cron.Grammar.isBlank, Bool.or_eq_true, beq_iff_eq] at h
  obtain ((rfl | rfl) | rfl) | rfl := h <;> rfl

end Text

namespace Cron

/-! ## The values of an item -/

namespace Progression

theorem contains_iff {p : Progression} {v : Nat} :
    p.contains v = true ↔ p.first ≤ v ∧ v ≤ p.last ∧ (v - p.first) % p.step = 0 := by
  simp [contains, and_assoc]

/-- The values are in order and the step leads on. -/
structure Proper (p : Progression) : Prop where
  le : p.first ≤ p.last
  step : 0 < p.step

theorem contains_first {p : Progression} (h : p.Proper) : p.contains p.first = true := by
  rw [contains_iff, Nat.sub_self, Nat.zero_mod]
  exact ⟨Nat.le_refl _, h.le, rfl⟩

/-- There is nothing but 0 if the values begin there and the step leads beyond their end. -/
theorem contains_only_zero_iff {p : Progression} (h : p.Proper) :
    (∀ v, p.contains v = true → v = 0) ↔ p.first = 0 ∧ p.last < p.step := by
  refine ⟨fun hall => ?_, fun honly v hv => ?_⟩
  · have hfirst := hall p.first (contains_first h)
    refine ⟨hfirst, Nat.not_le.1 fun hle => ?_⟩
    have hstep : p.contains p.step = true := by
      rw [contains_iff, hfirst, Nat.sub_zero, Nat.mod_self]
      exact ⟨Nat.zero_le _, hle, rfl⟩
    exact Nat.ne_of_gt h.step (hall p.step hstep)
  · obtain ⟨-, hle, hmod⟩ := contains_iff.1 hv
    rw [honly.1, Nat.sub_zero, Nat.mod_eq_of_lt (Nat.lt_of_le_of_lt hle honly.2)] at hmod
    exact hmod

end Progression

section Values

variable {f : Field} {i : Item} {items : List Item} {p : Progression} {values : List Nat}

theorem Field.valueOf?_le {name : List Char} {v : Nat} (h : f.valueOf? name = some v) :
    v ≤ f.last := by
  have hall : ∀ entry ∈ f.names, entry.2 ≤ f.last := by cases f <;> decide
  obtain ⟨before, after, hnames, -⟩ := List.lookup_eq_some_iff.1 h
  exact hall (_, v) (hnames ▸ List.mem_append_right _ List.mem_cons_self)

theorem Span.bounds?_between {low high : Nat} {b : Nat × Nat}
    (h : (Span.between low high).bounds? f = some b) :
    b = (low, high) ∧ low ≤ high ∧ high ≤ f.last := by
  rw [Span.bounds?] at h
  split at h
  · rename_i hle
    cases h
    exact ⟨rfl, hle.2⟩
  · cases h

theorem Span.bounds?_at {value : Nat} {b : Nat × Nat} (h : (Span.at value).bounds? f = some b) :
    b = (value, value) ∧ value ≤ f.last := by
  rw [Span.bounds?] at h
  split at h
  · rename_i hle
    cases h
    exact ⟨rfl, hle.2⟩
  · cases h

theorem Span.le_of_bounds? {span : Span} {b : Nat × Nat} (h : span.bounds? f = some b) :
    b.1 ≤ b.2 ∧ b.2 ≤ f.last := by
  cases span with
  | every =>
      cases h
      cases f <;> decide
  | between low high =>
      obtain ⟨rfl, hle⟩ := Span.bounds?_between h
      exact hle
  | «at» value =>
      obtain ⟨rfl, hle⟩ := Span.bounds?_at h
      exact ⟨Nat.le_refl _, hle⟩
  | betweenNames low high =>
      rw [Span.bounds?] at h
      split at h
      · rename_i hlow hhigh
        split at h
        · rename_i hle
          cases h
          exact ⟨hle, Field.valueOf?_le hhigh⟩
        · cases h
      · cases h

/-- An item that has a meaning stands for values in order. -/
theorem Item.proper_of_values? (h : i.values? f = some p) : p.Proper ∧ p.last ≤ f.last := by
  unfold Item.values? at h
  split at h
  · split at h
    · rename_i hstep
      obtain ⟨b, hb, rfl⟩ := Option.map_eq_some_iff.1 h
      have hle := Span.le_of_bounds? hb
      exact ⟨⟨Nat.le_trans hle.1 hle.2, hstep⟩, Nat.le_refl _⟩
    · cases h
  · split at h
    · rename_i hstep
      obtain ⟨b, hb, rfl⟩ := Option.map_eq_some_iff.1 h
      have hle := Span.le_of_bounds? hb
      exact ⟨⟨hle.1, hstep⟩, hle.2⟩
    · cases h
  · obtain ⟨b, hb, rfl⟩ := Option.map_eq_some_iff.1 h
    have hle := Span.le_of_bounds? hb
    exact ⟨⟨hle.1, Nat.one_pos⟩, hle.2⟩
  · obtain ⟨v, hv, rfl⟩ := Option.map_eq_some_iff.1 h
    exact ⟨⟨Nat.le_refl _, Nat.one_pos⟩, Field.valueOf?_le hv⟩

/-- The stretch of an item that has one. -/
def Item.span? : Item → Option Span
  | stepped span _ => some span
  | plain span => some span
  | named _ => none

/-- An item begins where its stretch does, with a step or without one. -/
theorem Item.first_of_values? {span : Span} (hspan : i.span? = some span)
    (h : i.values? f = some p) : ∃ b, span.bounds? f = some b ∧ p.first = b.1 := by
  unfold Item.values? at h
  split at h
  · cases hspan
    split at h
    · obtain ⟨b, hb, rfl⟩ := Option.map_eq_some_iff.1 h
      exact ⟨b, hb, rfl⟩
    · cases h
  · cases hspan
    split at h
    · obtain ⟨b, hb, rfl⟩ := Option.map_eq_some_iff.1 h
      exact ⟨b, hb, rfl⟩
    · cases h
  · cases hspan
    obtain ⟨b, hb, rfl⟩ := Option.map_eq_some_iff.1 h
    exact ⟨b, hb, rfl⟩
  · cases hspan

/-- A field allows the values that its items stand for. -/
theorem Field.mem_allowed? (h : f.allowed? items = some values) :
    (∀ i ∈ items, ∃ p, i.values? f = some p) ∧ ∀ v, v ∈ values ↔
      v ∈ f.range ∧ ∃ i ∈ items, ∃ p, i.values? f = some p ∧ p.contains v = true := by
  obtain ⟨ps, hps, rfl⟩ := Option.map_eq_some_iff.1 h
  obtain ⟨hto, hfrom⟩ := mem_of_mapM hps
  refine ⟨fun i hi => ?_, fun v => ?_⟩
  · obtain ⟨p, -, hp⟩ := hto i hi
    exact ⟨p, hp⟩
  · rw [List.mem_filter, List.any_eq_true]
    refine and_congr_right' ⟨fun hany => ?_, fun hitem => ?_⟩
    · obtain ⟨p, hp, hv⟩ := hany
      obtain ⟨i, hi, hvalues⟩ := hfrom p hp
      exact ⟨i, hi, p, hvalues, hv⟩
    · obtain ⟨i, hi, p, hp, hv⟩ := hitem
      obtain ⟨q, hq, hvalues⟩ := hto i hi
      obtain rfl : p = q := Option.some.inj (hp.symm.trans hvalues)
      exact ⟨p, hq, hv⟩

/-- A field that begins at 0 and has some item that stands for 0 allows 0 alone exactly if no item
leads beyond it. -/
theorem Field.allowed?_eq_zero_iff (hfirst : f.first = 0) (h : f.allowed? items = some values)
    (hzero : 0 ∈ values) : values = [0] ↔
      ∀ i ∈ items, ∃ last step, i.values? f = some ⟨0, last, step⟩ ∧ last < step := by
  obtain ⟨hmeaning, hmem⟩ := Field.mem_allowed? h
  have hsorted : values.Pairwise (· < ·) := by
    obtain ⟨ps, -, rfl⟩ := Option.map_eq_some_iff.1 h
    exact f.pairwise_range.filter _
  refine ⟨fun heq i hi => ?_, fun hall => eq_singleton_of_pairwise hsorted fun v => ?_⟩
  · obtain ⟨p, hp⟩ := hmeaning i hi
    obtain ⟨hproper, hlast⟩ := Item.proper_of_values? hp
    have honly := (Progression.contains_only_zero_iff hproper).1 fun v hv => by
      have hrange : v ∈ f.range := by
        rw [Field.mem_range, hfirst]
        exact ⟨Nat.zero_le v, Nat.le_trans (Progression.contains_iff.1 hv).2.1 hlast⟩
      have hv' : v ∈ values := (hmem v).2 ⟨hrange, i, hi, p, hp, hv⟩
      rw [heq] at hv'
      exact List.mem_singleton.1 hv'
    obtain ⟨first, last, step⟩ := p
    obtain ⟨rfl, hlt⟩ : first = 0 ∧ last < step := honly
    exact ⟨last, step, hp, hlt⟩
  · refine ⟨fun hv => ?_, fun hv => hv ▸ hzero⟩
    obtain ⟨-, i, hi, p, hp, hcontains⟩ := (hmem v).1 hv
    obtain ⟨last, step, hvalues, hlt⟩ := hall i hi
    obtain rfl : p = ⟨0, last, step⟩ := Option.some.inj (hp.symm.trans hvalues)
    have hproper := (Item.proper_of_values? hp).1
    exact (Progression.contains_only_zero_iff hproper).2 ⟨rfl, hlt⟩ v hcontains

end Values

/-! ## Reading on from the 0 -/

namespace Grammar

variable {c : Char} {mark : Bool} {s r rest : List Char} {sp : Span}

theorem skipBlanks_cons (h : isBlank c = false) : skipBlanks (c :: rest) = c :: rest := by
  rw [skipBlanks, List.dropWhile_cons, h]
  rfl

theorem number_zero (h : isBlank c = false) :
    number ('0' :: ' ' :: c :: rest) = some (0, c :: rest) := by
  have hrun : run Char.isDigit ('0' :: ' ' :: c :: rest) = some (['0'], skipBlanks (c :: rest)) :=
    rfl
  rw [number, hrun, skipBlanks_cons h]
  rfl

/-- From the 0 on a hyphen begins a range, if a number follows it. -/
theorem span_zero (h : isBlank c = false) (rest : List Char) : ∃ sp r,
    span false ('0' :: ' ' :: c :: rest) = some (sp, r) ∧
      (sp = .at 0 ∧ r = c :: rest ∨ c = '-' ∧ ∃ high, sp = .between 0 high) := by
  have hspan : span false ('0' :: ' ' :: c :: rest) = boundedSpan ('0' :: ' ' :: c :: rest) := rfl
  rw [hspan, boundedSpan]
  cases hrange : range number ('0' :: ' ' :: c :: rest) with
  | none =>
      rw [number_zero h]
      exact ⟨_, _, rfl, .inl ⟨rfl, rfl⟩⟩
  | some found =>
      obtain ⟨low, high, r⟩ := found
      rw [range, number_zero h] at hrange
      split at hrange
      · rename_i heq
        cases heq
        split at hrange
        · cases hrange
          exact ⟨_, _, rfl, .inr ⟨rfl, high, rfl⟩⟩
        · cases hrange
      · cases hrange

/-- Behind a stretch a slash begins a step, if a number follows it. -/
theorem item_of_span (h : span mark s = some (sp, r)) : ∃ i r',
    item mark s = some (i, r') ∧ i.span? = some sp ∧
      (i = .plain sp ∧ r' = r ∨ i ≠ .plain sp ∧ r.head? = some '/') := by
  unfold item
  rw [h]
  split
  · rename_i heq
    cases heq
    split
    · exact ⟨_, _, rfl, rfl, .inr ⟨Item.noConfusion, rfl⟩⟩
    · exact ⟨_, _, rfl, rfl, .inl ⟨rfl, rfl⟩⟩
  · rename_i heq
    cases heq
    exact ⟨_, _, rfl, rfl, .inl ⟨rfl, rfl⟩⟩
  · rename_i heq
    cases heq

theorem item_zero (h : isBlank c = false) (rest : List Char) : ∃ i r,
    item false ('0' :: ' ' :: c :: rest) = some (i, r) ∧
      (∀ f p, i.values? f = some p → p.first = 0) ∧
      (i = .plain (.at 0) ∧ r = c :: rest ∨ i ≠ .plain (.at 0) ∧ c ∈ ['-', '/']) := by
  obtain ⟨sp, r, hspan, hcases⟩ := span_zero h rest
  obtain ⟨i, r', hitem, hsp, hstep⟩ := item_of_span hspan
  refine ⟨i, r', hitem, fun f p hp => ?_, ?_⟩
  · obtain ⟨b, hb, hfirst⟩ := Item.first_of_values? hsp hp
    rw [hfirst]
    obtain ⟨rfl, -⟩ | ⟨-, high, rfl⟩ := hcases
    · rw [(Span.bounds?_at hb).1]
    · rw [(Span.bounds?_between hb).1]
  · obtain ⟨rfl, rfl⟩ | ⟨rfl, high, rfl⟩ := hcases
    · refine hstep.imp id fun h => ⟨h.1, ?_⟩
      obtain rfl : c = '/' := Option.some.inj h.2
      decide
    · refine .inr ⟨?_, by decide⟩
      rintro rfl
      cases hsp

/-- A list ends where no comma stands, or none that an item follows. -/
theorem moreItems_cases (mark : Bool) (s : List Char) :
    moreItems mark s = ([], s) ∨ (moreItems mark s).1 ≠ [] ∧ s.head? = some ',' := by
  unfold moreItems
  split
  · split
    · exact .inr ⟨List.cons_ne_nil _ _, rfl⟩
    · exact .inl rfl
  · exact .inl rfl

/-- The list of items that the 0 begins. -/
theorem items_zero (h : isBlank c = false) (rest : List Char) : ∃ i more r,
    items .seconds ('0' :: ' ' :: c :: rest) = some (i :: more, r) ∧
      (∀ f p, i.values? f = some p → p.first = 0) ∧
      (i :: more = [.plain (.at 0)] ∧ r = c :: rest ∨
        i :: more ≠ [.plain (.at 0)] ∧ c ∈ ['-', '/', ',']) := by
  obtain ⟨i, r, hitem, hfirst, hcases⟩ := item_zero h rest
  have hitems : items .seconds ('0' :: ' ' :: c :: rest) =
      some (i :: (moreItems false r).1, skipBlanks (moreItems false r).2) := by
    have hskip : skipBlanks ('0' :: ' ' :: c :: rest) = '0' :: ' ' :: c :: rest := rfl
    have hmark : Field.seconds.hasBlankMark = false := rfl
    rw [items, hskip, hmark, hitem]
  refine ⟨i, _, _, hitems, hfirst, ?_⟩
  obtain ⟨rfl, rfl⟩ | ⟨hne, hc⟩ := hcases
  · obtain hnil | ⟨hne, hhead⟩ := moreItems_cases false (c :: rest)
    · rw [hnil, skipBlanks_cons h]
      exact .inl ⟨rfl, rfl⟩
    · refine .inr ⟨fun heq => hne (List.cons.inj heq).2, ?_⟩
      obtain rfl : c = ',' := Option.some.inj hhead
      decide
  · exact .inr ⟨fun heq => hne (List.cons.inj heq).1,
      List.mem_append_left [','] hc⟩

/-- No field begins with one of the marks that go on from a number. -/
theorem field?_eq_none (f : Field) (h : c ∈ ['-', '/', ',']) :
    Schedule.field? f (c :: rest) = none := by
  have hblank : isBlank c = false := by
    simp only [List.mem_cons, List.not_mem_nil, or_false] at h
    obtain rfl | rfl | rfl := h <;> rfl
  have hitem : item f.hasBlankMark (c :: rest) = none := by
    simp only [List.mem_cons, List.not_mem_nil, or_false] at h
    obtain rfl | rfl | rfl := h <;> rfl
  rw [Schedule.field?, items, skipBlanks_cons hblank, hitem]

end Grammar

/-! ## The seconds of five words -/

namespace Schedule

variable {s : Schedule} {expression : String}

/-- Every shorthand begins with the same mark. -/
theorem ofShorthand?_eq_none {c : Char} (hblank : Grammar.isBlank c = false) (hc : c ≠ '@')
    (rest : List Char) : ofShorthand? (c :: rest) = none := by
  have hmark : ∀ word ∈ shorthands, word.1.toList.head? = some '@' := by decide
  rw [ofShorthand?, Grammar.skipBlanks_cons hblank, List.findSome?_eq_none_iff]
  intro word hword
  dsimp only
  rw [if_neg]
  rintro ⟨htake, -⟩
  have hhead := hmark word hword
  rw [← htake, List.head?_take] at hhead
  split at hhead
  · cases hhead
  · exact hc (Option.some.inj hhead)

/-- An expression of five words is read as the 0 and the first character of a word, with what is
behind it. -/
theorem normalize_of_five (hwords : Text.wordCount (Text.trim expression.toList) = 5) :
    ∃ c rest, (Text.trim expression.toList).head? = some c ∧ Grammar.isBlank c = false ∧
      normalize expression.toList = '0' :: ' ' :: c :: rest := by
  have hnormalize : normalize expression.toList = '0' :: ' ' :: Text.trim expression.toList :=
    if_pos hwords
  cases htrim : Text.trim expression.toList with
  | nil =>
      rw [htrim] at hwords
      cases hwords
  | cons c rest =>
      have hblank : Text.isBlank c = false := Text.head?_trim (htrim ▸ List.head?_cons)
      refine ⟨c, rest, rfl, Bool.eq_false_iff.2 fun h => ?_, htrim ▸ hnormalize⟩
      rw [Text.isBlank_of_grammar h] at hblank
      cases hblank

theorem field?_of_five (hread : Schedule.parse expression = .ok s) {rest : List Char}
    (hnormalize : normalize expression.toList = '0' :: rest) : ∃ r minutes r',
      field? .seconds ('0' :: rest) = some (s.seconds, r) ∧
        field? .minutes r = some (minutes, r') := by
  unfold parse at hread
  split at hread
  · rename_i hexpression
    cases hread
    rw [ofExpression?, hnormalize, ofNormalized?,
      ofShorthand?_eq_none rfl (by decide)] at hexpression
    simp only [ofFields?, Option.bind_eq_bind, Option.bind_eq_some_iff, Prod.exists,
      Option.pure_def, Option.some.injEq] at hexpression
    obtain ⟨seconds, r, hseconds, minutes, r', hminutes, hours, _, -, days, _, -, months, _, -,
      weekdays, _, -, years, -, rfl⟩ := hexpression
    exact ⟨r, minutes, r', hseconds, hminutes⟩
  · cases hread

/-- The first word begins with a mark that goes on from a number before it. -/
def GoesOn (expression : String) : Prop :=
  ∃ c ∈ (Text.trim expression.toList).head?, c ∈ ['-', '/', ',']

/-- An expression of five words allows second 0 in any case, and no other second if its first word
cannot go on from the 0. Otherwise the 0 begins a longer list, and it is the only second exactly if
no item of that list leads on from 0. -/
theorem seconds_eq_zero_iff (hread : Schedule.parse expression = .ok s)
    (hwords : Text.wordCount (Text.trim expression.toList) = 5) :
    (¬ GoesOn expression → s.seconds = [0]) ∧ 0 ∈ s.seconds ∧
      ∃ items rest, Grammar.items .seconds (normalize expression.toList) = some (items, rest) ∧
        (items = [.plain (.at 0)] ↔ ¬ GoesOn expression) ∧
        (s.seconds = [0] ↔ ∀ i ∈ items, ∃ last step,
          i.values? .seconds = some ⟨0, last, step⟩ ∧ last < step) := by
  obtain ⟨c, rest, hhead, hblank, hnormalize⟩ := normalize_of_five hwords
  obtain ⟨r, minutes, r', hseconds, hminutes⟩ := field?_of_five hread hnormalize
  obtain ⟨i, more, r₁, hitems, hfirst, hcases⟩ := Grammar.items_zero hblank rest
  have hgoes : GoesOn expression ↔ c ∈ ['-', '/', ','] := by
    rw [GoesOn, hhead]
    refine ⟨fun hmark => ?_, fun h => ⟨c, rfl, h⟩⟩
    obtain ⟨d, hd, hmem⟩ := hmark
    exact Option.some.inj hd ▸ hmem
  rw [field?, hitems] at hseconds
  obtain ⟨values, hvalues, hpair⟩ := Option.map_eq_some_iff.1 hseconds
  obtain ⟨rfl, rfl⟩ := Prod.mk.inj hpair
  have hzero : 0 ∈ s.seconds := by
    obtain ⟨hmeaning, hmem⟩ := Field.mem_allowed? hvalues
    obtain ⟨p, hp⟩ := hmeaning i List.mem_cons_self
    refine (hmem 0).2 ⟨by decide, i, List.mem_cons_self, p, hp, ?_⟩
    exact hfirst .seconds p hp ▸ Progression.contains_first (Item.proper_of_values? hp).1
  have hiff := Field.allowed?_eq_zero_iff rfl hvalues hzero
  have halone : i :: more = [.plain (.at 0)] ↔ ¬ GoesOn expression := by
    rw [hgoes]
    obtain ⟨hone, rfl⟩ | ⟨hne, hmark⟩ := hcases
    · refine iff_of_true hone fun hmark => ?_
      rw [Grammar.field?_eq_none .minutes hmark] at hminutes
      cases hminutes
    · exact iff_of_false hne (not_not_intro hmark)
  refine ⟨fun h => hiff.2 fun j hj => ?_, hzero, i :: more, _, hnormalize ▸ hitems, halone, hiff⟩
  rw [halone.2 h, List.mem_singleton] at hj
  exact hj ▸ ⟨0, 1, rfl, Nat.one_pos⟩

/-- A step that leads beyond the range goes on from the 0 and adds nothing to it. -/
theorem seconds_eq_zero_longStep : Text.wordCount (Text.trim " ,0-30/60 9 * * **".toList) = 5 ∧
    ∃ s, Schedule.parse " ,0-30/60 9 * * **" = .ok s ∧ GoesOn " ,0-30/60 9 * * **" ∧
      s.seconds = [0] := by
  have hwords : Text.wordCount (Text.trim " ,0-30/60 9 * * **".toList) = 5 := by decide
  obtain ⟨s, hread, -⟩ := exists_of_parse " ,0-30/60 9 * * **" (fun _ => true) (by decide +kernel)
  obtain ⟨-, -, items, rest, hitems, -, hiff⟩ := seconds_eq_zero_iff hread hwords
  have hlist : Grammar.items .seconds (normalize " ,0-30/60 9 * * **".toList) = some
      ([.plain (.at 0), .stepped (.between 0 30) 60], "9 * * **".toList) := by
    decide +kernel
  obtain ⟨rfl, -⟩ := Prod.mk.inj (Option.some.inj (hitems.symm.trans hlist))
  refine ⟨hwords, s, hread, ⟨',', by decide, by decide⟩, hiff.2 fun i hi => ?_⟩
  simp only [List.mem_cons, List.not_mem_nil, or_false] at hi
  obtain rfl | rfl := hi
  · exact ⟨0, 1, rfl, by decide⟩
  · exact ⟨30, 60, rfl, by decide⟩

/-- Five words that fire in six seconds of every minute. -/
theorem seconds_range_from_zero : Text.wordCount (Text.trim "-5 * * * **".toList) = 5 ∧
    ∃ s, Schedule.parse "-5 * * * **" = .ok s ∧ s.seconds = [0, 1, 2, 3, 4, 5] := by
  obtain ⟨s, hread, hs⟩ := exists_of_parse "-5 * * * **" (fun s => s.seconds == [0, 1, 2, 3, 4, 5])
    (by decide +kernel)
  exact ⟨by decide, s, hread, beq_iff_eq.1 hs⟩

end Schedule

end Cron

end Scheduling
