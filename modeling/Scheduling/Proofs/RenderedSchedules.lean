import Mathlib.Data.List.Sort
import Scheduling.Proofs.Digits
import Scheduling.Proofs.FiveWords
/-!
# Schedules written out

The allowed values of a schedule, written out as one list of numbers for each field, are an
expression for the same values, whatever the expression was that the schedule was read from. The
seven lists are seven words, so nothing is put in front of them. A number takes the blank behind it
along, so that each list ends right before the first digit of the next one.
-/

namespace Scheduling

/-! ## Words -/

namespace Text

variable {s : List Char} {c : Char}

/-- No blank stands at either end of a text. -/
structure Trimmed (s : List Char) : Prop where
  front : Clear isBlank s
  back : Clear isBlank s.reverse

theorem trim_of_trimmed (h : Trimmed s) : trim s = s := by
  rw [trim, dropWhile_of_clear h.front, dropWhile_of_clear h.back, List.reverse_reverse]

theorem trimmed_trim (s : List Char) : Trimmed (trim s) where
  front _ hc := head?_trim hc
  back := by
    rw [trim, List.reverse_reverse]
    exact clear_dropWhile _ _

theorem trim_trim (s : List Char) : trim (trim s) = trim s := trim_of_trimmed (trimmed_trim s)

/-- What stands between does not matter. -/
theorem trimmed_append {s t : List Char} (hs : s ≠ []) (hfront : Clear isBlank s) (ht : t ≠ [])
    (hback : Clear isBlank t.reverse) (between : List Char) : Trimmed (s ++ between ++ t) where
  front := by
    obtain ⟨c, cs, rfl⟩ := List.exists_cons_of_ne_nil hs
    rw [List.cons_append, List.cons_append, clear_cons]
    exact clear_cons.1 hfront
  back := by
    obtain ⟨c, cs, hrev⟩ := List.exists_cons_of_ne_nil (mt List.reverse_eq_nil_iff.1 ht)
    rw [hrev, clear_cons] at hback
    rw [List.reverse_append, hrev, List.cons_append, clear_cons]
    exact hback

theorem Trimmed.cons_zero (h : Trimmed s) (hs : s ≠ []) : Trimmed ('0' :: ' ' :: s) :=
  trimmed_append (s := ['0']) (List.cons_ne_nil _ _) (clear_cons.2 rfl) hs h.back [' ']

theorem wordCount_cons_zero (s : List Char) : wordCount ('0' :: ' ' :: s) = wordCount s + 1 := rfl

theorem wordsAfter_true_append {word rest : List Char} (hword : ∀ c ∈ word, isBlank c = false) :
    wordsAfter true (word ++ rest) = wordsAfter true rest := by
  induction word with
  | nil => rfl
  | cons c word ih =>
      rw [List.cons_append, wordsAfter, hword c List.mem_cons_self]
      exact ih fun c hc => hword c (List.mem_cons_of_mem _ hc)

/-- A word counts once. -/
theorem wordCount_append {word : List Char} (hne : word ≠ [])
    (hword : ∀ c ∈ word, isBlank c = false) (rest : List Char) :
    wordCount (word ++ rest) = wordsAfter true rest + 1 := by
  obtain ⟨c, cs, rfl⟩ := List.exists_cons_of_ne_nil hne
  rw [List.cons_append, wordCount, wordsAfter, hword c List.mem_cons_self]
  exact congrArg (· + 1) (wordsAfter_true_append fun c hc => hword c (List.mem_cons_of_mem _ hc))

/-- Words with a blank between them are as many as they are. -/
theorem wordCount_intercalate {words : List (List Char)} (hne : ∀ word ∈ words, word ≠ [])
    (hwords : ∀ word ∈ words, ∀ c ∈ word, isBlank c = false) :
    wordCount ([' '].intercalate words) = words.length := by
  induction words with
  | nil => rfl
  | cons word words ih =>
      have hcount (rest : List Char) : wordCount (word ++ rest) = wordsAfter true rest + 1 :=
        wordCount_append (hne word List.mem_cons_self) (hwords word List.mem_cons_self) rest
      cases words with
      | nil =>
          have hone := hcount []
          rw [List.append_nil] at hone
          rw [List.intercalate_singleton, hone]
          rfl
      | cons next words =>
          have hrest := ih (fun w hw => hne w (List.mem_cons_of_mem _ hw))
            fun w hw => hwords w (List.mem_cons_of_mem _ hw)
          rw [List.intercalate_cons_cons, List.append_assoc, hcount, List.length_cons, ← hrest]
          rfl

theorem trimmed_word {word : List Char} (hword : ∀ c ∈ word, isBlank c = false) :
    Trimmed word where
  front c hc := hword c (List.mem_of_mem_head? hc)
  back c hc := hword c (List.mem_reverse.1 (List.mem_of_mem_head? hc))

theorem trimmed_intercalate {words : List (List Char)} (hne : ∀ word ∈ words, word ≠ [])
    (hwords : ∀ word ∈ words, ∀ c ∈ word, isBlank c = false) :
    Trimmed ([' '].intercalate words) := by
  induction words with
  | nil => exact trimmed_word fun c hc => by cases hc
  | cons word words ih =>
      have hne' (w : List Char) (hw : w ∈ words) : w ≠ [] := hne w (List.mem_cons_of_mem _ hw)
      have hwords' (w : List Char) (hw : w ∈ words) := hwords w (List.mem_cons_of_mem _ hw)
      cases words with
      | nil =>
          rw [List.intercalate_singleton]
          exact trimmed_word (hwords word List.mem_cons_self)
      | cons next words =>
          have hrest : [' '].intercalate (next :: words) ≠ [] := fun h => by
            have hcount := wordCount_intercalate hne' hwords'
            rw [h] at hcount
            cases hcount
          rw [List.intercalate_cons_cons]
          exact trimmed_append (hne word List.mem_cons_self)
            (trimmed_word (hwords word List.mem_cons_self)).front hrest (ih hne' hwords').back _

end Text

namespace Cron

/-! ## Lists of numbers -/

/-- Values of a field that a schedule may allow: at least one, ascending and in range. -/
structure Field.Choice (f : Field) (values : List Nat) : Prop where
  nonempty : values ≠ []
  ascending : values.Pairwise (· < ·)
  range : ∀ v ∈ values, f.first ≤ v ∧ v ≤ f.last

/-- Numbers with commas between them. -/
def listText (values : List Nat) : String := ",".intercalate (values.map toString)

/-- The numbers behind the first one, each with the comma before it. -/
def listTail (values : List Nat) : List Char :=
  values.flatMap fun v => ',' :: Nat.toDigits 10 v

theorem toList_listText_cons (v : Nat) (values : List Nat) :
    (listText (v :: values)).toList = Nat.toDigits 10 v ++ listTail values := by
  induction values generalizing v with
  | nil => simp [listText, listTail]
  | cons w values ih =>
      have hrest := ih w
      simp only [listText, String.toList_intercalate, List.map_cons] at hrest ⊢
      rw [List.intercalate_cons_cons, hrest, toList_toString, List.append_assoc]
      rfl

theorem isBlank_of_isDigit {c : Char} (h : c.isDigit = true) : Text.isBlank c = false := by
  obtain ⟨hle, hge⟩ := Char.isDigit_iff_toNat.1 h
  have hle : 48 ≤ c.toNat := hle
  have hge : c.toNat ≤ 57 := hge
  simp only [Text.isBlank, Bool.or_eq_false_iff, Bool.and_eq_false_iff, decide_eq_false_iff_not,
    beq_eq_false_iff_ne]
  omega

/-- A list of numbers is one word. -/
theorem word_listText {values : List Nat} (hne : values ≠ []) :
    (listText values).toList ≠ [] ∧ ∀ c ∈ (listText values).toList, Text.isBlank c = false := by
  obtain ⟨v, values, rfl⟩ := List.exists_cons_of_ne_nil hne
  have hdigits (n : Nat) (c : Char) (hc : c ∈ Nat.toDigits 10 n) : Text.isBlank c = false :=
    isBlank_of_isDigit (isDigit_of_mem_toDigits hc)
  rw [toList_listText_cons]
  refine ⟨fun h => Nat.toDigits_ne_nil (List.append_eq_nil_iff.1 h).1, fun c hc => ?_⟩
  obtain hc | hc := List.mem_append.1 hc
  · exact hdigits v c hc
  · obtain ⟨w, -, hc⟩ := List.mem_flatMap.1 hc
    obtain rfl | hc := List.mem_cons.1 hc
    · rfl
    · exact hdigits w c hc

namespace Grammar

variable {mark : Bool} {f : Field} {n : Nat} {s rest : List Char} {values : List Nat}

theorem isBlank_of_digit {c : Char} (h : c.isDigit = true) : isBlank c = false :=
  Bool.eq_false_iff.2 fun hblank => by
    have hnot := isBlank_of_isDigit h
    rw [Text.isBlank_of_grammar hblank] at hnot
    cases hnot

theorem skipBlanks_skipBlanks (s : List Char) : skipBlanks (skipBlanks s) = skipBlanks s :=
  dropWhile_of_clear (clear_dropWhile _ _)

theorem skipBlanks_toDigits (n : Nat) (rest : List Char) :
    skipBlanks (Nat.toDigits 10 n ++ rest) = Nat.toDigits 10 n ++ rest :=
  dropWhile_of_clear (clear_toDigits (fun _ => isBlank_of_digit) n rest)

theorem valueOfDigits_toDigits (n : Nat) : valueOfDigits (Nat.toDigits 10 n) = n := by
  have hfold : valueOfDigits = fun digits => Nat.ofDigitChars 10 digits 0 := by
    funext digits
    unfold valueOfDigits Nat.ofDigitChars
    simp only [Nat.mul_comm]
  rw [hfold]
  exact ofDigitChars_toDigits n

/-- A number takes its digits and the blanks behind them. -/
theorem number_toDigits (hn : n < numberLimit) (hrest : Clear Char.isDigit rest) :
    number (Nat.toDigits 10 n ++ rest) = some (n, skipBlanks rest) := by
  have hrun : run Char.isDigit (Nat.toDigits 10 n ++ rest) =
      some (Nat.toDigits 10 n, skipBlanks rest) := by
    rw [run, skipBlanks_toDigits, takeWhile_toDigits n hrest, dropWhile_toDigits n hrest,
      if_neg Nat.toDigits_ne_nil]
  rw [number, hrun]
  dsimp only
  rw [valueOfDigits_toDigits, if_pos hn]

/-- An item that is a number ends: no digit follows, and past the blanks neither `-` nor `/`. -/
structure EndsItem (rest : List Char) : Prop where
  digit : Clear Char.isDigit rest
  marks : ∀ c ∈ (skipBlanks rest).head?, c ≠ '-' ∧ c ≠ '/'

theorem span_toDigits (hn : n < numberLimit) (hrest : EndsItem rest) :
    span mark (Nat.toDigits 10 n ++ rest) = some (.at n, skipBlanks rest) := by
  have hnumber := number_toDigits hn hrest.digit
  have hrange : range number (Nat.toDigits 10 n ++ rest) = none := by
    rw [range, hnumber]
    split
    · rename_i heq
      obtain ⟨-, heq⟩ := Prod.mk.inj (Option.some.inj heq)
      exact absurd rfl (hrest.marks '-' (by rw [heq]; rfl)).1
    · rfl
  have hbounded :
      span mark (Nat.toDigits 10 n ++ rest) = boundedSpan (Nat.toDigits 10 n ++ rest) := by
    obtain ⟨c, cs, hdigits, hdigit⟩ := exists_toDigits_eq_cons n
    rw [hdigits, List.cons_append]
    unfold span
    split
    · rename_i heq
      cases heq
      cases hdigit
    · rename_i heq
      cases heq
      cases hdigit
    · rfl
  rw [hbounded, boundedSpan, hrange, hnumber]

theorem item_toDigits (hn : n < numberLimit) (hrest : EndsItem rest) :
    item mark (Nat.toDigits 10 n ++ rest) = some (.plain (.at n), skipBlanks rest) := by
  have hspan : span mark (Nat.toDigits 10 n ++ rest) = some (.at n, skipBlanks rest) :=
    span_toDigits hn hrest
  obtain ⟨i, r, hitem, -, hplain | ⟨-, hstep⟩⟩ := item_of_span hspan
  · rw [hitem, hplain.1, hplain.2]
  · exact absurd rfl (hrest.marks '/' (by rw [hstep]; rfl)).2

/-- A list of numbers ends: no further one follows either. -/
structure EndsList (rest : List Char) : Prop extends EndsItem rest where
  comma : (skipBlanks rest).head? ≠ some ','

theorem endsList_nil : EndsList [] :=
  ⟨⟨clear_nil _, fun c hc => by cases hc⟩, fun h => by cases h⟩

theorem skipBlanks_digit {c : Char} (hc : c.isDigit = true) (s : List Char) :
    skipBlanks (' ' :: c :: s) = c :: s := skipBlanks_cons (isBlank_of_digit hc)

/-- The next list begins with a digit. -/
theorem endsList_blank {c : Char} (hc : c.isDigit = true) (s : List Char) :
    EndsList (' ' :: c :: s) := by
  refine ⟨⟨clear_cons.2 rfl, fun d hd => ?_⟩, fun h => ?_⟩
  · rw [skipBlanks_digit hc] at hd
    obtain rfl := Option.some.inj hd
    constructor <;> (rintro rfl; cases hc)
  · rw [skipBlanks_digit hc] at h
    obtain rfl := Option.some.inj h
    cases hc

theorem EndsList.endsItem (h : EndsList rest) (values : List Nat) :
    EndsItem (listTail values ++ rest) := by
  cases values with
  | nil => exact h.toEndsItem
  | cons v values =>
      refine ⟨clear_cons.2 rfl, fun c hc => ?_⟩
      obtain rfl : ',' = c := Option.some.inj hc
      decide

theorem moreItems_listTail (hvalues : ∀ v ∈ values, v < numberLimit) (hrest : EndsList rest) :
    moreItems mark (skipBlanks (listTail values ++ rest)) =
      (values.map fun v => .plain (.at v), skipBlanks rest) := by
  induction values with
  | nil =>
      obtain hend | ⟨-, hcomma⟩ := moreItems_cases mark (skipBlanks rest)
      · exact hend
      · exact absurd hcomma hrest.comma
  | cons v values ih =>
      have hitem : item mark (Nat.toDigits 10 v ++ (listTail values ++ rest)) =
          some (.plain (.at v), skipBlanks (listTail values ++ rest)) :=
        item_toDigits (hvalues v List.mem_cons_self) (hrest.endsItem values)
      have htail : skipBlanks (listTail (v :: values) ++ rest) =
          ',' :: (Nat.toDigits 10 v ++ (listTail values ++ rest)) := by
        rw [listTail, List.flatMap_cons, List.append_assoc]
        rfl
      rw [htail, moreItems]
      split
      · rename_i heq
        rw [hitem] at heq
        cases heq
        rw [ih fun w hw => hvalues w (List.mem_cons_of_mem v hw)]
        rfl
      · rename_i heq
        rw [hitem] at heq
        cases heq

/-- A list of numbers is read number by number, with the blanks behind it. -/
theorem items_listText (hne : values ≠ []) (hvalues : ∀ v ∈ values, v < numberLimit)
    (hrest : EndsList rest) : items f ((listText values).toList ++ rest) =
      some (values.map fun v => .plain (.at v), skipBlanks rest) := by
  obtain ⟨v, values, rfl⟩ := List.exists_cons_of_ne_nil hne
  rw [toList_listText_cons, List.append_assoc, items, skipBlanks_toDigits,
    item_toDigits (hvalues v List.mem_cons_self) (hrest.endsItem values)]
  dsimp only
  rw [moreItems_listTail (fun w hw => hvalues w (List.mem_cons_of_mem v hw)) hrest,
    skipBlanks_skipBlanks]
  rfl

end Grammar

/-! ## The values of a list of numbers -/

namespace Field

variable {f : Field} {values : List Nat}

theorem Choice.lt_numberLimit (h : f.Choice values) {v : Nat} (hv : v ∈ values) :
    v < Grammar.numberLimit := by
  have hlast : f.last < Grammar.numberLimit := by cases f <;> decide
  exact Nat.lt_of_le_of_lt (h.range v hv).2 hlast

/-- What is allowed where each of some numbers is an item. -/
theorem allowed?_numbers (h : f.Choice values) :
    f.allowed? (values.map fun v => .plain (.at v)) = some values := by
  have hvalues (v : Nat) (hv : v ∈ values) :
      (Item.plain (.at v)).values? f = some ⟨v, v, 1⟩ := by
    rw [Item.values?, Span.bounds?, if_pos (h.range v hv)]
    rfl
  have hread : values.mapM (Item.values? f ∘ fun v => .plain (.at v)) =
      some (values.map fun v => ⟨v, v, 1⟩) := mapM_eq_some_map hvalues
  have hallowed : f.allowed? (values.map fun v => .plain (.at v)) =
      some (f.range.filter fun v =>
        (values.map fun v => Progression.mk v v 1).any (·.contains v)) := by
    rw [allowed?, List.mapM_map, hread]
    rfl
  obtain ⟨-, hmem⟩ := mem_allowed? hallowed
  rw [hallowed, Option.some_inj]
  refine (f.pairwise_range.filter _).eq_of_mem_iff h.ascending fun v => ?_
  rw [hmem]
  constructor
  · rintro ⟨-, i, hi, p, hp, hv⟩
    obtain ⟨w, hw, rfl⟩ := List.mem_map.1 hi
    rw [hvalues w hw] at hp
    cases hp
    obtain ⟨hle, hge, -⟩ := Progression.contains_iff.1 hv
    exact Nat.le_antisymm hle hge ▸ hw
  · intro hv
    exact ⟨mem_range.2 (h.range v hv), _, List.mem_map_of_mem hv, _, hvalues v hv,
      Progression.contains_first ⟨Nat.le_refl v, Nat.one_pos⟩⟩

/-! ## What is allowed -/

theorem valueOf?_ge {name : List Char} {v : Nat} (h : f.valueOf? name = some v) : f.first ≤ v := by
  have hall : ∀ entry ∈ f.names, f.first ≤ entry.2 := by cases f <;> decide
  obtain ⟨before, after, hnames, -⟩ := List.lookup_eq_some_iff.1 h
  exact hall (_, v) (hnames ▸ List.mem_append_right _ List.mem_cons_self)

end Field

theorem Span.first_le_of_bounds? {f : Field} {span : Span} {b : Nat × Nat}
    (h : span.bounds? f = some b) : f.first ≤ b.1 := by
  unfold bounds? at h
  split at h
  · cases h
    exact Nat.le_refl _
  · split at h
    · rename_i hle
      cases h
      exact hle.1
    · cases h
  · split at h
    · rename_i hle
      cases h
      exact hle.1
    · cases h
  · split at h
    · rename_i hlow _
      split at h
      · cases h
        exact Field.valueOf?_ge hlow
      · cases h
    · cases h

theorem Item.first_le_of_values? {f : Field} {i : Item} {p : Progression}
    (h : i.values? f = some p) : f.first ≤ p.first := by
  cases hspan : i.span? with
  | some span =>
      obtain ⟨b, hb, hfirst⟩ := Item.first_of_values? hspan h
      exact hfirst ▸ Span.first_le_of_bounds? hb
  | none =>
      cases i with
      | named name =>
          obtain ⟨v, hv, rfl⟩ := Option.map_eq_some_iff.1 h
          exact Field.valueOf?_ge hv
      | stepped | plain => cases hspan

namespace Schedule

variable {s : Schedule} {f : Field} {expression : String}

/-- A field that is read allows something: the first value of its first item. -/
theorem ne_nil_of_field? {cs rest : List Char} {values : List Nat}
    (h : field? f cs = some (values, rest)) : values ≠ [] := by
  unfold field? at h
  split at h
  · rename_i items r hitems
    obtain ⟨vs, hvs, hpair⟩ := Option.map_eq_some_iff.1 h
    cases hpair
    obtain ⟨i, more, rfl⟩ : ∃ i more, items = i :: more := by
      unfold Grammar.items at hitems
      split at hitems
      · cases hitems
        exact ⟨_, _, rfl⟩
      · cases hitems
    obtain ⟨hmeaning, hmem⟩ := Field.mem_allowed? hvs
    obtain ⟨p, hp⟩ := hmeaning i List.mem_cons_self
    obtain ⟨hproper, hlast⟩ := Item.proper_of_values? hp
    refine List.ne_nil_of_mem ((hmem p.first).2 ⟨Field.mem_range.2 ?_, i, List.mem_cons_self, p, hp,
      Progression.contains_first hproper⟩)
    exact ⟨Item.first_le_of_values? hp, Nat.le_trans hproper.le hlast⟩
  · cases h

theorem ne_nil_of_shorthand {word : String × (String → Schedule)} (h : word ∈ shorthands)
    (source : String) (f : Field) : (word.2 source).allowed f ≠ [] := by
  simp only [shorthands, List.mem_cons, List.not_mem_nil, or_false] at h
  obtain rfl | rfl | rfl | rfl | rfl := h <;> cases f <;> exact List.cons_ne_nil _ _

/-- A schedule that is read allows some value of each field. -/
theorem choice_of_parse (h : parse expression = .ok s) (f : Field) : f.Choice (s.allowed f) where
  nonempty := allowed_of_parse (P := fun _ values => values ≠ [])
    (fun _ _ _ _ => ne_nil_of_field?) (List.cons_ne_nil _ _) (fun _ => ne_nil_of_shorthand) h f
  ascending := (proper_of_parse h).ascending f
  range _ hv := (proper_of_parse h).range hv

/-! ## Normalized expressions -/

theorem normalize_normalize (cs : List Char) : normalize (normalize cs) = normalize cs := by
  by_cases hwords : Text.wordCount (Text.trim cs) = 5
  · have hnormalize : normalize cs = '0' :: ' ' :: Text.trim cs := if_pos hwords
    have hne : Text.trim cs ≠ [] := fun h => by
      rw [h] at hwords
      cases hwords
    have htrimmed := (Text.trimmed_trim cs).cons_zero hne
    rw [hnormalize, normalize, Text.trim_of_trimmed htrimmed, Text.wordCount_cons_zero,
      if_neg (by omega)]
  · have hnormalize : normalize cs = Text.trim cs := if_neg hwords
    rw [hnormalize, normalize, Text.trim_trim, if_neg hwords]

/-- A schedule keeps the normalized expression that it was read from. -/
theorem source_of_parse (h : parse expression = .ok s) :
    ofNormalized? (normalize expression.toList) = some s ∧
      s.source = String.ofList (normalize expression.toList) := by
  unfold parse at h
  split at h
  · rename_i schedule hread
    cases h
    refine ⟨hread, ?_⟩
    unfold ofExpression? ofNormalized? at hread
    split at hread
    · rename_i hshorthand
      cases hread
      obtain ⟨word, hword, hschedule⟩ := List.exists_of_findSome?_eq_some hshorthand
      dsimp only at hschedule
      split at hschedule
      · cases hschedule
        simp only [shorthands, List.mem_cons, List.not_mem_nil, or_false] at hword
        obtain rfl | rfl | rfl | rfl | rfl := hword <;> rfl
      · cases hschedule
    · simp only [ofFields?, Option.bind_eq_bind, Option.bind_eq_some_iff, Prod.exists,
        Option.pure_def, Option.some.injEq] at hread
      obtain ⟨_, _, -, _, _, -, _, _, -, _, _, -, _, _, -, _, _, -, _, -, rfl⟩ := hread
      rfl
  · cases h

theorem parse_source (h : parse expression = .ok s) : parse s.source = .ok s := by
  obtain ⟨hread, hsource⟩ := source_of_parse h
  have hagain : ofExpression? s.source = some s := by
    rw [hsource, ofExpression?, String.toList_ofList, normalize_normalize, hread]
  rw [parse, hagain]

/-! ## Expressions of seven lists -/

/-- The lists of some fields, with a blank between them. -/
def fieldsText (allowed : Field → List Nat) (fs : List Field) : String :=
  " ".intercalate (fs.map fun f => listText (allowed f))

/-- The expression that lists the allowed values of each field. -/
def render (allowed : Field → List Nat) : String := fieldsText allowed Field.all

variable {allowed : Field → List Nat} {fs : List Field}

theorem toList_fieldsText (allowed : Field → List Nat) (fs : List Field) :
    (fieldsText allowed fs).toList =
      [' '].intercalate (fs.map fun f => (listText (allowed f)).toList) := by
  rw [fieldsText, String.toList_intercalate, List.map_map]
  rfl

theorem toList_fieldsText_cons (allowed : Field → List Nat) (f g : Field) (fs : List Field) :
    (fieldsText allowed (f :: g :: fs)).toList =
      (listText (allowed f)).toList ++ ' ' :: (fieldsText allowed (g :: fs)).toList := by
  rw [toList_fieldsText, toList_fieldsText, List.map_cons, List.map_cons,
    List.intercalate_cons_cons, List.append_assoc]
  rfl

theorem toList_fieldsText_singleton (allowed : Field → List Nat) (f : Field) :
    (fieldsText allowed [f]).toList = (listText (allowed f)).toList ++ [] := by
  rw [toList_fieldsText, List.map_singleton, List.intercalate_singleton, List.append_nil]

section Written

variable (hallowed : ∀ f : Field, f.Choice (allowed f))

include hallowed

theorem field?_listText {f : Field} {rest : List Char} (hrest : Grammar.EndsList rest) :
    field? f ((listText (allowed f)).toList ++ rest) =
      some (allowed f, Grammar.skipBlanks rest) := by
  have hitems := Grammar.items_listText (f := f) (hallowed f).nonempty
    (fun _ => (hallowed f).lt_numberLimit) hrest
  rw [field?, hitems]
  dsimp only
  rw [Field.allowed?_numbers (hallowed f)]
  rfl

/-- The lists begin with a digit. -/
theorem exists_fieldsText_eq (f : Field) (fs : List Field) : ∃ c cs,
    (fieldsText allowed (f :: fs)).toList = c :: cs ∧ c.isDigit = true := by
  obtain ⟨v, values, hvalues⟩ := List.exists_cons_of_ne_nil (hallowed f).nonempty
  obtain ⟨c, cs, hdigits, hdigit⟩ := exists_toDigits_eq_cons v
  have hlist : (listText (allowed f)).toList = c :: (cs ++ listTail values) := by
    rw [hvalues, toList_listText_cons, hdigits, List.cons_append]
  cases fs with
  | nil =>
      rw [toList_fieldsText_singleton, hlist]
      exact ⟨c, _, rfl, hdigit⟩
  | cons g fs =>
      rw [toList_fieldsText_cons, hlist]
      exact ⟨c, _, rfl, hdigit⟩

/-- A list is read up to the next one. -/
theorem field?_fieldsText (f g : Field) (fs : List Field) :
    field? f (fieldsText allowed (f :: g :: fs)).toList =
      some (allowed f, (fieldsText allowed (g :: fs)).toList) := by
  obtain ⟨c, cs, htext, hdigit⟩ := exists_fieldsText_eq hallowed g fs
  rw [toList_fieldsText_cons, htext,
    field?_listText hallowed (Grammar.endsList_blank hdigit cs), Grammar.skipBlanks_digit hdigit]

theorem years?_fieldsText :
    years? (fieldsText allowed [.years]).toList = some (allowed .years) := by
  rw [toList_fieldsText_singleton, years?, field?_listText hallowed Grammar.endsList_nil]
  rfl

theorem ofFields?_render : ofFields? (render allowed).toList =
    some ⟨render allowed, allowed .seconds, allowed .minutes, allowed .hours, allowed .daysOfMonth,
      allowed .months, allowed .daysOfWeek, allowed .years⟩ := by
  simp only [ofFields?, render, Field.all, field?_fieldsText hallowed, years?_fieldsText hallowed,
    Option.bind_eq_bind, Option.bind_some, String.ofList_toList, Option.pure_def]

/-- Seven lists are seven words, and nothing is pasted in front of them. -/
theorem normalize_render : normalize (render allowed).toList = (render allowed).toList := by
  have hne : ∀ word ∈ Field.all.map fun f => (listText (allowed f)).toList, word ≠ [] := by
    intro word hword
    obtain ⟨f, -, rfl⟩ := List.mem_map.1 hword
    exact (word_listText (hallowed f).nonempty).1
  have hwords : ∀ word ∈ Field.all.map fun f => (listText (allowed f)).toList, ∀ c ∈ word,
      Text.isBlank c = false := by
    intro word hword
    obtain ⟨f, -, rfl⟩ := List.mem_map.1 hword
    exact (word_listText (hallowed f).nonempty).2
  rw [render, toList_fieldsText, normalize,
    Text.trim_of_trimmed (Text.trimmed_intercalate hne hwords),
    Text.wordCount_intercalate hne hwords]
  rfl

theorem parse_render : parse (render allowed) = .ok ⟨render allowed, allowed .seconds,
    allowed .minutes, allowed .hours, allowed .daysOfMonth, allowed .months, allowed .daysOfWeek,
    allowed .years⟩ := by
  obtain ⟨c, cs, htext, hdigit⟩ := exists_fieldsText_eq hallowed .seconds
    [.minutes, .hours, .daysOfMonth, .months, .daysOfWeek, .years]
  have hread : ofExpression? (render allowed) = ofFields? (render allowed).toList := by
    have hmark : c ≠ '@' := by
      rintro rfl
      cases hdigit
    rw [ofExpression?, normalize_render hallowed, ofNormalized?, render, Field.all, htext,
      ofShorthand?_eq_none (Grammar.isBlank_of_digit hdigit) hmark]
  rw [parse, hread, ofFields?_render hallowed]

end Written

/-- A schedule that is read allows at least one value of each field and none out of range; it is
read again from its own source, and the lists of its values are an expression for the same values.
So are seven lists of any values that might be allowed. -/
theorem reads_back :
    (∀ (expression : String) (s : Schedule), parse expression = .ok s →
      (∀ f : Field, f.Choice (s.allowed f)) ∧ parse s.source = .ok s ∧
        ∃ s', parse (render s.allowed) = .ok s' ∧ s'.allowed = s.allowed) ∧
      ∀ allowed : Field → List Nat, (∀ f : Field, f.Choice (allowed f)) →
        ∃ s', parse (render allowed) = .ok s' ∧ s'.allowed = allowed := by
  have hrender (allowed : Field → List Nat) (hallowed : ∀ f : Field, f.Choice (allowed f)) :
      ∃ s', parse (render allowed) = .ok s' ∧ s'.allowed = allowed := by
    refine ⟨_, parse_render hallowed, ?_⟩
    funext f
    cases f <;> rfl
  refine ⟨fun expression s hread => ?_, hrender⟩
  exact ⟨choice_of_parse hread, parse_source hread, hrender _ (choice_of_parse hread)⟩

/-- Five words with names, a step and two fields that nothing separates; and the first and the last
value of each field. -/
theorem reads_back_officeHours :
    (∃ s, parse "*/20 9-17 ?jan-MAR Mon,Wed-Fri *" = .ok s ∧ s.daysOfWeek = [2, 4, 5, 6] ∧
      parse s.source = .ok s ∧ ∃ s', parse (render s.allowed) = .ok s' ∧ s'.allowed = s.allowed) ∧
      (∀ f : Field, f.Choice [f.first, f.last]) ∧
      ∃ s', parse "0,59 0,59 0,23 1,31 1,12 1,7 1970,2100" = .ok s' ∧
        s'.allowed = fun f => [f.first, f.last] := by
  obtain ⟨s, hread, hs⟩ := exists_of_parse "*/20 9-17 ?jan-MAR Mon,Wed-Fri *"
    (fun s => s.daysOfWeek == [2, 4, 5, 6]) (by decide +kernel)
  have hchoice (f : Field) : f.Choice [f.first, f.last] := by
    cases f <;> exact ⟨List.cons_ne_nil _ _, by decide, by decide⟩
  have hrender : render (fun f => [f.first, f.last]) =
      "0,59 0,59 0,23 1,31 1,12 1,7 1970,2100" := by
    decide +kernel
  exact ⟨⟨s, hread, beq_iff_eq.1 hs, (reads_back.1 _ s hread).2⟩, hchoice,
    hrender ▸ reads_back.2 _ hchoice⟩

end Schedule

end Cron

end Scheduling
