import Scheduling.Cron.Field
/-!
# Written form of cron fields

A field is a comma-separated list of items: `*`, numbers, ranges and names, with an optional step.
Readers take characters from the front and give back what is left; each alternative is tried in
order, and a finished item is never taken back. Blanks around numbers and names belong to them.
-/

namespace Scheduling.Cron

/-- A stretch of values as written. -/
inductive Span
  /-- `*`, or `?` where a field may be left blank. -/
  | every
  | between (low high : Nat)
  | at (value : Nat)
  | betweenNames (low high : List Char)
deriving DecidableEq, Repr

/-- An item of a field's list as written. -/
inductive Item
  | stepped (span : Span) (step : Nat)
  | plain (span : Span)
  | named (name : List Char)
deriving DecidableEq, Repr

namespace Grammar

/-- The blanks that may stand between the parts of an expression. -/
def isBlank (c : Char) : Bool :=
  c == ' ' || c == '\t' || c == '\r' || c == '\n'

def skipBlanks (s : List Char) : List Char :=
  s.dropWhile isBlank

/-- A run of characters of one class, at least one, with the blanks on both sides of it. -/
def run (p : Char → Bool) (s : List Char) : Option (List Char × List Char) :=
  if (skipBlanks s).takeWhile p = [] then none
  else some ((skipBlanks s).takeWhile p, skipBlanks ((skipBlanks s).dropWhile p))

/-- Numbers are below 2 to the power 32. -/
def numberLimit : Nat := UInt32.size

def valueOfDigits (digits : List Char) : Nat :=
  digits.foldl (fun n c => n * 10 + (c.toNat - '0'.toNat)) 0

/-- A number with the blanks around it. -/
def number (s : List Char) : Option (Nat × List Char) :=
  match run Char.isDigit s with
  | some (digits, rest) =>
    if valueOfDigits digits < numberLimit then some (valueOfDigits digits, rest) else none
  | none => none

/-- A name with the blanks around it: ASCII letters only. -/
def name (s : List Char) : Option (List Char × List Char) :=
  run Char.isAlpha s

/-- Two parts of one kind with a hyphen between them. -/
def range {α : Type} (part : List Char → Option (α × List Char)) (s : List Char) :
    Option (α × α × List Char) :=
  match part s with
  | some (low, '-' :: rest) =>
    match part rest with
    | some (high, rest) => some (low, high, rest)
    | none => none
  | _ => none

/-- A stretch that starts with a number or a name. -/
def boundedSpan (s : List Char) : Option (Span × List Char) :=
  match range number s with
  | some (low, high, rest) => some (.between low high, rest)
  | none =>
    match number s with
    | some (value, rest) => some (.at value, rest)
    | none =>
      match range name s with
      | some (low, high, rest) => some (.betweenNames low high, rest)
      | none => none

/-- A stretch of values; `mark` admits `?` for `*`. -/
def span (mark : Bool) (s : List Char) : Option (Span × List Char) :=
  match s with
  | '*' :: rest => some (.every, rest)
  | '?' :: rest => if mark then some (.every, rest) else none
  | _ => boundedSpan s

/-- An item: a stretch with a step, a stretch, or a name. -/
def item (mark : Bool) (s : List Char) : Option (Item × List Char) :=
  match span mark s with
  | some (sp, '/' :: rest) =>
    match number rest with
    | some (step, rest) => some (.stepped sp step, rest)
    | none => some (.plain sp, '/' :: rest)
  | some (sp, rest) => some (.plain sp, rest)
  | none =>
    match name s with
    | some (n, rest) => some (.named n, rest)
    | none => none

theorem length_skipBlanks_le (s : List Char) : (skipBlanks s).length ≤ s.length :=
  (List.dropWhile_sublist _).length_le

theorem length_run_lt {p : Char → Bool} {s taken rest : List Char}
    (h : run p s = some (taken, rest)) : rest.length < s.length := by
  unfold run at h
  split at h
  · cases h
  · rename_i hne
    cases h
    have hlen : ((skipBlanks s).takeWhile p).length + ((skipBlanks s).dropWhile p).length =
        (skipBlanks s).length := by
      rw [← List.length_append, List.takeWhile_append_dropWhile]
    have hpos : 0 < ((skipBlanks s).takeWhile p).length := by
      exact List.length_pos_iff.2 hne
    have h1 := length_skipBlanks_le s
    have h2 := length_skipBlanks_le ((skipBlanks s).dropWhile p)
    omega

theorem length_number_lt {s rest : List Char} {n : Nat} (h : number s = some (n, rest)) :
    rest.length < s.length := by
  unfold number at h
  split at h
  · rename_i digits r hr
    split at h
    · cases h
      exact length_run_lt hr
    · cases h
  · cases h

theorem length_name_lt {s n rest : List Char} (h : name s = some (n, rest)) :
    rest.length < s.length :=
  length_run_lt h

theorem length_range_lt {α : Type} {part : List Char → Option (α × List Char)}
    (hpart : ∀ {s a rest}, part s = some (a, rest) → rest.length < s.length)
    {s : List Char} {low high : α} {rest : List Char}
    (h : range part s = some (low, high, rest)) : rest.length < s.length := by
  unfold range at h
  split at h
  · rename_i l r hl
    split at h
    · rename_i hh r' hr
      cases h
      have h1 := hpart hl
      have h2 := hpart hr
      simp only [List.length_cons] at h1
      omega
    · cases h
  · cases h

theorem length_boundedSpan_lt {s rest : List Char} {sp : Span}
    (h : boundedSpan s = some (sp, rest)) : rest.length < s.length := by
  unfold boundedSpan at h
  split at h
  · rename_i hr
    cases h
    exact length_range_lt length_number_lt hr
  · split at h
    · rename_i hn
      cases h
      exact length_number_lt hn
    · split at h
      · rename_i hr
        cases h
        exact length_range_lt length_name_lt hr
      · cases h

theorem length_span_lt {mark : Bool} {s rest : List Char} {sp : Span}
    (h : span mark s = some (sp, rest)) : rest.length < s.length := by
  unfold span at h
  split at h
  · cases h
    simp
  · split at h
    · cases h
      simp
    · cases h
  · exact length_boundedSpan_lt h

theorem length_item_lt {mark : Bool} {s rest : List Char} {i : Item}
    (h : item mark s = some (i, rest)) : rest.length < s.length := by
  unfold item at h
  split at h
  · rename_i hs
    have h1 := length_span_lt hs
    simp only [List.length_cons] at h1
    split at h
    · rename_i hn
      cases h
      have h2 := length_number_lt hn
      omega
    · cases h
      simp only [List.length_cons]
      omega
  · rename_i hs
    cases h
    exact length_span_lt hs
  · split at h
    · rename_i hn
      cases h
      exact length_name_lt hn
    · cases h

/-- The items behind the first one; a comma that no item follows ends the list before it. -/
def moreItems (mark : Bool) (s : List Char) : List Item × List Char :=
  match s with
  | ',' :: rest =>
    match h : item mark rest with
    | some (i, after) =>
      have : after.length < rest.length := length_item_lt h
      let (items, rest) := moreItems mark after
      (i :: items, rest)
    | none => ([], s)
  | _ => ([], s)
termination_by s.length
decreasing_by simp_wf; omega

def items (f : Field) (s : List Char) : Option (List Item × List Char) :=
  match item f.hasBlankMark (skipBlanks s) with
  | some (i, rest) =>
    let (more, rest) := moreItems f.hasBlankMark rest
    some (i :: more, skipBlanks rest)
  | none => none

end Grammar

end Scheduling.Cron
