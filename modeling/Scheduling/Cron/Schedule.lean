import Scheduling.Cron.Grammar
import Scheduling.Text.Blank
/-!
# Cron schedules

A schedule is the set of allowed values of each of its seven fields. Expressions of five fields get
second 0; the years may be left out; five shorthands stand for whole expressions.
-/

namespace Scheduling.Cron

/-- The values `first`, `first + step`, … up to `last`. -/
structure Progression where
  first : Nat
  last : Nat
  step : Nat
deriving DecidableEq, Repr

/-- Whether a value belongs to a progression. -/
def Progression.contains (p : Progression) (v : Nat) : Bool :=
  p.first ≤ v && v ≤ p.last && (v - p.first) % p.step == 0

/-- The first and last value of a stretch: inside the range of the field and in order. -/
def Span.bounds? (f : Field) : Span → Option (Nat × Nat)
  | every => some (f.first, f.last)
  | between low high =>
    if f.first ≤ low ∧ low ≤ high ∧ high ≤ f.last then some (low, high) else none
  | .at value => if f.first ≤ value ∧ value ≤ f.last then some (value, value) else none
  | betweenNames low high =>
    match f.valueOf? low, f.valueOf? high with
    | some low, some high => if low ≤ high then some (low, high) else none
    | _, _ => none

/-- The values of an item; a single value with a step runs on to the end of the range. -/
def Item.values? (f : Field) : Item → Option Progression
  | stepped (.at value) step =>
    if 0 < step then ((Span.at value).bounds? f).map fun b => ⟨b.1, f.last, step⟩ else none
  | stepped span step =>
    if 0 < step then (span.bounds? f).map fun b => ⟨b.1, b.2, step⟩ else none
  | plain span => (span.bounds? f).map fun b => ⟨b.1, b.2, 1⟩
  | named name => (f.valueOf? name).map fun v => ⟨v, v, 1⟩

/-- The values of a field that some item allows, ascending; `none` if an item has no meaning. -/
def Field.allowed? (f : Field) (items : List Item) : Option (List Nat) :=
  (items.mapM (Item.values? f)).map fun ps => f.range.filter fun v => ps.any (·.contains v)

/-- The allowed values of every field, each list ascending, and the expression they come from. -/
structure Schedule where
  source : String
  seconds : List Nat
  minutes : List Nat
  hours : List Nat
  daysOfMonth : List Nat
  months : List Nat
  daysOfWeek : List Nat
  years : List Nat
deriving DecidableEq, Repr, Inhabited

namespace Schedule

def allowed (s : Schedule) : Field → List Nat
  | .seconds => s.seconds
  | .minutes => s.minutes
  | .hours => s.hours
  | .daysOfMonth => s.daysOfMonth
  | .months => s.months
  | .daysOfWeek => s.daysOfWeek
  | .years => s.years

def shorthands : List (String × (String → Schedule)) := [
  ("@yearly", fun e =>
    ⟨e, [0], [0], [0], [1], [1], Field.daysOfWeek.range, Field.years.range⟩),
  ("@monthly", fun e =>
    ⟨e, [0], [0], [0], [1], Field.months.range, Field.daysOfWeek.range, Field.years.range⟩),
  ("@weekly", fun e =>
    ⟨e, [0], [0], [0], Field.daysOfMonth.range, Field.months.range, [1], Field.years.range⟩),
  ("@daily", fun e =>
    ⟨e, [0], [0], [0], Field.daysOfMonth.range, Field.months.range, Field.daysOfWeek.range,
      Field.years.range⟩),
  ("@hourly", fun e =>
    ⟨e, [0], [0], Field.hours.range, Field.daysOfMonth.range, Field.months.range,
      Field.daysOfWeek.range, Field.years.range⟩)]

def ofShorthand? (s : List Char) : Option Schedule :=
  let source := String.ofList s
  let body := Grammar.skipBlanks s
  shorthands.findSome? fun (word, schedule) =>
    if body.take word.length = word.toList ∧ Grammar.skipBlanks (body.drop word.length) = [] then
      some (schedule source)
    else none

def field? (f : Field) (s : List Char) : Option (List Nat × List Char) :=
  match Grammar.items f s with
  | some (items, rest) => (f.allowed? items).map (·, rest)
  | none => none

/-- The years at the end of an expression: all of them if there is nothing left. -/
def years? (s : List Char) : Option (List Nat) :=
  match field? .years s with
  | some (years, []) => some years
  | some _ => none
  | none => if s = [] then some Field.years.range else none

/-- Reads six or seven fields. -/
def ofFields? (s : List Char) : Option Schedule := do
  let source := String.ofList s
  let (seconds, s) ← field? .seconds s
  let (minutes, s) ← field? .minutes s
  let (hours, s) ← field? .hours s
  let (daysOfMonth, s) ← field? .daysOfMonth s
  let (months, s) ← field? .months s
  let (daysOfWeek, s) ← field? .daysOfWeek s
  let years ← years? s
  return ⟨source, seconds, minutes, hours, daysOfMonth, months, daysOfWeek, years⟩

/-- The expression without blanks at its ends, and with second 0 in front if it has five words. -/
def normalize (expression : List Char) : List Char :=
  let trimmed := Text.trim expression
  if Text.wordCount trimmed = 5 then '0' :: ' ' :: trimmed else trimmed

/-- Reads an expression that is already normalized. -/
def ofNormalized? (s : List Char) : Option Schedule :=
  match ofShorthand? s with
  | some schedule => some schedule
  | none => ofFields? s

/-- Reads a cron expression. -/
def ofExpression? (expression : String) : Option Schedule :=
  ofNormalized? (normalize expression.toList)

end Schedule

end Scheduling.Cron
