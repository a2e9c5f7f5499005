/-!
# Fields of a cron schedule

The seven fields, their ranges and the names that months and weekdays go by.
-/

namespace Scheduling.Cron

/-- The fields of a schedule, in the order in which they are written. -/
inductive Field
  | seconds
  | minutes
  | hours
  | daysOfMonth
  | months
  | daysOfWeek
  | years
deriving DecidableEq, Repr

namespace Field

/-- All fields, in the order in which they are written. -/
def all : List Field :=
  [seconds, minutes, hours, daysOfMonth, months, daysOfWeek, years]

/-- The smallest value of a field. -/
def first : Field → Nat
  | seconds | minutes | hours => 0
  | daysOfMonth | months | daysOfWeek => 1
  | years => 1970

/-- The largest value of a field; weekdays run from 1 for Sunday to 7. -/
def last : Field → Nat
  | seconds | minutes => 59
  | hours => 23
  | daysOfMonth => 31
  | months => 12
  | daysOfWeek => 7
  | years => 2100

/-- The values of a field, ascending. -/
def range (f : Field) : List Nat :=
  List.range' f.first (f.last + 1 - f.first)

/-- Whether a field may be written `?`, which means the same as `*`. -/
def hasBlankMark : Field → Bool
  | daysOfMonth | daysOfWeek => true
  | _ => false

/-- The lower-case names of the values of a field. -/
def names : Field → List (String × Nat)
  | months => [
    ("jan", 1), ("january", 1), ("feb", 2), ("february", 2), ("mar", 3), ("march", 3),
    ("apr", 4), ("april", 4), ("may", 5), ("jun", 6), ("june", 6), ("jul", 7), ("july", 7),
    ("aug", 8), ("august", 8), ("sep", 9), ("september", 9), ("oct", 10), ("october", 10),
    ("nov", 11), ("november", 11), ("dec", 12), ("december", 12)]
  | daysOfWeek => [
    ("sun", 1), ("sunday", 1), ("mon", 2), ("monday", 2), ("tue", 3), ("tues", 3),
    ("tuesday", 3), ("wed", 4), ("wednesday", 4), ("thu", 5), ("thurs", 5), ("thursday", 5),
    ("fri", 6), ("friday", 6), ("sat", 7), ("saturday", 7)]
  | _ => []

/-- The value that a name in any letter case stands for. -/
def valueOf? (f : Field) (name : List Char) : Option Nat :=
  f.names.lookup (String.ofList (name.map Char.toLower))

end Field

end Scheduling.Cron
