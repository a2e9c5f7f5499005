/-!
# Lists sorted by their keys

Labels and the members of documents are kept in ascending order of their keys.
-/

namespace Scheduling.Text

/-- Puts a value under a key, in ascending order of the keys, in place of the one before. -/
def insertSorted {α : Type} (key : String) (value : α) : List (String × α) → List (String × α)
  | [] => [(key, value)]
  | (k, v) :: rest =>
    match compare key k with
    | .lt => (key, value) :: (k, v) :: rest
    | .eq => (key, value) :: rest
    | .gt => (k, v) :: insertSorted key value rest

/-- Pairs in ascending order of their keys, the last value of a key counting. -/
def sortByKey {α : Type} (pairs : List (String × α)) : List (String × α) :=
  pairs.foldl (fun sorted p => insertSorted p.1 p.2 sorted) []

end Scheduling.Text
