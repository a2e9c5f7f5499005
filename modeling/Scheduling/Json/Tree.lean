import Scheduling.Json.Skip
import Scheduling.Json.Record
import Scheduling.Text.Sorted
/-!
# Reading values of any type

A value is read whole, whatever its type. The members of an object are kept in ascending order of
their keys, and of two with the same key the later one counts.
-/

namespace Scheduling.Json

def Number.json : Number → Json
  | .integer n => .integer n
  | .float bits => .float bits

/-- Reads a value without brackets. -/
def readScalar (c : Char) (rest : List Char) : Except Failure (Json × List Char) :=
  if c = 'n' then (readWord ['u', 'l', 'l'] rest).map (.null, ·)
  else if c = 't' then (readWord ['r', 'u', 'e'] rest).map (.bool true, ·)
  else if c = 'f' then (readWord ['a', 'l', 's', 'e'] rest).map (.bool false, ·)
  else if c = '"' then (readTextFrom [] rest).map fun (s, rest) => (.string s, rest)
  else if c = '-' ∨ c.isDigit then
    (readNumber (c :: rest)).map fun (n, rest) => (n.json, rest)
  else .error (.next .expectedValue (c :: rest))

mutual

/-- Reads a value; each round takes at least one of `fuel` characters. -/
def readValueFor : Nat → List Char → Except Failure (Json × List Char)
  | 0, s => .ok (.null, s)
  | fuel + 1, s =>
    match skipBlanks s with
    | [] => .error (.here .endInValue [])
    | '[' :: rest => readItemsFor fuel [] rest
    | '{' :: rest => readObjectFor fuel true [] rest
    | c :: rest => readScalar c rest

/-- Reads the items of an array behind those that were read, latest first. -/
def readItemsFor : Nat → List Json → List Char → Except Failure (Json × List Char)
  | 0, _, s => .ok (.null, s)
  | fuel + 1, before, s => do
    match ← Schema.nextElement before.isEmpty s with
    | .closed rest => return (.array before.reverse, rest)
    | .part rest =>
      let (item, rest) ← readValueFor fuel rest
      readItemsFor fuel (item :: before) rest

/-- Reads the members of an object beside those that were read. -/
def readObjectFor : Nat → Bool → List (String × Json) → List Char →
    Except Failure (Json × List Char)
  | 0, _, _, s => .ok (.null, s)
  | fuel + 1, first, members, s => do
    match ← Schema.nextKey first s with
    | .closed rest => return (.object members, rest)
    | .part rest =>
      let (key, rest) ← readTextFrom [] rest
      let (value, rest) ← readValueFor fuel (← readColon rest)
      readObjectFor fuel false (Text.insertSorted key value members) rest

end

def readValue (s : List Char) : Except Failure (Json × List Char) :=
  readValueFor (2 * s.length + 2) s

/-- Reads a whole text as a value, or tells why it cannot be read. -/
def parse (text : String) : Except String Json := readAll readValue text

/-- The value of a member of an object; `null` if there is none. -/
def member (j : Json) (key : String) : Json :=
  match j with
  | .object members => (members.lookup key).getD .null
  | _ => .null

end Scheduling.Json
