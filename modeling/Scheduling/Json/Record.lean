import Scheduling.Json.Skip
/-!
# Reading records

A record is read from an object, in which each field may stand once and members with other names
are skipped, or from an array of its fields in order. A field that may be left out keeps its
default.
-/

namespace Scheduling.Json

/-- A field of a record, which is read into a record that holds its default. -/
structure Slot (α : Type) where
  name : String
  required : Bool
  read : α → Reader α

/-- A record type: its name and its fields in order. -/
structure Schema (α : Type) where
  name : String
  slots : List (Slot α)

namespace Schema

variable {α : Type}

/-- How the record type is called where something else was found. -/
def expected (m : Schema α) : String := "struct " ++ m.name

/-- The characters that are left after an attempt to close an object. -/
def afterClosing (s : List Char) : List Char :=
  match skipBlanks s with
  | '}' :: rest => rest
  | s => s

/-- Reads a key behind its opening quote, and the value that belongs to it; gives the name of the
field too, if there is one. -/
def readMember (m : Schema α) (seen : List String) (record : α) (s : List Char) :
    Except Failure (List String × α × List Char) := do
  let (name, s) ← readTextFrom [] s
  match m.slots.find? (·.name == name) with
  | none =>
    let s ← skipValue (← readColon s)
    return (seen, record, s)
  | some slot =>
    if seen.contains name then .error (.here (.duplicateField name) (afterClosing s))
    else
      let (record, s) ← slot.read record (← readColon s)
      return (name :: seen, record, s)

/-- Where a record goes on: the closing bracket was read, or another part stands in front. -/
inductive Step
  | closed (rest : List Char)
  | part (rest : List Char)

/-- Goes on past the opening quote of the next key. -/
def nextKey (first : Bool) (s : List Char) : Except Failure Step :=
  match skipBlanks s with
  | [] => .error (.here .endInObject [])
  | c :: rest =>
    if c = '}' then .ok (.closed rest)
    else if first then
      if c = '"' then .ok (.part rest) else .error (.next .keyNotString (c :: rest))
    else if c = ',' then
      match skipBlanks rest with
      | [] => .error (.here .endInValue [])
      | '"' :: rest => .ok (.part rest)
      | '}' :: rest => .error (.next .trailingComma ('}' :: rest))
      | c :: rest => .error (.next .keyNotString (c :: rest))
    else .error (.next .expectedCommaOrBrace (c :: rest))

/-- Reads the members of an object; each round takes at least one of `fuel` characters. Gives the
names of the fields that were read. -/
def readMembers (m : Schema α) (seen : List String) (record : α) (first : Bool) (s : List Char) :
    Nat → Except Failure (List String × α × List Char)
  | 0 => .ok (seen, record, s)
  | fuel + 1 => do
    match ← nextKey first s with
    | .closed s => return (seen, record, s)
    | .part s =>
      let (seen, record, s) ← m.readMember seen record s
      m.readMembers seen record false s fuel

/-- Reads the end of an array whose elements were all read. -/
def readEnd (s : List Char) : Except Failure (List Char) :=
  match skipBlanks s with
  | ']' :: rest => .ok rest
  | [] => .error (.here .endInList [])
  | ',' :: rest =>
    match skipBlanks rest with
    | ']' :: rest => .error (.next .trailingComma (']' :: rest))
    | rest => .error (.next .trailingCharacters rest)
  | c :: rest => .error (.next .trailingCharacters (c :: rest))

def nextElement (first : Bool) (s : List Char) : Except Failure Step :=
  match skipBlanks s with
  | [] => .error (.here .endInList [])
  | c :: rest =>
    if c = ']' then .ok (.closed rest)
    else if first then .ok (.part (c :: rest))
    else if c = ',' then
      match skipBlanks rest with
      | [] => .error (.here .endInValue [])
      | ']' :: rest => .error (.next .trailingComma (']' :: rest))
      | rest => .ok (.part rest)
    else .error (.next .expectedCommaOrBracket (c :: rest))

def tooShort (m : Schema α) (length : Nat) : Fault :=
  .wrongLength length (m.expected ++ " with " ++ toString m.slots.length ++ " elements")

/-- Reads the elements of an array into the fields from the one with number `index` on. -/
def readElements (m : Schema α) (index : Nat) (record : α) :
    List (Slot α) → List Char → Except Failure (α × List Char)
  | [], s => (readEnd s).map (record, ·)
  | slot :: slots, s => do
    match ← nextElement (index == 0) s with
    | .closed s =>
      if (slot :: slots).any (·.required) then .error (.here (m.tooShort index) s)
      else return (record, s)
    | .part s =>
      let (record, s) ← slot.read record s
      m.readElements (index + 1) record slots s

/-- Reads a record that holds `initial` where nothing is given. -/
def read (m : Schema α) (initial : α) (s : List Char) : Except Failure (α × List Char) :=
  match skipBlanks s with
  | '[' :: rest => m.readElements 0 initial m.slots rest
  | '{' :: rest => do
    let (seen, record, s) ← m.readMembers [] initial true rest (rest.length + 1)
    match m.slots.find? fun slot => slot.required && !seen.contains slot.name with
    | some slot => .error (.here (.missingField slot.name) s)
    | none => return (record, s)
  | s => .error (unexpected m.expected s)

end Schema

end Scheduling.Json
