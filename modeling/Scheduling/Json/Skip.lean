import Scheduling.Json.Reader
/-!
# Skipping JSON values

The value of a member that nobody asks for is skipped, whatever its type and however deeply it is
nested. Texts and numbers are looked at less closely than those that are read: surrogates need not
pair up, and no number is too large.
-/

namespace Scheduling.Json

/-- Skips what stands behind a backslash. -/
def skipEscape : List Char → Except Failure (List Char)
  | [] => .error (.here .endInString [])
  | 'u' :: rest => (readHex rest).map (·.2)
  | c :: rest =>
    if (simpleEscape? c).isSome then .ok rest else .error (.next .badEscape (c :: rest))

theorem skipEscape_length {s rest : List Char} (h : skipEscape s = .ok rest) :
    rest.length < s.length := by
  unfold skipEscape at h
  split at h
  · simp at h
  · rename_i r
    cases hr : readHex r with
    | error e => simp [hr, Except.map] at h
    | ok p =>
      have := readHex_length hr
      simp only [hr, Except.map, Except.ok.injEq] at h
      subst h
      simp only [List.length_cons]
      omega
  · split at h
    · simp only [Except.ok.injEq] at h
      subst h
      simp
    · simp at h

/-- Skips the part of a text behind its opening quote. -/
def skipText (s : List Char) : Except Failure (List Char) :=
  match s with
  | [] => .error (.here .endInString [])
  | '"' :: rest => .ok rest
  | '\\' :: rest =>
    match _h : skipEscape rest with
    | .ok rest => skipText rest
    | .error f => .error f
  | c :: rest =>
    if c.toNat < 32 then .error (.here .controlCharacter (c :: rest)) else skipText rest
termination_by s.length
decreasing_by
  · have := skipEscape_length _h
    simp only [List.length_cons]
    omega
  · simp

/-- The two kinds of brackets around values. -/
inductive Bracket
  | list
  | object
deriving DecidableEq, Repr

namespace Bracket

def closing : Bracket → Char
  | list => ']'
  | object => '}'

def atEnd : Bracket → Fault
  | list => .endInList
  | object => .endInObject

/-- The fault of a value that nothing separates from the one before. -/
def unseparated : Bracket → Fault
  | list => .expectedCommaOrBracket
  | object => .expectedCommaOrBrace

end Bracket

def readColon (s : List Char) : Except Failure (List Char) :=
  match skipBlanks s with
  | ':' :: rest => .ok rest
  | [] => .error (.here .endInObject [])
  | c :: rest => .error (.next .expectedColon (c :: rest))

/-- Goes on to the next value within brackets: past its key in an object. -/
def skipToValue (b : Bracket) (s : List Char) : Except Failure (List Char) :=
  match b with
  | .list => .ok s
  | .object =>
    match skipBlanks s with
    | '"' :: rest => do readColon (← skipText rest)
    | [] => .error (.here .endInObject [])
    | c :: rest => .error (.next .keyNotString (c :: rest))

/-- Goes on to the next value within these brackets, innermost first, and past those that are
closed before; `afterValue` tells whether a value stands before. -/
def leave (afterValue : Bool) : List Bracket → List Char →
    Except Failure (List Bracket × List Char)
  | [], s => .ok ([], s)
  | b :: outer, s =>
    match skipBlanks s with
    | [] => .error (.here b.atEnd [])
    | c :: rest =>
      if c = ',' ∧ afterValue then (skipToValue b rest).map (b :: outer, ·)
      else if c = b.closing then leave true outer rest
      else if afterValue then .error (.next b.unseparated (c :: rest))
      else (skipToValue b (c :: rest)).map (b :: outer, ·)

/-- Skips one value without brackets, or one opening bracket, which it tells. -/
def skipPart (s : List Char) : Except Failure (Option Bracket × List Char) :=
  match skipBlanks s with
  | [] => .error (.here .endInValue [])
  | c :: rest =>
    if c = 'n' then (readWord ['u', 'l', 'l'] rest).map (none, ·)
    else if c = 't' then (readWord ['r', 'u', 'e'] rest).map (none, ·)
    else if c = 'f' then (readWord ['a', 'l', 's', 'e'] rest).map (none, ·)
    else if c = '"' then (skipText rest).map (none, ·)
    else if c = '[' then .ok (some .list, rest)
    else if c = '{' then .ok (some .object, rest)
    else if c = '-' ∨ c.isDigit then
      (Numeral.read .badNumber (c :: rest)).map fun (_, rest) => (none, rest)
    else .error (.next .expectedValue (c :: rest))

/-- Skips values until all of these brackets are closed; each round takes at least one of `fuel`
characters. -/
def skipWithin (brackets : List Bracket) (s : List Char) : Nat → Except Failure (List Char)
  | 0 => .ok s
  | fuel + 1 => do
    let (entered, s) ← skipPart s
    match ← leave entered.isNone (entered.toList ++ brackets) s with
    | ([], s) => return s
    | (brackets, s) => skipWithin brackets s fuel

def skipValue (s : List Char) : Except Failure (List Char) :=
  skipWithin [] s (s.length + 1)

end Scheduling.Json
