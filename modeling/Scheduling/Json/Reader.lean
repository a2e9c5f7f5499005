import Scheduling.Json.Number
/-!
# Reading JSON texts

Readers of single values of a known type. A reader takes the characters that are left and gives a
value with those that are left behind it, or the first fault. What stands where a value of another
type was expected is read as far as it takes to name it.
-/

namespace Scheduling.Json

/-- Reads a value off the front of a text. -/
abbrev Reader (α : Type) := List Char → Except Failure (α × List Char)

/-- The blanks of JSON: space, tab, line feed and carriage return. -/
def isBlank (c : Char) : Bool := c = ' ' || c = '\t' || c = '\n' || c = '\r'

def skipBlanks (s : List Char) : List Char := s.dropWhile isBlank

/-! ## Words -/

def readWord : List Char → List Char → Except Failure (List Char)
  | [], s => .ok s
  | _ :: _, [] => .error (.here .endInValue [])
  | w :: word, c :: rest =>
    if c = w then readWord word rest else .error (.next .brokenWord (c :: rest))

/-! ## Texts -/

def hexValue? (c : Char) : Option Nat :=
  if c.isDigit then some (c.toNat - 48)
  else if 'a' ≤ c && c ≤ 'f' then some (c.toNat - 87)
  else if 'A' ≤ c && c ≤ 'F' then some (c.toNat - 55)
  else none

/-- The number written by four hexadecimal digits. -/
def hexQuad? (a b c d : Char) : Option Nat := do
  return (((← hexValue? a) * 16 + (← hexValue? b)) * 16 + (← hexValue? c)) * 16 + (← hexValue? d)

/-- The fault of a text that does not begin with four hexadecimal digits; four bytes are taken
before they are looked at. -/
def hexFailure (s : List Char) : Failure :=
  if byteCount s < 4 then .here .endInString [] else ⟨.badEscape, s, 4⟩

/-- Reads four hexadecimal digits. -/
def readHex (s : List Char) : Except Failure (Nat × List Char) :=
  match s with
  | a :: b :: c :: d :: rest =>
    match hexQuad? a b c d with
    | some n => .ok (n, rest)
    | none => .error (hexFailure s)
  | _ => .error (hexFailure s)

/-- The characters that stand behind a backslash for one character. -/
def simpleEscape? (c : Char) : Option Char :=
  if c = '"' ∨ c = '\\' ∨ c = '/' then some c
  else if c = 'b' then some '\x08'
  else if c = 'f' then some '\x0c'
  else if c = 'n' then some '\n'
  else if c = 'r' then some '\r'
  else if c = 't' then some '\t'
  else none

/-- Reads the second of two surrogates that stand for one character. -/
def readLowSurrogate (high : Nat) (s : List Char) : Except Failure (Char × List Char) :=
  match s with
  | [] => .error (.here .endInString [])
  | '\\' :: [] => .error (.here .endInString [])
  | '\\' :: 'u' :: rest => do
    let (low, rest) ← readHex rest
    if low < 0xdc00 ∨ 0xdfff < low then .error (.here .loneSurrogate rest)
    else .ok (Char.ofNat (0x10000 + (high - 0xd800) * 0x400 + (low - 0xdc00)), rest)
  | '\\' :: c :: rest => .error (.next .unpairedSurrogate (c :: rest))
  | c :: rest => .error (.next .unpairedSurrogate (c :: rest))

/-- Reads what stands behind a backslash. -/
def readEscape (s : List Char) : Except Failure (Char × List Char) :=
  match s with
  | [] => .error (.here .endInString [])
  | 'u' :: rest => do
    let (n, rest) ← readHex rest
    if 0xdc00 ≤ n ∧ n ≤ 0xdfff then .error (.here .loneSurrogate rest)
    else if 0xd800 ≤ n ∧ n ≤ 0xdbff then readLowSurrogate n rest
    else .ok (Char.ofNat n, rest)
  | c :: rest =>
    match simpleEscape? c with
    | some e => .ok (e, rest)
    | none => .error (.next .badEscape (c :: rest))

theorem readHex_length {s rest : List Char} {n : Nat} (h : readHex s = .ok (n, rest)) :
    rest.length < s.length := by
  unfold readHex at h
  split at h
  · split at h
    · simp only [Except.ok.injEq, Prod.mk.injEq] at h
      obtain ⟨_, rfl⟩ := h
      simp only [List.length_cons]
      omega
    · simp at h
  · simp at h

theorem readLowSurrogate_length {high : Nat} {s rest : List Char} {c : Char}
    (h : readLowSurrogate high s = .ok (c, rest)) : rest.length < s.length := by
  unfold readLowSurrogate at h
  split at h
  · simp at h
  · simp at h
  · rename_i r
    cases hr : readHex r with
    | error e => simp [hr, bind, Except.bind] at h
    | ok p =>
      have := readHex_length hr
      simp only [hr, bind, Except.bind] at h
      split at h
      · simp at h
      · simp only [Except.ok.injEq, Prod.mk.injEq] at h
        obtain ⟨_, rfl⟩ := h
        simp only [List.length_cons]
        omega
  · simp at h
  · simp at h

theorem readEscape_length {s rest : List Char} {c : Char} (h : readEscape s = .ok (c, rest)) :
    rest.length < s.length := by
  unfold readEscape at h
  split at h
  · simp at h
  · rename_i r
    cases hr : readHex r with
    | error e => simp [hr, bind, Except.bind] at h
    | ok p =>
      have := readHex_length hr
      simp only [hr, bind, Except.bind] at h
      split at h
      · simp at h
      · split at h
        · have := readLowSurrogate_length h
          simp only [List.length_cons]
          omega
        · simp only [Except.ok.injEq, Prod.mk.injEq] at h
          obtain ⟨_, rfl⟩ := h
          simp only [List.length_cons]
          omega
  · split at h
    · simp only [Except.ok.injEq, Prod.mk.injEq] at h
      obtain ⟨_, rfl⟩ := h
      simp
    · simp at h

/-- Reads the part of a text behind its opening quote. -/
def readTextFrom (before : List Char) (s : List Char) : Except Failure (String × List Char) :=
  match s with
  | [] => .error (.here .endInString [])
  | '"' :: rest => .ok (String.ofList before.reverse, rest)
  | '\\' :: rest =>
    match _h : readEscape rest with
    | .ok (c, rest) => readTextFrom (c :: before) rest
    | .error f => .error f
  | c :: rest =>
    if c.toNat < 32 then .error (.next .controlCharacter (c :: rest))
    else readTextFrom (c :: before) rest
termination_by s.length
decreasing_by
  · have := readEscape_length _h
    simp only [List.length_cons]
    omega
  · simp

/-! ## Values of a known type -/

def unexpected (expected : String) (s : List Char) : Failure :=
  let wrong (found : Found) (rest : List Char) : Failure :=
    .here (.wrongType found expected) rest
  match s with
  | [] => .here .endInValue []
  | c :: rest =>
    let word (w : List Char) (found : Found) : Failure :=
      match readWord w rest with
      | .ok rest => wrong found rest
      | .error f => f
    if c = 'n' then word ['u', 'l', 'l'] .null
    else if c = 't' then word ['r', 'u', 'e'] (.bool true)
    else if c = 'f' then word ['a', 'l', 's', 'e'] (.bool false)
    else if c = '"' then
      match readTextFrom [] rest with
      | .ok (t, rest) => wrong (.text t) rest
      | .error f => f
    else if c = '[' then wrong .sequence s
    else if c = '{' then wrong .map s
    else if c = '-' ∨ c.isDigit then
      match readNumber s with
      | .ok (n, rest) => wrong n.found rest
      | .error f => f
    else .next .expectedValue s

/-- Reads `null`. -/
def readNull (s : List Char) : Except Failure (Unit × List Char) :=
  match skipBlanks s with
  | 'n' :: rest => (readWord ['u', 'l', 'l'] rest).map ((), ·)
  | s => .error (unexpected "unit" s)

/-- Reads a truth value. -/
def readBool (s : List Char) : Except Failure (Bool × List Char) :=
  match skipBlanks s with
  | 't' :: rest => (readWord ['r', 'u', 'e'] rest).map (true, ·)
  | 'f' :: rest => (readWord ['a', 'l', 's', 'e'] rest).map (false, ·)
  | s => .error (unexpected "a boolean" s)

/-- Reads a text; `expected` says for what it stands. -/
def readText (expected : String) (s : List Char) : Except Failure (String × List Char) :=
  match skipBlanks s with
  | '"' :: rest => readTextFrom [] rest
  | s => .error (unexpected expected s)

/-- Types of whole numbers: a name and the greatest one. -/
structure Width where
  name : String
  greatest : Nat

/-- Numbers of 32 bits. -/
def Width.short : Width := ⟨"u32", UInt32.size - 1⟩

/-- Numbers of 64 bits. -/
def Width.long : Width := ⟨"u64", UInt64.size - 1⟩

/-- Counts of things, which have 64 bits. -/
def Width.count : Width := ⟨"usize", UInt64.size - 1⟩

/-- Reads a whole number that is not negative and not too large. -/
def readNat (width : Width) (s : List Char) : Except Failure (Nat × List Char) :=
  match skipBlanks s with
  | [] => .error (unexpected width.name [])
  | c :: rest =>
    if c = '-' ∨ c.isDigit then
      match readNumber (c :: rest) with
      | .error f => .error f
      | .ok (.integer n, rest) =>
        if 0 ≤ n ∧ n ≤ width.greatest then .ok (n.toNat, rest)
        else .error (.here (.wrongValue (.integer n) width.name) rest)
      | .ok (.float bits, rest) => .error (.here (.wrongType (.float bits) width.name) rest)
    else .error (unexpected width.name (c :: rest))

/-- Reads a value or `null`. -/
def readOption {α : Type} (read : Reader α) (s : List Char) :
    Except Failure (Option α × List Char) :=
  match skipBlanks s with
  | 'n' :: rest => (readWord ['u', 'l', 'l'] rest).map (none, ·)
  | s => (read s).map fun (a, rest) => (some a, rest)

/-- Reads a whole text: nothing but blanks may stand behind the value. -/
def readAll {α : Type} (read : Reader α) (text : String) : Except String α :=
  match read text.toList with
  | .error f => .error (f.message text.toList)
  | .ok (a, rest) =>
    match skipBlanks rest with
    | [] => .ok a
    | rest => .error ((Failure.next .trailingCharacters rest).message text.toList)

end Scheduling.Json
