import Scheduling.Json.Fault
/-!
# Numbers in JSON texts

A number is read in two steps: its written form is split into digits, then its value is taken. A
whole number within 64 bits is kept exactly; any other is a floating-point number, computed from as
many leading digits as fit 64 bits, rounded, and scaled by one power of ten.
-/

namespace Scheduling.Json

/-- The written form of a number, digit by digit. -/
structure Numeral where
  negative : Bool
  whole : List Char
  /-- The digits behind the point, if there is one. -/
  fraction : Option (List Char)
  /-- Whether the exponent is negative, and its digits. -/
  exponent : Option (Bool × List Char)
deriving Repr

inductive Number
  | integer (value : Int)
  /-- A floating-point number, by its IEEE 754 bits. -/
  | float (bits : UInt64)
deriving DecidableEq, Repr

/-- A number as it is named where something else was expected. -/
def Number.found : Number → Found
  | integer value => .integer value
  | float bits => .float bits

namespace Numeral

/-- Splits off the digits at the front. -/
def digits (s : List Char) : List Char × List Char :=
  (s.takeWhile Char.isDigit, s.dropWhile Char.isDigit)

def exponentSign : List Char → Bool × List Char
  | '+' :: rest => (false, rest)
  | '-' :: rest => (true, rest)
  | s => (false, s)

/-- Reads the part of a number from its exponent on; `atEnd` is the fault of a text that ends too
early. -/
def readExponent (atEnd : Fault) (n : Numeral) (s : List Char) :
    Except Failure (Numeral × List Char) :=
  match s with
  | c :: rest =>
    if c = 'e' || c = 'E' then
      let (negative, rest) := exponentSign rest
      match digits rest with
      | ([], []) => .error (.here atEnd [])
      | ([], rest) => .error (.next .badNumber rest)
      | (ds, rest) => .ok ({ n with exponent := some (negative, ds) }, rest)
    else .ok (n, s)
  | [] => .ok (n, [])

/-- Reads the part of a number behind its whole digits. -/
def readFraction (atEnd : Fault) (n : Numeral) (s : List Char) :
    Except Failure (Numeral × List Char) :=
  match s with
  | '.' :: rest =>
    match digits rest with
    | ([], []) => .error (.here atEnd [])
    | ([], rest) => .error (.next .badNumber rest)
    | (ds, rest) => readExponent atEnd { n with fraction := some ds } rest
  | s => readExponent atEnd n s

/-- Reads the part of a number behind its sign. -/
def readUnsigned (atEnd : Fault) (negative : Bool) (s : List Char) :
    Except Failure (Numeral × List Char) :=
  match digits s with
  | ([], []) => .error (.here atEnd [])
  | ([], rest) => .error (.next .badNumber rest)
  | ('0' :: d :: ds, rest) => .error (.next .badNumber (d :: ds ++ rest))
  | (ds, rest) => readFraction atEnd ⟨negative, ds, none, none⟩ rest

/-- Reads the written form of a number. -/
def read (atEnd : Fault) (s : List Char) : Except Failure (Numeral × List Char) :=
  match s with
  | '-' :: rest => readUnsigned atEnd true rest
  | s => readUnsigned atEnd false s

def digitValue (c : Char) : Nat := c.toNat - 48

/-- Appends digits to a number as long as it stays within a limit; gives the digits that are
left. -/
def absorb (limit n : Nat) : List Char → Nat × List Char
  | [] => (n, [])
  | c :: rest =>
    if 10 * n + digitValue c ≤ limit then absorb limit (10 * n + digitValue c) rest
    else (n, c :: rest)

/-- The greatest number that is kept exactly. -/
def greatest : Nat := UInt64.size - 1

def greatestExponent : Nat := UInt32.size / 2 - 1

def tenTo (e : Nat) : Float := Float.ofScientific 1 false e

/-- Divides a floating-point number by a power of ten, in steps of at most 308 places. -/
def scaleDown (f : Float) (e : Nat) : Float :=
  if h : e ≤ 308 then f / tenTo e
  else if f == 0 then f
  else scaleDown (f / tenTo 308) (e - 308)
termination_by e

/-- The floating-point number with a sign, a significand and a decimal exponent, unless it is too
large. -/
def scaled? (negative : Bool) (significand : Nat) (exponent : Int) : Option Float :=
  let f := significand.toUInt64.toFloat
  let sign (f : Float) : Float := if negative then -f else f
  if exponent < 0 then some (sign (scaleDown f (-exponent).toNat))
  else if 308 < exponent then if f == 0 then some (sign f) else none
  else
    let g := f * tenTo exponent.toNat
    if g.isInf then none else some (sign g)

/-- The floating-point value of a number in front of `rest`, from its significand and the exponent
that its digits imply. -/
def floatValue (n : Numeral) (significand : Nat) (implied : Int) (rest : List Char) :
    Except Failure Number :=
  let finish (exponent : Int) : Except Failure Number :=
    match scaled? n.negative significand exponent with
    | some f => .ok (.float f.toBits)
    | none => .error (.here .numberOutOfRange rest)
  match n.exponent with
  | none => finish implied
  | some (negative, ds) =>
    match absorb greatestExponent 0 ds with
    | (e, []) => finish (if negative then implied - e else implied + e)
    | (_, _ :: left) =>
      if significand ≠ 0 ∧ !negative then .error (.here .numberOutOfRange (left ++ rest))
      else .ok (.float (if n.negative then -0.0 else (0.0 : Float)).toBits)

/-- The value of a number in front of `rest`. -/
def value (n : Numeral) (rest : List Char) : Except Failure Number :=
  match absorb greatest 0 n.whole, n.fraction, n.exponent with
  | (m, []), none, none =>
    if !n.negative then .ok (.integer m)
    else if 0 < m ∧ m ≤ UInt64.size / 2 then .ok (.integer (-m))
    else .ok (.float (-m.toUInt64.toFloat).toBits)
  | (m, left), _, _ =>
    let places := n.fraction.getD []
    let (significand, unused) := absorb greatest m places
    n.floatValue significand ((left.length : Int) - (places.length - unused.length)) rest

end Numeral

def readNumber (s : List Char) : Except Failure (Number × List Char) := do
  let (n, rest) ← Numeral.read .endInValue s
  return (← n.value rest, rest)

end Scheduling.Json
