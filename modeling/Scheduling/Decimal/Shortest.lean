/-!
# Shortest decimals

The decimal number with the fewest digits that reads back as a given binary floating-point number,
and of those the nearest. The search is in exact arithmetic: for each number of digits the two
neighbours of the value on that decimal grid are tried.
-/

namespace Scheduling.Decimal

/-- A fraction of natural numbers. -/
structure Fraction where
  num : Nat
  den : Nat
deriving Repr

/-- `n · 2 ^ q`. -/
def Fraction.scaled (n : Nat) (q : Int) : Fraction :=
  if 0 ≤ q then ⟨n <<< q.toNat, 1⟩ else ⟨n, 1 <<< (-q).toNat⟩

/-- The exponent of the first decimal digit of a positive fraction. -/
def Fraction.magnitude (f : Fraction) : Int :=
  if f.den ≤ f.num then ((Nat.toDigits 10 (f.num / f.den)).length : Int) - 1
  else
    let places := (Nat.toDigits 10 (f.den / f.num)).length
    if f.num * Nat.pow 10 (places - 1) = f.den then 1 - (places : Int) else -(places : Int)

/-- A finite floating-point number other than zero: `mantissa · 2 ^ exponent`. -/
structure Binary where
  mantissa : Nat
  exponent : Int
  /-- Whether the next smaller number is only half as far away as the next larger one. -/
  lopsided : Bool
deriving Repr

/-- A decimal number: `digits · 10 ^ exponent`. -/
structure Digits where
  digits : Nat
  exponent : Int
deriving Repr, DecidableEq

namespace Binary

/-- The lower and upper end of the numbers that round to this one, and the number between them, in
quarters of its last binary place. -/
def quarters (b : Binary) : Nat × Nat × Nat :=
  (4 * b.mantissa - (if b.lopsided then 1 else 2), 4 * b.mantissa, 4 * b.mantissa + 2)

/-- Compares `k · 10 ^ e` with `n · 2 ^ q`. -/
def compareGrid (k : Nat) (e : Int) (n : Nat) (q : Int) : Ordering :=
  let f := Fraction.scaled n q
  if 0 ≤ e then compare (k * Nat.pow 10 e.toNat * f.den) f.num
  else compare (k * f.den) (f.num * Nat.pow 10 (-e).toNat)

/-- Whether `k · 10 ^ e` rounds to the number; the ends count if the mantissa is even. -/
def accepts (b : Binary) (k : Nat) (e : Int) : Bool :=
  let (low, _, high) := b.quarters
  let ends := b.mantissa % 2 = 0
  let above := compareGrid k e low (b.exponent - 2)
  let below := compareGrid k e high (b.exponent - 2)
  (above == .gt || (above == .eq && ends)) && (below == .lt || (below == .eq && ends))

/-- The largest multiple of `10 ^ e` up to the number, and whether the next one is nearer. -/
def neighbours (b : Binary) (e : Int) : Nat × Bool :=
  let f := Fraction.scaled b.mantissa b.exponent
  let num := if 0 ≤ e then f.num else f.num * Nat.pow 10 (-e).toNat
  let den := if 0 ≤ e then f.den * Nat.pow 10 e.toNat else f.den
  let k := num / den
  (k, 2 * (num % den) > den || (2 * (num % den) = den && k % 2 = 1))

/-- The better of the two neighbours on a grid that round to the number. -/
def onGrid? (b : Binary) (e : Int) : Option Nat :=
  let (k, nextIsNearer) := b.neighbours e
  match b.accepts k e, b.accepts (k + 1) e with
  | true, true => some (if nextIsNearer then k + 1 else k)
  | true, false => some k
  | false, true => some (k + 1)
  | false, false => none

/-- Tries grids of more and more digits. -/
def search (b : Binary) (magnitude : Int) : Nat → Nat → Digits
  | _, 0 => ⟨0, 0⟩
  | count, fuel + 1 =>
    let e := magnitude - count + 1
    match b.onGrid? e with
    | some k => ⟨k, e⟩
    | none => search b magnitude (count + 1) fuel

/-- The shortest decimal that reads back as the number; seventeen digits always do. -/
def shortest (b : Binary) : Digits :=
  b.search (Fraction.scaled b.mantissa b.exponent).magnitude 1 17

end Binary

/-- Drops trailing zeros of the digits. -/
def Digits.trim (d : Digits) : Nat → Digits
  | 0 => d
  | fuel + 1 =>
    if d.digits ≠ 0 ∧ d.digits % 10 = 0 then
      Digits.trim ⟨d.digits / 10, d.exponent + 1⟩ fuel
    else d

/-- What the 64 bits of a floating-point number stand for. -/
inductive Meaning
  | zero (negative : Bool)
  | finite (negative : Bool) (value : Binary)
  | infinite (negative : Bool)
  | notANumber
deriving Repr

/-- Reads the 64 bits of a floating-point number. -/
def Meaning.ofBits (bits : UInt64) : Meaning :=
  let n := bits.toNat
  let negative := UInt64.size / 2 ≤ n
  let exponent : Nat := n >>> 52 % 2048
  let fraction : Nat := n % (1 <<< 52)
  if exponent = 2047 then if fraction = 0 then .infinite negative else .notANumber
  else if exponent = 0 then
    if fraction = 0 then .zero negative else .finite negative ⟨fraction, -1074, false⟩
  else
    .finite negative ⟨1 <<< 52 + fraction, (exponent : Int) - 1075, fraction = 0 && 1 < exponent⟩

/-- How numbers are written: positionally while the exponent of the first digit is within bounds,
always with a fraction, and otherwise with an exponent. -/
structure Style where
  least : Int
  greatest : Int
  /-- The fewest digits of an exponent. -/
  exponentWidth : Nat
deriving Repr

/-- Zeros in front of a number of digits up to some width. -/
def padded (width n : Nat) : String :=
  let digits := Nat.toDigits 10 n
  String.ofList (List.replicate (width - digits.length) '0' ++ digits)

/-- Writes decimal digits. -/
def Style.digits (style : Style) (d : Digits) : String :=
  let digits := Nat.toDigits 10 d.digits
  let first : Int := d.exponent + digits.length - 1
  if style.least ≤ first ∧ first ≤ style.greatest then
    if 0 ≤ d.exponent then
      String.ofList (digits ++ List.replicate d.exponent.toNat '0') ++ ".0"
    else if 0 ≤ first then
      let whole := first.toNat + 1
      String.ofList (digits.take whole) ++ "." ++ String.ofList (digits.drop whole)
    else "0." ++ String.ofList (List.replicate ((-first).toNat - 1) '0' ++ digits)
  else
    let mantissa :=
      match digits with
      | [] => ""
      | [c] => String.singleton c
      | c :: rest => String.singleton c ++ "." ++ String.ofList rest
    mantissa ++ (if first < 0 then "e-" else "e+") ++ padded style.exponentWidth first.natAbs

/-- Writes the number that 64 bits stand for. -/
def Style.text (style : Style) (bits : UInt64) : String :=
  let sign (negative : Bool) : String := if negative then "-" else ""
  match Meaning.ofBits bits with
  | .zero negative => sign negative ++ "0.0"
  | .infinite negative => sign negative ++ "inf"
  | .notANumber => "NaN"
  | .finite negative value => sign negative ++ style.digits (value.shortest.trim 17)

end Scheduling.Decimal
