import Scheduling.Decimal.Shortest
import Scheduling.Json.Value
/-!
# Written form of JSON values

The compact text of a JSON value: no blanks, members in their order, characters escaped only where
they must be.
-/

namespace Scheduling.Json

/-- The lower-case hexadecimal digit of a number below 16. -/
def hexDigit (n : Nat) : Char :=
  if n < 10 then Char.ofNat (48 + n) else Char.ofNat (87 + n)

/-- A character as it stands between quotes. -/
def escape (c : Char) : List Char :=
  if c = '"' then ['\\', '"']
  else if c = '\\' then ['\\', '\\']
  else if c = '\n' then ['\\', 'n']
  else if c = '\t' then ['\\', 't']
  else if c = '\r' then ['\\', 'r']
  else if c.toNat = 8 then ['\\', 'b']
  else if c.toNat = 12 then ['\\', 'f']
  else if c.toNat < 32 then
    ['\\', 'u', '0', '0', hexDigit (c.toNat / 16), hexDigit (c.toNat % 16)]
  else [c]

/-- A text between quotes. -/
def quote (s : String) : List Char :=
  '"' :: s.toList.flatMap escape ++ ['"']

/-- Floating-point numbers are written positionally from 0.00001 to below 10 to the power
16. -/
def numberStyle : Decimal.Style := ⟨-5, 15, 2⟩

/-- A floating-point number; what is no number is written `null`. -/
def floatText (bits : UInt64) : String :=
  match Decimal.Meaning.ofBits bits with
  | .infinite _ | .notANumber => "null"
  | _ => numberStyle.text bits

mutual

/-- The text of a value. -/
def print : Json → List Char
  | null => ['n', 'u', 'l', 'l']
  | bool true => ['t', 'r', 'u', 'e']
  | bool false => ['f', 'a', 'l', 's', 'e']
  | integer n => (toString n).toList
  | float bits => (floatText bits).toList
  | string s => quote s
  | array items => '[' :: printItems items
  | object members => '{' :: printMembers members

/-- The items of an array, with the bracket behind them. -/
def printItems : List Json → List Char
  | [] => [']']
  | [item] => print item ++ [']']
  | item :: rest => print item ++ ',' :: printItems rest

/-- The members of an object, with the brace behind them. -/
def printMembers : List (String × Json) → List Char
  | [] => ['}']
  | [(name, value)] => quote name ++ ':' :: (print value ++ ['}'])
  | (name, value) :: rest => quote name ++ ':' :: (print value ++ ',' :: printMembers rest)

end

/-- The compact text of a value. -/
def text (j : Json) : String := String.ofList j.print

end Scheduling.Json
