import Scheduling.Json.Fault
/-!
# Shapes of stored values

A stored value is asked for in a shape. What fits is given back as a value in that shape, and what
does not is named together with what was expected.
-/

namespace Scheduling.Json

/-- What a value may be asked for as. -/
inductive Shape
  /-- A whole number between two bounds, by the name of its type. -/
  | integer (name : String) (least greatest : Int)
  | bool
  | text
  | texts
  /-- Whole numbers of 64 bits with texts as their keys. -/
  | integers
  /-- A whole number of 64 bits or `null`. -/
  | optional
  /-- Any value. -/
  | any
deriving Repr

namespace Shape

/-- Numbers from 0 to 255. -/
def byte : Shape := .integer "u8" 0 255

/-- Numbers of 64 bits without a sign. -/
def unsigned : Shape := .integer "u64" 0 (UInt64.size - 1)

/-- The least number of 64 bits with a sign. -/
def leastSigned : Int := -(UInt64.size / 2)

/-- The greatest number of 64 bits with a sign. -/
def greatestSigned : Int := UInt64.size / 2 - 1

/-- Numbers of 64 bits with a sign. -/
def signed : Shape := .integer "i64" leastSigned greatestSigned

/-- How a value is named where another was expected. -/
def found : Json → Found
  | .null => .null
  | .bool b => .bool b
  | .integer n => .integer n
  | .float bits => .float bits
  | .string s => .text s
  | .array _ => .sequence
  | .object _ => .map

/-- A value as a whole number between two bounds. -/
def takeInteger (name : String) (least greatest : Int) (j : Json) : Except Fault Json :=
  match j with
  | .integer n =>
    if least ≤ n ∧ n ≤ greatest then .ok j else .error (.wrongValue (.integer n) name)
  | j => .error (.wrongType (found j) name)

/-- A value as a number of 64 bits with a sign. -/
def takeSigned (j : Json) : Except Fault Json := takeInteger "i64" leastSigned greatestSigned j

def takeText (j : Json) : Except Fault Json :=
  match j with
  | .string _ => .ok j
  | j => .error (.wrongType (found j) "a string")

/-- A value in some shape, or why it does not fit. -/
def take (shape : Shape) (j : Json) : Except Fault Json :=
  match shape, j with
  | .integer name least greatest, j => takeInteger name least greatest j
  | .bool, .bool b => .ok (.bool b)
  | .bool, j => .error (.wrongType (found j) "a boolean")
  | .text, j => takeText j
  | .texts, .array items => (items.mapM takeText).map .array
  | .texts, j => .error (.wrongType (found j) "a sequence")
  | .integers, .object members =>
    (members.mapM fun m : String × Json => (takeSigned m.2).map (m.1, ·)).map .object
  | .integers, j => .error (.wrongType (found j) "a map")
  | .optional, .null => .ok .null
  | .optional, j => takeSigned j
  | .any, j => .ok j

end Shape

end Scheduling.Json
