/-!
# JSON values

Documents and results are JSON values. Whole numbers are kept exactly; all other numbers are
floating-point values, kept as their 64 bits.
-/

namespace Scheduling

inductive Json
  | null
  | bool (value : Bool)
  | integer (value : Int)
  /-- A floating-point number, by its IEEE 754 bits. -/
  | float (bits : UInt64)
  | string (text : String)
  | array (items : List Json)
  /-- The members in the order in which they were written. -/
  | object (members : List (String × Json))
deriving Repr, Inhabited, BEq

end Scheduling
