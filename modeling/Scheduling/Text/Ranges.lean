/-!
# Ranges of characters

Classes of characters are kept as ascending ranges of their code points.
-/

namespace Scheduling.Text

/-- Whether a code point is in one of some ascending ranges, each given by its ends. -/
def inRanges : List (Nat × Nat) → Nat → Bool
  | [], _ => false
  | (low, high) :: rest, n => if n < low then false else n ≤ high || inRanges rest n

end Scheduling.Text
