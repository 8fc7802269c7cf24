/-!
# Ranges of code points

A class of characters is given by the ranges of its code points, in ascending
order and apart from each other.  A range is the pair of its first and its last
member.
-/

namespace Entailment.Text

/-- Whether a code point lies in one of some ascending ranges. -/
def inRanges (code : Nat) : List (Nat × Nat) → Bool
  | [] => false
  | (first, last) :: rest => decide (first ≤ code) && (decide (code ≤ last) || inRanges code rest)

end Entailment.Text
