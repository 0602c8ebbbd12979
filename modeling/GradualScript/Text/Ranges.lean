/-!
# Sets of characters as ranges of code points

* `Text.inRanges` : membership in an ascending list of closed ranges.
-/

set_option autoImplicit false

namespace GradualScript.Text

/-- The code point lies in one of the ranges, which are given in ascending order. -/
def inRanges (code : Nat) : List (Nat × Nat) → Bool
  | [] => false
  | (low, high) :: rest => if code < low then false else code ≤ high || inRanges code rest

/-- Ranges that do not touch, each from its lower to its upper end, in ascending order. -/
def ascending : List (Nat × Nat) → Bool
  | [] => true
  | [(low, high)] => low ≤ high
  | (low, high) :: (low', high') :: rest => low ≤ high && high + 1 < low' && ascending ((low', high') :: rest)

end GradualScript.Text
