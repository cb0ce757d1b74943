/-!
# Ranges of characters

A property of characters is given as a list of ranges of code points, lowest first and without
overlap.
-/

namespace Reclaim.Text

/-- Ranges of code points, both ends included, in ascending order. -/
def Ranges : Type := List (Nat × Nat)

/-- Whether some range holds the number `n`.  Since the ranges ascend, the search ends at the first
one that starts after `n`. -/
def holds (n : Nat) : List (Nat × Nat) → Bool
  | [] => false
  | (lo, hi) :: rest => decide (lo ≤ n) && (decide (n ≤ hi) || holds n rest)

/-- Whether some range holds the code point of `c`. -/
def Ranges.has (r : Ranges) (c : Char) : Bool := holds c.toNat r

end Reclaim.Text
