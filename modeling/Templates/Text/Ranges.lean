/-!
# Ranges of code points

A class of characters is written as a list of closed ranges of code points in ascending order.
-/

namespace Templates

/-- The number lies in one of some closed ranges in ascending order; the search ends in front of the
first range that begins behind it. -/
def liesInRanges (n : Nat) : List (Nat × Nat) → Bool
  | [] => false
  | (first, last) :: ranges =>
    if n < first then false else if n ≤ last then true else liesInRanges n ranges

end Templates
