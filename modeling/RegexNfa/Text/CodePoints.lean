/-!
# Sets of code points

A property of characters given by the ranges of code points that have it.
-/

namespace RegexNfa

/-- Ranges of code points, both ends included. -/
abbrev CodePoints := List (Nat × Nat)

namespace CodePoints

def has (ranges : CodePoints) (c : Char) : Bool :=
  ranges.any fun (low, high) => low ≤ c.toNat && c.toNat ≤ high

end CodePoints

end RegexNfa
