/-! # Sets of code points

  A property of characters is given by a table of ranges of code points, in
  which `CodePoints.contains` looks a code point up.
-/

namespace RecencyCache.Text

/-- Ranges of code points, each from its first to its last. -/
abbrev CodePoints := List (Nat × Nat)

namespace CodePoints

/-- Whether a code point is in one of the ranges. -/
def contains (ranges : CodePoints) (n : Nat) : Bool := ranges.any fun r => r.1 ≤ n && n ≤ r.2

end CodePoints

end RecencyCache.Text
