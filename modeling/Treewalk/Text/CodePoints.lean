/-!
Sets of characters given by ranges of code points, as the Unicode Character Database lists its
properties. A table is a list of closed ranges in increasing order.
-/

namespace Treewalk.Text

/-- Closed ranges of code points. -/
abbrev CodePoints := List (Nat × Nat)

def CodePoints.contains (ranges : CodePoints) (c : Char) : Bool :=
  ranges.any fun r => decide (r.1 ≤ c.toNat) && decide (c.toNat ≤ r.2)

end Treewalk.Text
