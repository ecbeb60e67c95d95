/-!
# Classes of characters

A class of characters is given by ranges of code points.
-/

namespace TreeProjection.Text

/-- The character lies in one of the ranges, given by their first and last code points. -/
def inRanges (ranges : Array (Nat × Nat)) (c : Char) : Bool :=
  ranges.any fun range => range.1 ≤ c.toNat && c.toNat ≤ range.2

end TreeProjection.Text
