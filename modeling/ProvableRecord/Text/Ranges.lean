/-!
# Sets of characters as ranges

A set of characters is given by the first and last code points of its ranges.
-/

namespace ProvableRecord.Text

/-- Ranges of code points, each as its first and last. -/
abbrev CodeRanges := List (Nat × Nat)

/-- Whether the code point of a character is in one of the ranges. -/
def CodeRanges.contains (ranges : CodeRanges) (c : Char) : Bool :=
  ranges.any fun r => r.1 ≤ c.toNat && c.toNat ≤ r.2

end ProvableRecord.Text
