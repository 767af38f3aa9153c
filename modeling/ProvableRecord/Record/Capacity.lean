import ProvableRecord.Doubling

/-!
# Sizes and depths

How deep the tree of a record is, and how many entries a depth has room for, over all words of 64
bits.  An entry takes two leaves, so one entry needs depth one and every further doubling one more.
-/

namespace ProvableRecord.Capacity

/-- The depth of the tree of a number of entries. -/
def depthFor (entries : UInt64) : UInt64 :=
  if entries = 0 then 0 else 1 + UInt64.ofNat (bitLength (entries - 1).toNat)

/-- The greatest number of entries whose tree has at most a given depth, or the greatest word if
that does not fit. -/
def entriesFor (depth : UInt64) : UInt64 :=
  if depth = 0 then 0
  else if depth - 1 < 64 then 1 <<< (depth - 1)
  else 0xffffffffffffffff

end ProvableRecord.Capacity
