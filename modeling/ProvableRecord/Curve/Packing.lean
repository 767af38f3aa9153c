import ProvableRecord.Bytes
import ProvableRecord.Curve.Point
import ProvableRecord.Field.SquareRoot

/-!
# Points in thirty-two bytes

A point is stored as its ordinate, low byte first, with the sign of its abscissa in the highest bit.
Reading recovers the abscissa from the curve equation and accepts only the encoding that writing
would produce.
-/

namespace ProvableRecord.Point

/-- The value of the bit that holds the sign of the abscissa. -/
def signBit : Nat := 1 <<< 255

/-- The encoding of a point. -/
def pack (P : Point) : Bytes 32 :=
  Bytes.ofNat 32 (P.y.val + if P.x.isUpper then signBit else 0)

/-- The square that the abscissa of a point with ordinate `y` must have, if the curve equation
determines it. -/
def abscissaSquare? (y : Fp) : Option Fp :=
  let denominator := Curve.a - Curve.d * (y * y)
  if denominator = 0 then none else some ((1 - y * y) * denominator.inv)

/-- Reads an encoded point. -/
def unpack (bytes : Bytes 32) : Except PrimitiveError Point := do
  let n := bytes.toNat
  let some y := Fp.ofNat? (n % signBit) | throw (.point .largeOrdinate)
  let some square := abscissaSquare? y | throw (.point .degenerateOrdinate)
  let some root := square.sqrt? | throw (.point .noAbscissa)
  let low := if root.isUpper then -root else root
  let point : Point := ⟨if signBit ≤ n then -low else low, y⟩
  if point.pack = bytes then return point else throw (.point .notCanonical)

end ProvableRecord.Point
