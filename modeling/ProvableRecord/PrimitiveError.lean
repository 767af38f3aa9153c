import ProvableRecord.Text.Base64
import ProvableRecord.Text.Decimal

/-!
# Errors of the primitives

What can be wrong with a byte text, a curve point, a field element, a Merkle tree or a row to be
hashed.  Each constructor is a cause; `PrimitiveError.message` is its wording.
-/

namespace ProvableRecord

/-- Why a text denotes no bytes. -/
inductive EncodingFault where
  /-- The text is in neither of the two alphabets. -/
  | neitherForm
  | base64 (fault : Base64.Fault)
deriving DecidableEq

/-- Why coordinates or bytes denote no curve point. -/
inductive PointFault where
  /-- The coordinates do not satisfy the curve equation. -/
  | offCurve
  /-- The ordinate is not below the field modulus. -/
  | largeOrdinate
  /-- The ordinate leaves no equation for the abscissa. -/
  | degenerateOrdinate
  /-- The square of the abscissa would not be a square. -/
  | noAbscissa
  /-- The point has another encoding. -/
  | notCanonical
deriving DecidableEq

/-- An error of the cryptographic primitives. -/
inductive PrimitiveError where
  /-- The text of the named thing denotes no bytes. -/
  | encoding (thing : String) (fault : EncodingFault)
  /-- The text of the named thing denotes the wrong number of bytes. -/
  | length (thing : String) (expected actual : Nat)
  | point (fault : PointFault)
  /-- The number is not below the field modulus. -/
  | notFieldElement (n : Nat)
  /-- The tree has no leaf at the index. -/
  | leafOutOfRange (index size : Nat)
  | noLeaves
  /-- There is no hash of this many elements. -/
  | unsupportedArity (count : Nat)
deriving DecidableEq

/-- The wording of an encoding fault. -/
def EncodingFault.message : EncodingFault → String
  | .neitherForm => "text is neither hex nor base64"
  | .base64 (.loneSymbol length) => "Invalid input length: " ++ Decimal.ofNat length
  | .base64 (.spareBits last position) =>
    "Invalid last symbol " ++ Decimal.ofNat last.toNat ++ ", offset " ++ Decimal.ofNat position ++
      "."

/-- The wording of a point fault. -/
def PointFault.message : PointFault → String
  | .offCurve => "coordinates do not satisfy the curve equation"
  | .largeOrdinate => "y coordinate is not a field element"
  | .degenerateOrdinate => "degenerate y coordinate"
  | .noAbscissa => "x coordinate has no square root"
  | .notCanonical => "non-canonical point encoding"

/-- The wording of an error. -/
def PrimitiveError.message : PrimitiveError → String
  | .encoding thing fault => "invalid " ++ thing ++ " encoding: " ++ fault.message
  | .length thing expected actual =>
    "invalid " ++ thing ++ " length: expected " ++ Decimal.ofNat expected ++ " bytes, got " ++
      Decimal.ofNat actual
  | .point fault => "invalid curve point: " ++ fault.message
  | .notFieldElement n =>
    "value is not a field element: " ++ Decimal.ofNat n ++
      " is not less than the BN254 scalar field modulus"
  | .leafOutOfRange index size =>
    "leaf index " ++ Decimal.ofNat index ++ " out of range for tree of size " ++ Decimal.ofNat size
  | .noLeaves => "cannot build a Merkle tree with no leaves"
  | .unsupportedArity count =>
    "poseidon error: Invalid width: " ++ Decimal.ofNat (count + 1) ++
      ". Choose a width between 2 and 16 for 1 to 15 inputs."

end ProvableRecord
