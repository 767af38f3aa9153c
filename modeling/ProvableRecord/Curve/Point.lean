import ProvableRecord.Field
import ProvableRecord.PrimitiveError

/-!
# Points of the curve

The twisted Edwards curve `a x² + y² = 1 + d x² y²` over the scalar field.  The sum of two points is
given by one formula for all pairs, and its denominators do not vanish on the curve.
-/

namespace ProvableRecord

namespace Curve

/-- The coefficient `a` of the curve equation, a square. -/
def a : Fp := 168700

/-- The coefficient `d` of the curve equation, not a square. -/
def d : Fp := 168696

/-- The prime order of the subgroup in which keys and signatures are made; the curve has eight times
as many points. -/
def subgroupOrder : Nat :=
  2736030358979909402780800718157159386076813972158567259200215660948447373041

end Curve

/-- A pair of coordinates. -/
structure Point where
  x : Fp
  y : Fp
deriving DecidableEq

namespace Point

/-- Whether the coordinates satisfy the curve equation. -/
def OnCurve (P : Point) : Prop :=
  Curve.a * (P.x * P.x) + P.y * P.y = 1 + Curve.d * (P.x * P.x) * (P.y * P.y)

instance (P : Point) : Decidable P.OnCurve := inferInstanceAs (Decidable (_ = _))

/-- The point with the given coordinates, if they satisfy the curve equation. -/
def ofCoordinates (x y : Fp) : Except PrimitiveError Point :=
  if OnCurve ⟨x, y⟩ then .ok ⟨x, y⟩ else .error (.point .offCurve)

/-- The neutral point. -/
def identity : Point := ⟨0, 1⟩

/-- The generator of the subgroup of prime order. -/
def base : Point :=
  ⟨5299619240641551281634865583518297030282874472190772894086521144482721001553,
   16950150798460657717958625567821834550301663161624707787222815936182638968203⟩

/-- The factor that both denominators of a sum are made of. -/
def crossTerm (P Q : Point) : Fp := Curve.d * (P.x * Q.x) * (P.y * Q.y)

/-- The sum of two points. -/
def add (P Q : Point) : Point :=
  ⟨(P.x * Q.y + P.y * Q.x) * (1 + crossTerm P Q).inv,
   (P.y * Q.y - Curve.a * (P.x * Q.x)) * (1 - crossTerm P Q).inv⟩

instance : Add Point := ⟨add⟩

/-- The point opposite to `P`, which has the negated abscissa. -/
def neg (P : Point) : Point := ⟨-P.x, P.y⟩

instance : Neg Point := ⟨neg⟩

theorem ofCoordinates_eq_ok_iff {x y : Fp} {P : Point} :
    ofCoordinates x y = .ok P ↔ P = ⟨x, y⟩ ∧ P.OnCurve := by
  unfold ofCoordinates
  split
  · constructor
    · rintro ⟨⟩; exact ⟨rfl, ‹_›⟩
    · rintro ⟨rfl, -⟩; rfl
  · constructor
    · rintro ⟨⟩
    · rintro ⟨rfl, h⟩; exact absurd h ‹_›

end Point

end ProvableRecord
