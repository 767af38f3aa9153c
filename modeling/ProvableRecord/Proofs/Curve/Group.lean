import ProvableRecord.Curve.Projective
import ProvableRecord.Proofs.Curve.Edwards
import ProvableRecord.Proofs.Field.Residue

/-!
# The group of curve points

The coefficient `a` of the curve is a square and `d` is not.  With a root of `a` the map
`(x, y) ↦ (√a x, y)` takes the curve to a complete Edwards curve and its sum to the sum there, so
the points of the curve are a commutative group under `Point.add`: `CurvePoint`.

* `Point.onCurve_iff` — the curve equation as the equation of the Edwards curve
* `Point.edwards_add` — the two sums agree
* `Point.OnCurve.add`, `Point.OnCurve.neg` — the curve is closed under the group operations
* `Point.group_laws` — the laws of the group for coordinates
-/

namespace ProvableRecord

namespace Curve

/-- A square root of the coefficient `a`. -/
def rootA : Fp := 7214280148105020021932206872019688659210616427216992810330019057549499971851

theorem rootA_mul_self : rootA * rootA = a := by decide

/-- By Euler's criterion `d` is not a square. -/
theorem d_pow : d ^ ((fieldModulus - 1) / 2) = -1 := by decide +kernel

/-- The coefficient of the Edwards curve. -/
def ratio : ZMod fieldModulus := d.toZMod / a.toZMod

theorem toZMod_a : a.toZMod = rootA.toZMod * rootA.toZMod := by
  rw [← Fp.toZMod_mul, rootA_mul_self]

theorem toZMod_a_ne_zero : a.toZMod ≠ 0 := by
  rw [Ne, Fp.toZMod_eq_zero_iff]
  decide

theorem toZMod_rootA_ne_zero : rootA.toZMod ≠ 0 := by
  intro h
  exact toZMod_a_ne_zero (by rw [toZMod_a, h, mul_zero])

theorem toZMod_d : d.toZMod = ratio * a.toZMod := (div_mul_cancel₀ _ toZMod_a_ne_zero).symm

instance : CompleteEdwards ratio where
  two_ne_zero := by
    have htwo : (2 : ZMod fieldModulus) = Fp.toZMod 2 := by simp
    rw [htwo, Ne, Fp.toZMod_eq_zero_iff]
    decide
  not_isSquare := by
    rintro ⟨r, hr⟩
    -- the square of `r √a` would be `d`
    have hd : d.toZMod = (r * rootA.toZMod) ^ 2 := by
      rw [toZMod_d, hr, toZMod_a]
      ring
    have hne : r * rootA.toZMod ≠ 0 := by
      intro h0
      rw [h0, zero_pow two_ne_zero, Fp.toZMod_eq_zero_iff] at hd
      exact absurd hd (by decide)
    have hone : d.toZMod ^ ((fieldModulus - 1) / 2) = 1 := by
      rw [hd, ← pow_mul]
      exact ZMod.pow_card_sub_one_eq_one hne
    rw [← Fp.toZMod_pow, ← Fp.toZMod_one, Fp.toZMod_inj, d_pow] at hone
    exact absurd hone (by decide)

end Curve

namespace Point

open Curve

theorem onCurve_iff {P : Point} : P.OnCurve ↔
    (rootA.toZMod * P.x.toZMod) ^ 2 + P.y.toZMod ^ 2
      = 1 + ratio * (rootA.toZMod * P.x.toZMod) ^ 2 * P.y.toZMod ^ 2 := by
  rw [OnCurve, ← Fp.toZMod_inj]
  simp only [Fp.toZMod_add, Fp.toZMod_mul, Fp.toZMod_one, toZMod_d, toZMod_a]
  constructor <;> intro h <;> linear_combination h

/-- A point as a point of the Edwards curve. -/
def toEdwards (P : Point) (h : P.OnCurve) : EdwardsPoint ratio :=
  ⟨rootA.toZMod * P.x.toZMod, P.y.toZMod, onCurve_iff.mp h⟩

theorem toEdwards_injective {P Q : Point} {hP : P.OnCurve} {hQ : Q.OnCurve}
    (h : P.toEdwards hP = Q.toEdwards hQ) : P = Q := by
  obtain ⟨hx, hy⟩ := EdwardsPoint.ext_iff.mp h
  have hx' := Fp.toZMod_injective (mul_left_cancel₀ toZMod_rootA_ne_zero hx)
  have hy' := Fp.toZMod_injective hy
  cases P
  cases Q
  simp_all

theorem toZMod_crossTerm {P Q : Point} (hP : P.OnCurve) (hQ : Q.OnCurve) :
    (crossTerm P Q).toZMod = EdwardsPoint.cross (P.toEdwards hP) (Q.toEdwards hQ) := by
  simp only [crossTerm, EdwardsPoint.cross, toEdwards, Fp.toZMod_mul, toZMod_d, toZMod_a]
  ring

theorem toZMod_x_add (P Q : Point) : (P + Q).x.toZMod
    = (P.x.toZMod * Q.y.toZMod + P.y.toZMod * Q.x.toZMod) / (1 + (crossTerm P Q).toZMod) := by
  show ((P.x * Q.y + P.y * Q.x) * (1 + crossTerm P Q).inv).toZMod = _
  simp only [Fp.toZMod_mul, Fp.toZMod_inv, Fp.toZMod_add, Fp.toZMod_one, div_eq_mul_inv]

theorem toZMod_y_add (P Q : Point) : (P + Q).y.toZMod
    = (P.y.toZMod * Q.y.toZMod - a.toZMod * (P.x.toZMod * Q.x.toZMod))
      / (1 - (crossTerm P Q).toZMod) := by
  show ((P.y * Q.y - a * (P.x * Q.x)) * (1 - crossTerm P Q).inv).toZMod = _
  simp only [Fp.toZMod_mul, Fp.toZMod_inv, Fp.toZMod_sub, Fp.toZMod_one, div_eq_mul_inv]

/-- The coordinates of a sum are those of the sum on the Edwards curve. -/
theorem edwards_add {P Q : Point} (hP : P.OnCurve) (hQ : Q.OnCurve) :
    rootA.toZMod * (P + Q).x.toZMod = (P.toEdwards hP + Q.toEdwards hQ).x
      ∧ (P + Q).y.toZMod = (P.toEdwards hP + Q.toEdwards hQ).y := by
  rw [toZMod_x_add, toZMod_y_add, EdwardsPoint.x_add, EdwardsPoint.y_add, toZMod_crossTerm hP hQ,
    toZMod_a]
  simp only [toEdwards]
  constructor <;> ring

/-- **The curve is closed under addition.** -/
theorem OnCurve.add {P Q : Point} (hP : P.OnCurve) (hQ : Q.OnCurve) : (P + Q).OnCurve := by
  obtain ⟨hx, hy⟩ := edwards_add hP hQ
  rw [onCurve_iff, hx, hy]
  exact (P.toEdwards hP + Q.toEdwards hQ).onCurve

theorem toEdwards_add {P Q : Point} (hP : P.OnCurve) (hQ : Q.OnCurve) :
    (P + Q).toEdwards (hP.add hQ) = P.toEdwards hP + Q.toEdwards hQ :=
  EdwardsPoint.ext (edwards_add hP hQ).1 (edwards_add hP hQ).2

theorem onCurve_identity : identity.OnCurve := by decide

theorem toEdwards_identity : identity.toEdwards onCurve_identity = 0 := by
  refine EdwardsPoint.ext ?_ ?_
  · show rootA.toZMod * Fp.toZMod 0 = 0
    rw [Fp.toZMod_zero, mul_zero]
  · exact Fp.toZMod_one

theorem OnCurve.neg {P : Point} (h : P.OnCurve) : (-P).OnCurve := by
  show OnCurve ⟨-P.x, P.y⟩
  rw [onCurve_iff, Fp.toZMod_neg, mul_neg, neg_sq]
  exact onCurve_iff.mp h

theorem toEdwards_neg {P : Point} (h : P.OnCurve) : (-P).toEdwards h.neg = -P.toEdwards h := by
  refine EdwardsPoint.ext ?_ rfl
  show rootA.toZMod * (-P.x).toZMod = -(rootA.toZMod * P.x.toZMod)
  rw [Fp.toZMod_neg, mul_neg]

end Point

/-- A point that satisfies the curve equation. -/
@[ext]
structure CurvePoint where
  point : Point
  onCurve : point.OnCurve

namespace CurvePoint

open Point

/-- The point on the Edwards curve. -/
def toEdwards (P : CurvePoint) : EdwardsPoint Curve.ratio := P.point.toEdwards P.onCurve

theorem toEdwards_inj : Function.Injective toEdwards := fun _ _ h =>
  CurvePoint.ext (Point.toEdwards_injective h)

instance : Zero CurvePoint := ⟨⟨identity, onCurve_identity⟩⟩
instance : Add CurvePoint := ⟨fun P Q => ⟨P.point + Q.point, P.onCurve.add Q.onCurve⟩⟩
instance : Neg CurvePoint := ⟨fun P => ⟨-P.point, P.onCurve.neg⟩⟩

theorem toEdwards_zero : toEdwards 0 = 0 := toEdwards_identity

theorem toEdwards_add (P Q : CurvePoint) : toEdwards (P + Q) = toEdwards P + toEdwards Q :=
  Point.toEdwards_add P.onCurve Q.onCurve

theorem toEdwards_neg (P : CurvePoint) : toEdwards (-P) = -toEdwards P :=
  Point.toEdwards_neg P.onCurve

/-- **The points of the curve form a commutative group** under the sum of points. -/
instance : AddCommGroup CurvePoint where
  add_assoc P Q R := toEdwards_inj (by simp only [toEdwards_add, add_assoc])
  zero_add P := toEdwards_inj (by rw [toEdwards_add, toEdwards_zero, zero_add])
  add_zero P := toEdwards_inj (by rw [toEdwards_add, toEdwards_zero, add_zero])
  neg_add_cancel P := toEdwards_inj (by
    rw [toEdwards_add, toEdwards_neg, toEdwards_zero, neg_add_cancel])
  add_comm P Q := toEdwards_inj (by rw [toEdwards_add, toEdwards_add, add_comm])
  nsmul := nsmulRec
  zsmul := zsmulRec

@[simp]
theorem point_zero : (0 : CurvePoint).point = identity := rfl

@[simp]
theorem point_add (P Q : CurvePoint) : (P + Q).point = P.point + Q.point := rfl

@[simp]
theorem point_neg (P : CurvePoint) : (-P).point = -P.point := rfl

end CurvePoint

namespace Point

/-- The opposite point is made from its coordinates. -/
theorem OnCurve.ofCoordinates_neg {P : Point} (h : P.OnCurve) :
    ofCoordinates (-P.x) P.y = .ok (-P) :=
  ofCoordinates_eq_ok_iff.mpr ⟨rfl, h.neg⟩

/-- **The points of the curve form a commutative group**, in coordinates: the sum of two points is
on the curve, it is associative and commutative, `identity` is neutral, and the point with the
negated abscissa can be made and is the inverse. -/
theorem group_laws {P Q R : Point} (hP : P.OnCurve) (hQ : Q.OnCurve) (hR : R.OnCurve) :
    (P + Q).OnCurve ∧ P + Q + R = P + (Q + R) ∧ P + Q = Q + P
      ∧ (identity.OnCurve ∧ identity + P = P ∧ P + identity = P)
      ∧ ∃ N, ofCoordinates (-P.x) P.y = .ok N ∧ N.OnCurve ∧ N + P = identity
        ∧ P + N = identity := by
  have hassoc := add_assoc (⟨P, hP⟩ : CurvePoint) ⟨Q, hQ⟩ ⟨R, hR⟩
  have hcomm := add_comm (⟨P, hP⟩ : CurvePoint) ⟨Q, hQ⟩
  have hzero := zero_add (⟨P, hP⟩ : CurvePoint)
  have hzero' := add_zero (⟨P, hP⟩ : CurvePoint)
  have hneg := neg_add_cancel (⟨P, hP⟩ : CurvePoint)
  have hneg' := add_neg_cancel (⟨P, hP⟩ : CurvePoint)
  simp only [CurvePoint.ext_iff, CurvePoint.point_add, CurvePoint.point_zero,
    CurvePoint.point_neg] at hassoc hcomm hzero hzero' hneg hneg'
  exact ⟨hP.add hQ, hassoc, hcomm, ⟨onCurve_identity, hzero, hzero'⟩, -P, hP.ofCoordinates_neg,
    hP.neg, hneg, hneg'⟩

/-- The base point, the point of order two and the opposite of the base point. -/
theorem group_laws_base :
    let P := base
    let Q : Point := ⟨0, -1⟩
    let R := -base
    (P.OnCurve ∧ Q.OnCurve ∧ R.OnCurve)
      ∧ (P + Q).OnCurve ∧ P + Q + R = P + (Q + R) ∧ P + Q = Q + P
      ∧ (identity.OnCurve ∧ identity + P = P ∧ P + identity = P)
      ∧ ∃ N, ofCoordinates (-P.x) P.y = .ok N ∧ N.OnCurve ∧ N + P = identity
        ∧ P + N = identity := by
  intro P Q R
  have hP : P.OnCurve := by decide
  have hQ : Q.OnCurve := by decide
  have hR : R.OnCurve := hP.neg
  exact ⟨⟨hP, hQ, hR⟩, group_laws hP hQ hR⟩

end Point

end ProvableRecord
