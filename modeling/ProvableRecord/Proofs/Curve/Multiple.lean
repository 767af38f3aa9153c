import ProvableRecord.Proofs.Curve.Group

/-!
# Scalar multiples are multiples in the group

Projective coordinates represent a point of the curve when their last coordinate is not zero
(`Projective.Represents`), and then the sum without inverses represents the sum of the points.  So
`Point.mul`, which doubles in projective coordinates, computes multiples of the group
(`point_nsmul`), as adding one copy after the other does (`iteratedAdd_eq`).

The multiple of the base point by the subgroup order is neutral, so scalars of the base point count
modulo that order (`mod_nsmul_base`).
-/

namespace ProvableRecord

namespace Projective

/-- The coordinates stand for a point of the curve. -/
structure Represents (U : Projective) (P : CurvePoint) : Prop where
  z_ne : U.z ≠ 0
  toPoint_eq : U.toPoint = P.point

variable {U V : Projective} {P Q : CurvePoint}

theorem represents_ofPoint (P : CurvePoint) : Represents (ofPoint P.point) P := by
  refine ⟨by show (1 : Fp) ≠ 0; decide, ?_⟩
  have hone : (1 : Fp).inv = 1 := by rw [← Fp.toZMod_inj, Fp.toZMod_inv, Fp.toZMod_one, inv_one]
  have hmul : ∀ a : Fp, a * 1 = a := fun a => by
    rw [← Fp.toZMod_inj, Fp.toZMod_mul, Fp.toZMod_one, mul_one]
  show (⟨P.point.x * (1 : Fp).inv, P.point.y * (1 : Fp).inv⟩ : Point) = P.point
  rw [hone, hmul, hmul]

theorem Represents.z_ne_zero (h : Represents U P) : U.z.toZMod ≠ 0 := fun h0 =>
  h.z_ne (Fp.toZMod_eq_zero_iff.mp h0)

theorem Represents.x_eq (h : Represents U P) :
    U.x.toZMod = P.point.x.toZMod * U.z.toZMod := by
  rw [← h.toPoint_eq, toPoint, Fp.toZMod_mul, Fp.toZMod_inv, inv_mul_cancel_right₀ h.z_ne_zero]

theorem Represents.y_eq (h : Represents U P) :
    U.y.toZMod = P.point.y.toZMod * U.z.toZMod := by
  rw [← h.toPoint_eq, toPoint, Fp.toZMod_mul, Fp.toZMod_inv, inv_mul_cancel_right₀ h.z_ne_zero]

theorem one_add_crossTerm_ne (P Q : CurvePoint) :
    1 + (Point.crossTerm P.point Q.point).toZMod ≠ 0 := by
  rw [Point.toZMod_crossTerm P.onCurve Q.onCurve]
  exact EdwardsPoint.one_add_cross_ne _ _

theorem one_sub_crossTerm_ne (P Q : CurvePoint) :
    1 - (Point.crossTerm P.point Q.point).toZMod ≠ 0 := by
  rw [Point.toZMod_crossTerm P.onCurve Q.onCurve]
  exact EdwardsPoint.one_sub_cross_ne _ _

/-- The coordinates of the sum: the numerators and denominators of the sum of points, times the
fourth power of the product of the last coordinates. -/
theorem Represents.coordinates_add {w δ : ZMod fieldModulus} (hU : Represents U P)
    (hV : Represents V Q) (hw : w = U.z.toZMod * V.z.toZMod) (hδ : δ = (Point.crossTerm P.point Q.point).toZMod) :
    (U.add V).x.toZMod = w ^ 4 * (1 - δ)
        * (P.point.x.toZMod * Q.point.y.toZMod + P.point.y.toZMod * Q.point.x.toZMod)
      ∧ (U.add V).y.toZMod = w ^ 4 * (1 + δ)
        * (P.point.y.toZMod * Q.point.y.toZMod
          - Curve.a.toZMod * (P.point.x.toZMod * Q.point.x.toZMod))
      ∧ (U.add V).z.toZMod = w ^ 4 * (1 - δ) * (1 + δ) := by
  rw [Point.crossTerm] at hδ
  simp only [Fp.toZMod_mul] at hδ
  simp only [Projective.add, Fp.toZMod_mul, Fp.toZMod_sub, Fp.toZMod_add, hU.x_eq, hU.y_eq,
    hV.x_eq, hV.y_eq, hw, hδ]
  refine ⟨?_, ?_, ?_⟩ <;> ring

/-- Coordinates that are those of a point times the last one represent the point. -/
theorem represents_of_eq_mul (hz : U.z.toZMod ≠ 0)
    (hx : U.x.toZMod = P.point.x.toZMod * U.z.toZMod)
    (hy : U.y.toZMod = P.point.y.toZMod * U.z.toZMod) : Represents U P := by
  refine ⟨fun h0 => hz (Fp.toZMod_eq_zero_iff.mpr h0), ?_⟩
  have hquotient : ∀ {b c : Fp}, b.toZMod = c.toZMod * U.z.toZMod → b * U.z.inv = c := by
    intro b c h
    rw [← Fp.toZMod_inj, Fp.toZMod_mul, Fp.toZMod_inv, h, mul_inv_cancel_right₀ hz]
  rw [toPoint, hquotient hx, hquotient hy]

/-- **The sum without inverses represents the sum.** -/
theorem Represents.add (hU : Represents U P) (hV : Represents V Q) :
    Represents (U.add V) (P + Q) := by
  have hplus := one_add_crossTerm_ne P Q
  have hminus := one_sub_crossTerm_ne P Q
  have hw : U.z.toZMod * V.z.toZMod ≠ 0 := mul_ne_zero hU.z_ne_zero hV.z_ne_zero
  obtain ⟨hx, hy, hz⟩ := hU.coordinates_add hV rfl rfl
  refine represents_of_eq_mul ?_ ?_ ?_
  · rw [hz]
    exact mul_ne_zero (mul_ne_zero (pow_ne_zero 4 hw) hminus) hplus
  · rw [hx, hz, CurvePoint.point_add, Point.toZMod_x_add, div_mul_eq_mul_div, eq_div_iff hplus]
    ring
  · rw [hy, hz, CurvePoint.point_add, Point.toZMod_y_add, div_mul_eq_mul_div, eq_div_iff hminus]
    ring

end Projective

namespace CurvePoint

/-- **A scalar multiple is a multiple in the group.** -/
theorem point_nsmul (P : CurvePoint) (n : ℕ) : (n • P).point = P.point.mul n := by
  have hrep := rep_doubling_nsmul Projective.add Projective.Represents
    (fun _ _ _ _ hU hV => hU.add hV) (Projective.represents_ofPoint 0)
    (Projective.represents_ofPoint P) n
  rw [zero_add] at hrep
  exact hrep.toPoint_eq.symm

/-- Adding copies one after the other gives the multiple as well. -/
theorem iteratedAdd_eq (P : CurvePoint) (n : ℕ) :
    Point.iteratedAdd n P.point = (n • P).point := by
  induction n with
  | zero => rw [zero_nsmul]; rfl
  | succ n ih => rw [succ_nsmul, point_add, ← ih]; rfl

/-- The generator of the subgroup of prime order. -/
def base : CurvePoint := ⟨Point.base, by decide⟩

theorem subgroupOrder_nsmul_base : Curve.subgroupOrder • base = 0 := by
  apply CurvePoint.ext
  rw [point_nsmul]
  show Point.base.mul Curve.subgroupOrder = Point.identity
  decide +kernel

/-- Scalars of the base point count modulo the subgroup order. -/
theorem mod_nsmul_base (n : ℕ) : (n % Curve.subgroupOrder) • base = n • base := by
  conv_rhs => rw [← Nat.div_add_mod n Curve.subgroupOrder, add_nsmul, mul_comm, mul_nsmul',
    subgroupOrder_nsmul_base, nsmul_zero, zero_add]

end CurvePoint

end ProvableRecord
