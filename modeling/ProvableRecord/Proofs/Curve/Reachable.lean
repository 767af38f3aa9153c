import ProvableRecord.Proofs.Curve.Multiple
import ProvableRecord.Proofs.Curve.Packing

/-!
# Every point that can come up is on the curve

A point comes from the two constants, from coordinates or bytes that were checked, or from points by
addition and scalar multiplication (`Reachable`).  Each of these gives a point of the curve
(`Reachable.onCurve`), and the sum of two such points never meets a zero denominator
(`OnCurve.denominators_ne_zero`).

The scalar multiple is computed without inverses.  It is what doubling with the addition of points
gives (`OnCurve.mul_eq_doubling`), digit by digit of the scalar (`OnCurve.doublingSteps_eq`), and all
sums on that way are sums of reachable points.
-/

namespace ProvableRecord

/-- A non-zero element times its inverse is one. -/
theorem Fp.mul_inv_self {a : Fp} (h : a ≠ 0) : a * a.inv = 1 := by
  rw [← toZMod_inj, toZMod_mul, toZMod_inv, toZMod_one]
  exact mul_inv_cancel₀ fun h0 => h (toZMod_eq_zero_iff.mp h0)

namespace Point

/-- The points that can come up. -/
inductive Reachable : Point → Prop where
  | base : Reachable base
  | identity : Reachable identity
  | ofCoordinates {x y : Fp} {P : Point} (h : ofCoordinates x y = .ok P) : Reachable P
  | unpack {bytes : Bytes 32} {P : Point} (h : unpack bytes = .ok P) : Reachable P
  | add {P Q : Point} (hP : Reachable P) (hQ : Reachable Q) : Reachable (P + Q)
  | mul {P : Point} (hP : Reachable P) (n : ℕ) : Reachable (P.mul n)

/-- A scalar multiple of a point of the curve is on the curve. -/
theorem OnCurve.mul {P : Point} (h : P.OnCurve) (n : ℕ) : (P.mul n).OnCurve := by
  have hmul := CurvePoint.point_nsmul ⟨P, h⟩ n
  rw [← hmul]
  exact (n • (⟨P, h⟩ : CurvePoint)).onCurve

/-- The loop over the digits of a scalar, with the addition of points: stopped after some digits, it
holds the multiple by the number that these digits make. -/
theorem OnCurve.doublingSteps_eq {P : Point} (h : P.OnCurve) (steps n : ℕ) :
    doublingSteps (· + ·) steps Point.identity P n = P.mul (n % 2 ^ steps) := by
  have hadd : ∀ (U V : Point) (Q R : CurvePoint), U = Q.point → V = R.point →
      U + V = (Q + R).point := by
    rintro _ _ Q R rfl rfl
    rfl
  have hzero : Point.identity = (0 : CurvePoint).point := rfl
  have hrep := rep_doublingSteps_nsmul (· + ·) (fun U (Q : CurvePoint) => U = Q.point)
    (m := ⟨P, h⟩) hadd steps hzero rfl n
  rwa [zero_add, CurvePoint.point_nsmul] at hrep

/-- On the curve the scalar multiple is that of doubling with the addition of points. -/
theorem OnCurve.mul_eq_doubling {P : Point} (h : P.OnCurve) (n : ℕ) :
    P.mul n = doubling (· + ·) Point.identity P n := by
  have hsteps := h.doublingSteps_eq (bitLength n) n
  rw [mod_two_pow_bitLength] at hsteps
  exact hsteps.symm

/-- **The denominators of a sum of points of the curve do not vanish.** -/
theorem OnCurve.denominators_ne_zero {P Q : Point} (hP : P.OnCurve) (hQ : Q.OnCurve) :
    1 + crossTerm P Q ≠ 0 ∧ 1 - crossTerm P Q ≠ 0 := by
  have hadd := Projective.one_add_crossTerm_ne ⟨P, hP⟩ ⟨Q, hQ⟩
  have hsub := Projective.one_sub_crossTerm_ne ⟨P, hP⟩ ⟨Q, hQ⟩
  rw [← Fp.toZMod_one, ← Fp.toZMod_add] at hadd
  rw [← Fp.toZMod_one, ← Fp.toZMod_sub] at hsub
  exact ⟨fun h => hadd (Fp.toZMod_eq_zero_iff.mpr h), fun h => hsub (Fp.toZMod_eq_zero_iff.mpr h)⟩

namespace Reachable

/-- **Every point that can come up is on the curve.** -/
theorem onCurve {P : Point} (h : P.Reachable) : P.OnCurve := by
  induction h with
  | base => exact CurvePoint.base.onCurve
  | identity => exact onCurve_identity
  | ofCoordinates h => exact (ofCoordinates_eq_ok_iff.mp h).2
  | unpack h => exact onCurve_of_unpack h
  | add _ _ hP hQ => exact hP.add hQ
  | mul _ n hP => exact hP.mul n

end Reachable

end Point

end ProvableRecord
