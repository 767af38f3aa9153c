import ProvableRecord.Proofs.Curve.Order
import ProvableRecord.Proofs.Curve.Reachable

/-!
# Scalars count additions

A scalar multiple is computed from the binary digits of the scalar, and it is the same as adding the
point to the neutral point that many times (`OnCurve.mul_eq_iteratedAdd`).  The scalar may be of any
size: it is not reduced, and the order of the point plays no role.  So scalars are added when
multiples are, and multiplied when a multiple is taken of a multiple (`OnCurve.scalar_laws`).

The laws hold of all points of the curve, also of those outside the subgroup of prime order.
-/

namespace ProvableRecord.Point

variable {P : Point}

/-- **A scalar multiple is repeated addition.** -/
theorem OnCurve.mul_eq_iteratedAdd (h : P.OnCurve) (n : ℕ) : P.mul n = iteratedAdd n P :=
  calc P.mul n = (n • (⟨P, h⟩ : CurvePoint)).point := (CurvePoint.point_nsmul ⟨P, h⟩ n).symm
    _ = iteratedAdd n P := (CurvePoint.iteratedAdd_eq ⟨P, h⟩ n).symm

theorem OnCurve.mul_add (h : P.OnCurve) (a b : ℕ) : P.mul (a + b) = P.mul a + P.mul b := by
  have hadd := congrArg CurvePoint.point (add_nsmul (⟨P, h⟩ : CurvePoint) a b)
  rwa [CurvePoint.point_add, CurvePoint.point_nsmul, CurvePoint.point_nsmul,
    CurvePoint.point_nsmul] at hadd

theorem OnCurve.mul_mul (h : P.OnCurve) (a b : ℕ) : (P.mul a).mul b = P.mul (a * b) := by
  have hmul := congrArg CurvePoint.point (mul_nsmul (⟨P, h⟩ : CurvePoint) a b)
  rw [CurvePoint.point_nsmul, CurvePoint.point_nsmul, CurvePoint.point_nsmul] at hmul
  exact hmul.symm

/-- **Scalars count additions** of a point of the curve to the neutral point.  The loop over their
digits does so at every digit, and sums and products of scalars are what they are for numbers. -/
theorem OnCurve.scalar_laws (h : P.OnCurve) :
    (∀ k, P.mul k = iteratedAdd k P)
      ∧ (∀ steps k, doublingSteps (· + ·) steps identity P k = iteratedAdd (k % 2 ^ steps) P)
      ∧ (∀ k, P.mul k = doubling (· + ·) identity P k)
      ∧ (∀ a b, P.mul (a + b) = P.mul a + P.mul b)
      ∧ ∀ a b, (P.mul a).mul b = P.mul (a * b) := by
  refine ⟨h.mul_eq_iteratedAdd, ?_, h.mul_eq_doubling, h.mul_add, h.mul_mul⟩
  intro steps k
  rw [h.doublingSteps_eq, h.mul_eq_iteratedAdd]

/-- A point of order eight, which the prime subgroup does not hold. -/
theorem OnCurve.scalar_laws_torsion :
    let P := CurvePoint.torsion.point
    P.OnCurve
      ∧ (∀ k, P.mul k = iteratedAdd k P)
      ∧ (∀ steps k, doublingSteps (· + ·) steps identity P k = iteratedAdd (k % 2 ^ steps) P)
      ∧ (∀ k, P.mul k = doubling (· + ·) identity P k)
      ∧ (∀ a b, P.mul (a + b) = P.mul a + P.mul b)
      ∧ ∀ a b, (P.mul a).mul b = P.mul (a * b) := by
  intro P
  have hP : P.OnCurve := CurvePoint.torsion.onCurve
  exact ⟨hP, hP.scalar_laws⟩

end ProvableRecord.Point
