import Mathlib.GroupTheory.Index
import ProvableRecord.Proofs.Curve.Order
import ProvableRecord.Proofs.Curve.Reachable

/-!
# The base point generates the subgroup of prime order

Scalars of the base point count modulo `subgroupOrder`, which is prime, so no smaller number of
copies of the base point is neutral (`Point.base_mul_eq_iff`).

The multiples of the base point are one eighth of all points of the curve, so eight times any point
is one of them (`CurvePoint.eight_nsmul_mem`).  A point that the odd number `subgroupOrder`
annihilates is a multiple of its own eightfold.  Hence the multiples of the base point are all of
the prime subgroup (`CurvePoint.primeSubgroup_eq`), and whether a point is one of them can be checked
with a single scalar multiple (`Point.exists_base_mul_eq_iff`).
-/

namespace ProvableRecord

open Curve

namespace CurvePoint

/-- The curve has eight times as many points as the base point has multiples. -/
theorem index_zmultiples_base : (AddSubgroup.zmultiples base).index = 8 := by
  have hindex := (AddSubgroup.zmultiples base).index_mul_card
  rw [Nat.card_zmultiples, addOrderOf_base, card_eq] at hindex
  exact Nat.eq_of_mul_eq_mul_right prime_subgroupOrder.pos hindex

/-- **Eight times a point is a multiple of the base point.** -/
theorem eight_nsmul_mem (P : CurvePoint) : 8 • P ∈ AddSubgroup.zmultiples base := by
  rw [← index_zmultiples_base]
  exact AddSubgroup.nsmul_index_mem _ P

/-- In the prime subgroup a point is a multiple of its eightfold. -/
theorem mem_zmultiples_eight_nsmul {P : CurvePoint} (h : subgroupOrder • P = 0) :
    P ∈ AddSubgroup.zmultiples (8 • P) := by
  rw [mem_zmultiples_nsmul_iff]
  exact coprime_eight_subgroupOrder.coprime_dvd_right (addOrderOf_dvd_of_nsmul_eq_zero h)

/-- **The prime subgroup consists of the multiples of the base point.** -/
theorem primeSubgroup_eq : PrimeSubgroup = AddSubgroup.zmultiples base := by
  refine le_antisymm ?_ ?_
  · intro P hP
    have hle : AddSubgroup.zmultiples (8 • P) ≤ AddSubgroup.zmultiples base :=
      AddSubgroup.zmultiples_le_of_mem (eight_nsmul_mem P)
    exact hle (mem_zmultiples_eight_nsmul (mem_primeSubgroup.mp hP))
  · exact AddSubgroup.zmultiples_le_of_mem PrimeSubgroup.generator.property

/-- A point of the prime subgroup has a scalar below the subgroup order. -/
theorem mem_primeSubgroup_iff_exists {P : CurvePoint} :
    P ∈ PrimeSubgroup ↔ ∃ n < subgroupOrder, n • base = P := by
  rw [primeSubgroup_eq, ← mem_multiples_iff_mem_zmultiples, AddSubmonoid.mem_multiples_iff]
  constructor
  · rintro ⟨n, rfl⟩
    exact ⟨n % subgroupOrder, Nat.mod_lt n prime_subgroupOrder.pos, mod_nsmul_base n⟩
  · rintro ⟨n, -, rfl⟩
    exact ⟨n, rfl⟩

end CurvePoint

namespace Point

/-- Scalars of the base point count modulo its order. -/
theorem base_mul_eq_iff (a b : ℕ) : base.mul a = base.mul b ↔ a ≡ b [MOD subgroupOrder] := by
  have hpoints : base.mul a = base.mul b ↔ a • CurvePoint.base = b • CurvePoint.base := by
    rw [CurvePoint.ext_iff, CurvePoint.point_nsmul, CurvePoint.point_nsmul]
    rfl
  rw [hpoints, nsmul_eq_nsmul_iff_modEq, CurvePoint.addOrderOf_base]

/-- A point of the curve is a multiple of the base point if the order of the base point annihilates
it. -/
theorem OnCurve.exists_base_mul_eq_iff {P : Point} (h : P.OnCurve) :
    (∃ n < subgroupOrder, base.mul n = P) ↔ P.mul subgroupOrder = identity := by
  have hiff := (CurvePoint.mem_primeSubgroup_iff_exists (P := ⟨P, h⟩)).symm.trans
    CurvePoint.mem_primeSubgroup
  simp only [CurvePoint.ext_iff, CurvePoint.point_nsmul, CurvePoint.point_zero] at hiff
  exact hiff

/-- **The base point generates a subgroup of exactly the prime order `subgroupOrder`.**  Its scalars
count modulo that number, and its multiples are the points of the curve that the number
annihilates. -/
theorem base_generates :
    Nat.Prime subgroupOrder
      ∧ (∀ a b, base.mul a = base.mul b ↔ a ≡ b [MOD subgroupOrder])
      ∧ ∀ P : Point, (∃ n < subgroupOrder, base.mul n = P)
        ↔ P.OnCurve ∧ P.mul subgroupOrder = identity := by
  refine ⟨prime_subgroupOrder, base_mul_eq_iff, fun P => ?_⟩
  constructor
  · rintro ⟨n, hn, rfl⟩
    have hcurve : (base.mul n).OnCurve := CurvePoint.base.onCurve.mul n
    exact ⟨hcurve, hcurve.exists_base_mul_eq_iff.mp ⟨n, hn, rfl⟩⟩
  · rintro ⟨hcurve, hzero⟩
    exact hcurve.exists_base_mul_eq_iff.mpr hzero

end Point

end ProvableRecord
