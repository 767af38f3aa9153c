import ProvableRecord.Proofs.Signature.Verification

/-!
# The nonce point of an accepted signature has the subgroup order

The verifier checks the order of no point, and the curve has points outside the subgroup of prime
order.  The equation that it checks is `R = s B - h (8 A)`.  The base point `B` is in the subgroup
and so is eight times any key `A`, as eight times the subgroup order annihilates the whole curve, so
the nonce point `R` is in the subgroup (`mem_primeSubgroup_of_equation`).
-/

namespace ProvableRecord

open Curve CurvePoint

/-- **Eight times the subgroup order annihilates every point of the curve.** -/
theorem Point.OnCurve.mul_eight_subgroupOrder {P : Point} (h : P.OnCurve) :
    P.mul (8 * subgroupOrder) = Point.identity := by
  have hzero := congrArg point (mul_subgroupOrder_nsmul ⟨P, h⟩)
  rwa [point_nsmul] at hzero

/-- A nonce point that satisfies the equation of the verifier is in the subgroup of prime order,
whatever point the key is. -/
theorem mem_primeSubgroup_of_equation {R A : CurvePoint} {s h : ℕ}
    (hequation : s • base = R + h • 8 • A) : R ∈ PrimeSubgroup := by
  have hbase : s • base ∈ PrimeSubgroup := nsmul_mem PrimeSubgroup.generator.property s
  have hkey : h • 8 • A ∈ PrimeSubgroup := nsmul_mem (PrimeSubgroup.clear A).property h
  have hR : R = s • base - h • 8 • A := eq_sub_of_add_eq hequation.symm
  rw [hR]
  exact sub_mem hbase hkey

/-- The nonce point of an accepted signature is in the subgroup of prime order. -/
theorem exists_mem_primeSubgroup_of_verify {m : ℕ} {s : Signature} {k : PublicKey}
    (hk : k.Obtainable) (h : verify m s k = true) :
    ∃ R ∈ PrimeSubgroup, Point.unpack s.nonce = .ok R.point := by
  obtain ⟨R, hR⟩ := exists_nonce_of_verify h
  obtain ⟨-, -, hequation⟩ := (verify_iff_equation hk.ofBytes_bytes hR).mp h
  exact ⟨R, mem_primeSubgroup_of_equation hequation, hR⟩

/-- **Accepted nonce points have the subgroup order.**  Eight times the subgroup order annihilates
every point of the curve.  The nonce point of a signature that is accepted under some key is
annihilated by the subgroup order alone, also if the key is not. -/
theorem nonce_mul_subgroupOrder :
    (∀ P : Point, P.OnCurve → P.mul (8 * subgroupOrder) = Point.identity)
    ∧ ∀ k : PublicKey, k.Obtainable → ∀ (m : ℕ) (S : Bytes 64),
      verify m (.ofBytes S) k = true →
        ∃ R, Point.unpack (Signature.ofBytes S).nonce = .ok R
          ∧ R.mul subgroupOrder = Point.identity := by
  constructor
  · intro P hP
    exact hP.mul_eight_subgroupOrder
  · intro k hk m S hverify
    obtain ⟨R, hmem, hR⟩ := exists_mem_primeSubgroup_of_verify hk hverify
    have hzero := congrArg point (mem_primeSubgroup.mp hmem)
    rw [point_nsmul] at hzero
    exact ⟨R.point, hR, hzero⟩

/-- A key that differs from the base point by a point of small order signs every message with the
base point as nonce point. -/
theorem exists_verify_base_add {T : CurvePoint} (hT : 8 • T = 0) {m : ℕ} (hm : m < fieldModulus) :
    ∃ s, verify m ⟨Point.base.pack, s⟩ ⟨(base + T).point⟩ = true := by
  have hbase : Point.unpack Point.base.pack = .ok base.point := Point.unpack_pack base.onCurve
  -- the value of the challenge does not matter
  obtain ⟨h, hh⟩ : ∃ h, (ProvableRecord.challenge base.point (base + T).point (.ofNat m)).val = h :=
    ⟨_, rfl⟩
  refine ⟨Bytes.ofNat 32 ((1 + h * 8) % subgroupOrder), verify_eq_true_iff.mpr
    ⟨hm, ?_, base.point, hbase, (signatureHolds_iff (R := base) (A := base + T)).mpr ?_⟩⟩
  · rw [toNat_response]
    exact Nat.mod_lt _ (by decide)
  · rw [toNat_response, hh, mod_nsmul_base, add_nsmul, one_nsmul, nsmul_add, hT, add_zero,
      mul_nsmul']

/-- The point of order eight, which the subgroup order does not annihilate.  With the base point
added it is a key that accepts a signature on the message `7`. -/
theorem nonce_mul_subgroupOrder_torsion :
    let k : PublicKey := ⟨(base + torsion).point⟩
    (torsion.point.OnCurve ∧ torsion.point.mul subgroupOrder ≠ Point.identity
      ∧ torsion.point.mul (8 * subgroupOrder) = Point.identity)
    ∧ k.Obtainable ∧ k.point.mul subgroupOrder ≠ Point.identity
    ∧ ∃ S : Bytes 64, verify 7 (.ofBytes S) k = true
      ∧ ∃ R, Point.unpack (Signature.ofBytes S).nonce = .ok R
        ∧ R.mul subgroupOrder = Point.identity := by
  intro k
  obtain ⟨hcurve, hnonce⟩ := nonce_mul_subgroupOrder
  have hk : k.Obtainable := .ofBytes (PublicKey.ofBytes_eq_ok_iff.mpr
    (Point.unpack_pack (base + torsion).onCurve))
  have hT : 8 • torsion = 0 := addOrderOf_torsion ▸ addOrderOf_nsmul_eq_zero torsion
  obtain ⟨response, hverify⟩ := exists_verify_base_add hT (m := 7) (by decide)
  rw [← Signature.ofBytes_bytes ⟨_, response⟩] at hverify
  exact ⟨⟨torsion.onCurve, by decide +kernel, hcurve _ torsion.onCurve⟩, hk, by decide +kernel, _,
    hverify, hnonce k hk 7 _ hverify⟩

end ProvableRecord
