import ProvableRecord.Proofs.Curve.Order
import ProvableRecord.Proofs.Hash.Degree
import ProvableRecord.Proofs.Signature.Keys

/-!
# What an accepted signature says

The verifier accepts when the response is reduced and the equation `s B = R + 8 h A` holds
(`verify_eq_true_iff`).  Its points are on the curve, so it is an equation of the group, and eight
times the key lies in the subgroup of prime order, whatever key was decoded
(`verify_iff_equation`).  The challenge in it is a polynomial in the message, so few messages have
challenges in one residue class modulo the subgroup order (`card_le_of_challenge_modEq`).

* `verify_unique` — the response is determined by the other parts of a signature
* `special_soundness` — two responses to different challenges on one nonce point reveal the scalar
  of eight times the key
-/

namespace ProvableRecord

open Curve CurvePoint

/-- The challenge that the verifier computes from a nonce point, a key and a message. -/
def PublicKey.challenge (k : PublicKey) (R : Point) (message : ℕ) : Fp :=
  ProvableRecord.challenge R k.point (.ofNat message)

theorem PublicKey.challenge_eq (k : PublicKey) (R : Point) (m : ℕ) :
    k.challenge R m = Poseidon.hash5 R.x R.y k.point.x k.point.y (.ofNat m) := rfl

/-! ## Challenges of one residue class -/

/-- **Few messages have challenges in one residue class.** -/
theorem card_le_of_challenge_modEq {k : PublicKey} {R : Point} {r : ℕ} {T : Finset ℕ}
    (hT : ∀ m ∈ T, m < fieldModulus ∧ (k.challenge R m).val ≡ r [MOD subgroupOrder]) :
    T.card ≤ 8 * 5 ^ 68 := by
  obtain ⟨c, hc, hleads⟩ := Poseidon.leads_hash5 R.x R.y k.point.x k.point.y
  have hinjective : Set.InjOn Fp.ofNat (T : Set ℕ) := by
    intro m hm n hn hmn
    have hval : m % fieldModulus = n % fieldModulus := congrArg Fp.val hmn
    rwa [Nat.mod_eq_of_lt (hT m hm).1, Nat.mod_eq_of_lt (hT n hn).1] at hval
  have hclass : ∀ x ∈ T.image Fp.ofNat,
      (Poseidon.hash5 R.x R.y k.point.x k.point.y x).val ≡ r [MOD subgroupOrder] := by
    intro x hx
    obtain ⟨m, hm, rfl⟩ := Finset.mem_image.mp hx
    rw [← PublicKey.challenge_eq]
    exact (hT m hm).2
  have hresidues : fieldModulus ≤ 8 * subgroupOrder := by decide
  rw [← Finset.card_image_of_injOn hinjective, Nat.mul_comm]
  exact hleads.card_le_of_modEq hc (by decide) (by decide) hresidues hclass

/-- Some message has its challenge outside a given residue class. -/
theorem exists_challenge_not_modEq (k : PublicKey) (R : Point) (r : ℕ) :
    ∃ m < fieldModulus, ¬ (k.challenge R m).val ≡ r [MOD subgroupOrder] := by
  by_contra hall
  push Not at hall
  have hcard := card_le_of_challenge_modEq (k := k) (R := R) (r := r)
    (T := Finset.range fieldModulus) fun m hm =>
      ⟨Finset.mem_range.mp hm, hall m (Finset.mem_range.mp hm)⟩
  rw [Finset.card_range] at hcard
  exact absurd hcard (by decide)

/-! ## Acceptance taken apart -/

/-- The message is a field element, the response is reduced, the nonce is a point, and the equation
holds. -/
theorem verify_eq_true_iff {message : ℕ} {s : Signature} {k : PublicKey} :
    verify message s k = true ↔ message < fieldModulus ∧ s.response.toNat < subgroupOrder
      ∧ ∃ R, Point.unpack s.nonce = .ok R
        ∧ SignatureHolds (.ofNat message) R s.response.toNat k.point := by
  by_cases hm : message < fieldModulus
  · have hofNat : Fp.ofNat? message = some (.ofNat message) :=
      Fp.ofNat?_eq_some_iff.mpr (Nat.mod_eq_of_lt hm)
    cases hR : Point.unpack s.nonce with
    | error e =>
      simp only [verify, hofNat, hR, reduceCtorEq, false_and, exists_false, and_false,
        Bool.false_eq_true]
    | ok R =>
      simp only [verify, hofNat, hR, Bool.and_eq_true, decide_eq_true_eq, Except.ok.injEq, hm,
        true_and, exists_eq_left']
  · have hofNat : Fp.ofNat? message = none := dif_neg hm
    simp only [verify, hofNat, hm, false_and, Bool.false_eq_true]

/-- The equation of the verifier as an equation of the group. -/
theorem signatureHolds_iff {message : Fp} {R A : CurvePoint} {s : ℕ} :
    SignatureHolds message R.point s A.point ↔
      s • base = R + (ProvableRecord.challenge R.point A.point message).val • 8 • A := by
  unfold SignatureHolds
  -- the value of the challenge does not matter
  generalize (ProvableRecord.challenge R.point A.point message).val = h
  rw [CurvePoint.ext_iff, point_add, point_nsmul, ← mul_nsmul, point_nsmul]
  rfl

/-- The point of a key that was decoded. -/
def PublicKey.curvePoint {b : Bytes 32} {k : PublicKey} (h : PublicKey.ofBytes b = .ok k) :
    CurvePoint :=
  ⟨k.point, PublicKey.onCurve_of_ofBytes h⟩

/-- The nonce of an accepted signature is a point of the curve. -/
theorem exists_nonce_of_verify {message : ℕ} {s : Signature} {k : PublicKey}
    (h : verify message s k = true) : ∃ R : CurvePoint, Point.unpack s.nonce = .ok R.point := by
  obtain ⟨-, -, R, hR, -⟩ := verify_eq_true_iff.mp h
  exact ⟨⟨R, Point.onCurve_of_unpack hR⟩, hR⟩

/-- **What acceptance says in the group**, under a key that was decoded. -/
theorem verify_iff_equation {b : Bytes 32} {k : PublicKey} (hk : PublicKey.ofBytes b = .ok k)
    {s : Signature} {R : CurvePoint} (hR : Point.unpack s.nonce = .ok R.point) {message : ℕ} :
    verify message s k = true ↔ message < fieldModulus ∧ s.response.toNat < subgroupOrder
      ∧ s.response.toNat • base
        = R + (k.challenge R.point message).val • 8 • PublicKey.curvePoint hk := by
  simp only [verify_eq_true_iff, hR, Except.ok.injEq, exists_eq_left']
  exact and_congr_right' (and_congr_right' (signatureHolds_iff (A := PublicKey.curvePoint hk)))

/-! ## The response is determined -/

/-- Two reduced responses that give the same multiple of the base point are equal. -/
theorem eq_of_nsmul_base_eq {s t : ℕ} (hs : s < subgroupOrder) (ht : t < subgroupOrder)
    (h : s • base = t • base) : s = t := by
  rw [nsmul_eq_nsmul_iff_modEq, addOrderOf_base] at h
  exact Nat.ModEq.eq_of_lt_of_lt h hs ht

/-- The responses of two accepted signatures with the same nonce are equal. -/
theorem response_eq_of_verify {message : ℕ} {nonce s t : Bytes 32} {k : PublicKey}
    (hs : verify message ⟨nonce, s⟩ k = true) (ht : verify message ⟨nonce, t⟩ k = true) :
    s = t := by
  obtain ⟨-, hlts, R, hR, hholds⟩ := verify_eq_true_iff.mp hs
  obtain ⟨-, hltt, R', hR', hholdt⟩ := verify_eq_true_iff.mp ht
  rw [hR, Except.ok.injEq] at hR'
  subst hR'
  refine Bytes.toNat_injective (eq_of_nsmul_base_eq hlts hltt ?_)
  apply CurvePoint.ext
  rw [point_nsmul, point_nsmul]
  exact hholds.trans hholdt.symm

/-- **Signatures are not malleable in the response.**  Of two accepted signatures on one message
under one key whose first halves agree, the second halves agree too. -/
theorem verify_unique {message : ℕ} {k : PublicKey} :
    (∀ nonce s t : Bytes 32, verify message ⟨nonce, s⟩ k = true →
      verify message ⟨nonce, t⟩ k = true → s = t)
    ∧ ∀ S T : Bytes 64, S.toList.take 32 = T.toList.take 32 →
      verify message (.ofBytes S) k = true → verify message (.ofBytes T) k = true → S = T := by
  refine ⟨fun nonce s t => response_eq_of_verify, ?_⟩
  intro S T hfront hS hT
  have hnonce : (Signature.ofBytes S).nonce = (Signature.ofBytes T).nonce := Bytes.ext hfront
  have hT' : verify message ⟨(Signature.ofBytes S).nonce, (Signature.ofBytes T).response⟩ k
      = true := by
    rw [hnonce]
    exact hT
  have hresponse : (Signature.ofBytes S).response = (Signature.ofBytes T).response :=
    response_eq_of_verify hS hT'
  rw [← Signature.bytes_ofBytes S, ← Signature.bytes_ofBytes T, Signature.bytes, Signature.bytes,
    hnonce, hresponse]

/-- The signature of the key `5` on the message `7` has no other second half. -/
theorem verify_unique_seven :
    let key : PrivateKey := ⟨Bytes.ofNat 32 5⟩
    ∃ S : Bytes 64, verify 7 (.ofBytes S) key.publicKey = true ∧ ∀ T : Bytes 64,
      S.toList.take 32 = T.toList.take 32 → verify 7 (.ofBytes T) key.publicKey = true → S = T := by
  intro key
  have hS : verify 7 (.ofBytes (key.signElement 7).bytes) key.publicKey = true := by
    rw [Signature.ofBytes_bytes]
    exact key.verify_signElement 7
  exact ⟨_, hS, fun T hfront => verify_unique.2 _ T hfront hS⟩

/-! ## Two challenges on one nonce point -/

/-- The scalar that two responses to different challenges reveal: the quotient of their differences
modulo the subgroup order. -/
def extractScalar (s t h g : ℕ) : ℕ :=
  (((s : ZMod subgroupOrder) - t) * ((h : ZMod subgroupOrder) - g)⁻¹).val

/-- In the subgroup of prime order the quotient is a scalar of the point. -/
theorem PrimeSubgroup.extractScalar_nsmul {P Q : PrimeSubgroup} {s t h g : ℕ}
    (heq : s • P - t • P = h • Q - g • Q) (hne : ¬ h ≡ g [MOD subgroupOrder]) :
    extractScalar s t h g • P = Q := by
  have hdiff : (h : ZMod subgroupOrder) - g ≠ 0 := by
    rwa [sub_ne_zero, Ne, ZMod.natCast_eq_natCast_iff]
  have hscalars : ((s : ZMod subgroupOrder) - t) • P = ((h : ZMod subgroupOrder) - g) • Q := by
    rw [sub_smul, sub_smul]
    simp only [Nat.cast_smul_eq_nsmul]
    exact heq
  calc extractScalar s t h g • P
      = ((extractScalar s t h g : ℕ) : ZMod subgroupOrder) • P :=
        (Nat.cast_smul_eq_nsmul _ _ _).symm
    _ = (((s : ZMod subgroupOrder) - t) * ((h : ZMod subgroupOrder) - g)⁻¹) • P := by
        rw [extractScalar, ZMod.natCast_zmod_val]
    _ = ((h : ZMod subgroupOrder) - g)⁻¹ • ((h : ZMod subgroupOrder) - g) • Q := by
        rw [mul_comm, mul_smul, hscalars]
    _ = Q := by rw [smul_smul, inv_mul_cancel₀ hdiff, one_smul]

/-- **Special soundness.**  Two signatures with one nonce point that a key accepts for challenges
that differ modulo the subgroup order reveal the scalar of eight times the key. -/
theorem special_soundness {b : Bytes 32} {k : PublicKey} (hk : PublicKey.ofBytes b = .ok k)
    {nonce s t : Bytes 32} {R : Point} (hR : Point.unpack nonce = .ok R) {m n : ℕ}
    (hs : verify m ⟨nonce, s⟩ k = true) (ht : verify n ⟨nonce, t⟩ k = true)
    (hne : ¬ (k.challenge R m).val ≡ (k.challenge R n).val [MOD subgroupOrder]) :
    Point.base.mul
        (extractScalar s.toNat t.toNat (k.challenge R m).val (k.challenge R n).val)
      = k.point.mul 8 := by
  let R' : CurvePoint := ⟨R, Point.onCurve_of_unpack hR⟩
  let A := PublicKey.curvePoint hk
  obtain ⟨-, -, heqs⟩ := (verify_iff_equation hk (R := R') hR).mp hs
  obtain ⟨-, -, heqt⟩ := (verify_iff_equation hk (R := R') hR).mp ht
  have hdiff : s.toNat • base - t.toNat • base
      = (k.challenge R m).val • 8 • A - (k.challenge R n).val • 8 • A := by
    rw [heqs, heqt, add_sub_add_left_eq_sub]
  have hextract := PrimeSubgroup.extractScalar_nsmul (P := PrimeSubgroup.generator)
    (Q := PrimeSubgroup.clear A) (Subtype.ext hdiff) hne
  rw [← PrimeSubgroup.point_nsmul_generator, hextract, PrimeSubgroup.point_clear]
  rfl

/-- The base point as key and as nonce point signs every message. -/
theorem exists_verify_base {m : ℕ} (hm : m < fieldModulus) :
    ∃ s, verify m ⟨Point.base.pack, s⟩ ⟨Point.base⟩ = true := by
  have hverify := verify_response 1 1 ⟨m, hm⟩
  rw [one_nsmul] at hverify
  exact ⟨_, hverify⟩

/-- Two messages that the base point signs with itself as nonce point. -/
theorem special_soundness_base :
    let k : PublicKey := ⟨Point.base⟩
    PublicKey.ofBytes Point.base.pack = .ok k ∧ Point.unpack Point.base.pack = .ok Point.base
      ∧ ∃ n s t, verify 7 ⟨Point.base.pack, s⟩ k = true ∧ verify n ⟨Point.base.pack, t⟩ k = true
        ∧ (¬ (k.challenge Point.base 7).val ≡ (k.challenge Point.base n).val [MOD subgroupOrder])
        ∧ Point.base.mul (extractScalar s.toNat t.toNat (k.challenge Point.base 7).val
          (k.challenge Point.base n).val) = k.point.mul 8 := by
  intro k
  have hbase : Point.unpack Point.base.pack = .ok Point.base := Point.unpack_pack base.onCurve
  have hk : PublicKey.ofBytes Point.base.pack = .ok k := PublicKey.ofBytes_eq_ok_iff.mpr hbase
  obtain ⟨n, hn, hne⟩ :=
    exists_challenge_not_modEq k Point.base (k.challenge Point.base 7).val
  obtain ⟨s, hs⟩ := exists_verify_base (m := 7) (by decide)
  obtain ⟨t, ht⟩ := exists_verify_base hn
  have hne' := fun h : _ ≡ _ [MOD subgroupOrder] => hne h.symm
  exact ⟨hk, hbase, n, s, t, hs, ht, hne', special_soundness hk hbase hs ht hne'⟩

end ProvableRecord
