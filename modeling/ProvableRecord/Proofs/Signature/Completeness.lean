import ProvableRecord.Proofs.Curve.Multiple
import ProvableRecord.Proofs.Curve.Packing
import ProvableRecord.Record.Signed

/-!
# What is signed verifies

The response `(r + h s) mod l` counts modulo the order of the base point, and the scalar `s` is a
multiple of eight, so `s` times the base point is `8` times the public point.  The equation of the
verifier follows by the laws of the group (`signatureHolds_response`).  The nonce point is on the
curve, so it survives packing, and the response fits its thirty-two bytes.
-/

namespace ProvableRecord

open CurvePoint

/-! ## The equation -/

/-- The response times the base point, for the nonce `r`, the challenge `h` and the scalar `8 t`. -/
theorem response_nsmul_base (r h t : ℕ) :
    ((r + h * (8 * t)) % Curve.subgroupOrder) • base = r • base + (8 * h) • t • base := by
  have hscalar : h * (8 * t) = 8 * h * t := by ring
  rw [mod_nsmul_base, add_nsmul, hscalar, mul_nsmul']

/-- **The verification equation** holds, whatever the message and its challenge are. -/
theorem signatureHolds_response (message : Fp) (r t : ℕ) :
    SignatureHolds message (r • base).point
      ((r + (challenge (r • base).point (t • base).point message).val * (8 * t))
        % Curve.subgroupOrder)
      (t • base).point := by
  unfold SignatureHolds
  generalize (challenge (r • base).point (t • base).point message).val = h
  calc Point.base.mul ((r + h * (8 * t)) % Curve.subgroupOrder)
      = (((r + h * (8 * t)) % Curve.subgroupOrder) • base).point := (point_nsmul base _).symm
    _ = (r • base + (8 * h) • t • base).point := by rw [response_nsmul_base]
    _ = (r • base).point + ((8 * h) • t • base).point := point_add _ _
    _ = (r • base).point + (t • base).point.mul (8 * h) := by rw [point_nsmul (t • base)]

/-- A response fits its bytes. -/
theorem toNat_response (n : ℕ) :
    (Bytes.ofNat 32 (n % Curve.subgroupOrder)).toNat = n % Curve.subgroupOrder := by
  have hlt : n % Curve.subgroupOrder < Curve.subgroupOrder := Nat.mod_lt n (by decide)
  have horder : Curve.subgroupOrder < 256 ^ 32 := by norm_num [Curve.subgroupOrder]
  exact Bytes.toNat_ofNat (hlt.trans horder)

/-- A signature with the nonce `r` verifies under the key of the scalar `8 t`. -/
theorem verify_response (r t : ℕ) (message : Fp) :
    verify message.val
      ⟨(r • base).point.pack, Bytes.ofNat 32 ((r
        + (challenge (r • base).point (t • base).point message).val * (8 * t))
        % Curve.subgroupOrder)⟩
      ⟨(t • base).point⟩ = true := by
  have hmessage : Fp.ofNat? message.val = some message := Fp.ofNat?_eq_some_iff.mpr rfl
  have hlt : ∀ n, n % Curve.subgroupOrder < Curve.subgroupOrder := fun n =>
    Nat.mod_lt n (by decide)
  -- a multiple of the base point is on the curve, so the nonce point is unpacked
  simp only [verify, hmessage, Point.unpack_pack (CurvePoint.onCurve _), toNat_response, hlt,
    signatureHolds_response message r t, decide_true, Bool.and_true]

/-! ## Keys and signatures -/

namespace PrivateKey

theorem prune_eq (n : ℕ) : prune n = 8 * (prune n / 8) := by
  have hprune : prune n = (1 <<< 254) + n / 8 % (1 <<< 251) * 8 := rfl
  have htop : (1 <<< 254 : ℕ) = 8 * (1 <<< 251) := by norm_num [Nat.shiftLeft_eq]
  omega

/-- The scalar of a key is a multiple of eight. -/
theorem scalar_expand (k : PrivateKey) : k.expand.scalar = 8 * (k.expand.scalar / 8) :=
  prune_eq _

/-- The public point is the base point times an eighth of the scalar. -/
theorem point_expand (k : PrivateKey) :
    k.expand.point = ((k.expand.scalar / 8) • base).point :=
  (point_nsmul base _).symm

/-- What a key signs, with the nonce point as a multiple of the base point. -/
theorem signElement_eq (k : PrivateKey) (message : Fp) :
    k.signElement message =
      ⟨(nonce k.expand message • base).point.pack,
        Bytes.ofNat 32 ((nonce k.expand message
          + (challenge (nonce k.expand message • base).point k.expand.point message).val
            * k.expand.scalar) % Curve.subgroupOrder)⟩ := by
  rw [point_nsmul]
  rfl

/-- **A signature on a field element verifies.** -/
theorem verify_signElement (k : PrivateKey) (message : Fp) :
    verify message.val (k.signElement message) k.publicKey = true := by
  have hverify := verify_response (nonce k.expand message) (k.expand.scalar / 8) message
  rw [← point_expand, ← scalar_expand] at hverify
  rw [signElement_eq]
  exact hverify

/-- A message that is a field element is signed. -/
theorem sign_eq_ok (k : PrivateKey) (message : Fp) :
    k.sign message.val = .ok (k.signElement message) := by
  rw [sign, Fp.ofNat?_eq_some_iff.mpr rfl]

end PrivateKey

/-! ## Records -/

/-- The signed record that a key makes of a record. -/
theorem SignedRecord.sign_eq_ok (r : Record) (k : PrivateKey) :
    SignedRecord.sign r k = .ok ⟨r, k.signElement r.tree.root, k.publicKey⟩ := by
  have hsign : k.sign r.contentId = .ok (k.signElement r.tree.root) := k.sign_eq_ok r.tree.root
  rw [SignedRecord.sign, signRoot, hsign]
  rfl

/-- **Signing is complete.**  Every key signs every number below the modulus and every record, and
its public key accepts both signatures. -/
theorem signing_complete (k : PrivateKey) :
    (∀ m, m < fieldModulus → ∃ s, k.sign m = .ok s ∧ verify m s k.publicKey = true)
      ∧ ∀ r : Record, r.contentId < fieldModulus ∧ ∃ s, SignedRecord.sign r k = .ok s
        ∧ s.record = r ∧ s.signer = k.publicKey ∧ s.isValid = true := by
  constructor
  · intro m hm
    exact ⟨_, k.sign_eq_ok ⟨m, hm⟩, k.verify_signElement ⟨m, hm⟩⟩
  · intro r
    refine ⟨r.tree.root.val_lt, _, SignedRecord.sign_eq_ok r k, rfl, rfl, ?_⟩
    exact k.verify_signElement r.tree.root

/-- The key `5` signs the message `7`. -/
theorem signing_complete_seven : 7 < fieldModulus ∧ ∃ s,
    (⟨Bytes.ofNat 32 5⟩ : PrivateKey).sign 7 = .ok s
      ∧ verify 7 s (⟨Bytes.ofNat 32 5⟩ : PrivateKey).publicKey = true :=
  ⟨by decide, (signing_complete ⟨Bytes.ofNat 32 5⟩).1 7 (by decide)⟩

end ProvableRecord
