import ProvableRecord.Proofs.Record.SignedRoundTrip
import ProvableRecord.Proofs.Signature.Verification

/-!
# For which keys a signature binds its message

A message enters the equation of the verifier through its challenge alone, as a multiple of eight
times the key.  That point lies in the subgroup of prime order.  If it is not neutral, its multiples
tell challenges apart modulo the subgroup order (`modEq_of_verify`), and a signature is accepted for
few messages only (`card_le_of_verify`).  If it is neutral, the challenge drops out, and the answer
is the same for all messages (`verify_eq_of_mul_eight_eq`).  The decoder admits both kinds of keys
(`verify_binds_message`, `identity_accepts_every_message`).
-/

namespace ProvableRecord

open Curve CurvePoint

variable {b : Bytes 32} {k : PublicKey} {s : Signature} {m n : ℕ}

/-! ## Keys with a multiple of eight that is not neutral -/

theorem clear_curvePoint_ne_zero (hk : PublicKey.ofBytes b = .ok k)
    (hclear : k.point.mul 8 ≠ Point.identity) :
    PrimeSubgroup.clear (PublicKey.curvePoint hk) ≠ 0 := by
  intro hzero
  have hpoint := PrimeSubgroup.point_clear (PublicKey.curvePoint hk)
  rw [hzero] at hpoint
  exact hclear hpoint.symm

/-- **Messages with one signature have challenges in one residue class.** -/
theorem modEq_of_verify (hk : PublicKey.ofBytes b = .ok k) (hclear : k.point.mul 8 ≠ Point.identity)
    {R : CurvePoint} (hR : Point.unpack s.nonce = .ok R.point) (hm : verify m s k = true)
    (hn : verify n s k = true) :
    (k.challenge R.point m).val ≡ (k.challenge R.point n).val [MOD subgroupOrder] := by
  obtain ⟨-, -, heqm⟩ := (verify_iff_equation hk hR).mp hm
  obtain ⟨-, -, heqn⟩ := (verify_iff_equation hk hR).mp hn
  refine (PrimeSubgroup.nsmul_eq_nsmul_iff (clear_curvePoint_ne_zero hk hclear)).mp
    (Subtype.ext ?_)
  exact add_left_cancel (heqm.symm.trans heqn)

/-- **A signature is accepted for few messages only.** -/
theorem card_le_of_verify (hk : PublicKey.ofBytes b = .ok k)
    (hclear : k.point.mul 8 ≠ Point.identity) {T : Finset ℕ}
    (hT : ∀ m ∈ T, verify m s k = true) : T.card ≤ 8 * 5 ^ 68 := by
  obtain rfl | ⟨n, hn⟩ := T.eq_empty_or_nonempty
  · exact Nat.zero_le _
  · obtain ⟨R, hR⟩ := exists_nonce_of_verify (hT n hn)
    exact card_le_of_challenge_modEq fun m hm =>
      ⟨(verify_eq_true_iff.mp (hT m hm)).1, modEq_of_verify hk hclear hR (hT m hm) (hT n hn)⟩

/-- Some message is rejected. -/
theorem exists_verify_eq_false (hk : PublicKey.ofBytes b = .ok k)
    (hclear : k.point.mul 8 ≠ Point.identity) (s : Signature) :
    ∃ m < fieldModulus, verify m s k = false := by
  by_contra hall
  push Not at hall
  have hcard := card_le_of_verify hk hclear (s := s) (T := Finset.range fieldModulus) fun m hm =>
    Bool.eq_true_of_not_eq_false (hall m (Finset.mem_range.mp hm))
  rw [Finset.card_range] at hcard
  exact absurd hcard (by decide)

/-! ## Keys with a multiple of eight that is neutral -/

/-- What is accepted for one message is accepted for all. -/
theorem verify_of_verify (hk : PublicKey.ofBytes b = .ok k)
    (hclear : k.point.mul 8 = Point.identity) (hn : n < fieldModulus) (h : verify m s k = true) :
    verify n s k = true := by
  obtain ⟨R, hR⟩ := exists_nonce_of_verify h
  obtain ⟨-, hlt, hequation⟩ := (verify_iff_equation hk hR).mp h
  have hzero : 8 • PublicKey.curvePoint hk = 0 :=
    CurvePoint.ext ((point_nsmul _ 8).trans hclear)
  refine (verify_iff_equation hk hR).mpr ⟨hn, hlt, ?_⟩
  rw [hzero, nsmul_zero] at hequation ⊢
  exact hequation

/-- **The answer does not depend on the message.** -/
theorem verify_eq_of_mul_eight_eq (hk : PublicKey.ofBytes b = .ok k)
    (hclear : k.point.mul 8 = Point.identity) (s : Signature) (hm : m < fieldModulus)
    (hn : n < fieldModulus) : verify m s k = verify n s k :=
  Bool.eq_iff_iff.mpr ⟨verify_of_verify hk hclear hn, verify_of_verify hk hclear hm⟩

theorem unpack_identity : Point.unpack (Bytes.ofNat 32 1) = .ok Point.identity := by
  have hpack : Point.identity.pack = Bytes.ofNat 32 1 := by decide +kernel
  rw [← hpack]
  exact Point.unpack_pack Point.onCurve_identity

/-- The decoder admits the identity. -/
theorem ofBytes_identity : PublicKey.ofBytes (Bytes.ofNat 32 1) = .ok ⟨Point.identity⟩ :=
  PublicKey.ofBytes_eq_ok_iff.mpr unpack_identity

/-- As nonce point and key, with the response zero, the identity signs every message. -/
theorem verify_identity (hm : m < fieldModulus) :
    verify m (.ofBytes (Bytes.ofNat 64 1)) ⟨Point.identity⟩ = true := by
  have hparts : Signature.ofBytes (Bytes.ofNat 64 1) = ⟨Bytes.ofNat 32 1, Bytes.ofNat 32 0⟩ := by
    decide +kernel
  have hzero : (Bytes.ofNat 32 0).toNat = 0 := by decide +kernel
  rw [hparts]
  refine verify_eq_true_iff.mpr ⟨hm, by rw [hzero]; decide, Point.identity, unpack_identity, ?_⟩
  rw [hzero]
  refine (signatureHolds_iff (R := 0) (A := 0)).mpr ?_
  rw [zero_nsmul, nsmul_zero, nsmul_zero, add_zero]

/-! ## Signed records -/

/-- The same signature by the same signer, on any record. -/
def SignedRecord.withRecord (s : SignedRecord) (r : Record) : SignedRecord := { s with record := r }

theorem SignedRecord.isValid_withRecord (s : SignedRecord) (r : Record) :
    (s.withRecord r).isValid = verify r.contentId s.signature s.signer := rfl

theorem Record.contentId_lt (r : Record) : r.contentId < fieldModulus := r.tree.root.val_lt

/-- The signer of a signed record that was read is a decoded key. -/
theorem SignedRecord.ofBytes_signer {text : String} {s : SignedRecord}
    (h : SignedRecord.ofText text = .ok s) : PublicKey.ofBytes s.signer.bytes = .ok s.signer :=
  (Obtainable.ofText h).parts.2.ofBytes_bytes

/-- **A signature binds its message** under a decoded key of which eight times is not the identity.
The messages for which it is accepted have challenges congruent modulo the subgroup order, so there
are few of them, and some message is rejected.  The same holds of the content ids of the records for
which a signed record that was read is valid.  Under a decoded key of which eight times is the
identity the answer is the same for all messages. -/
theorem verify_binds_message :
    (∀ (b : Bytes 32) (k : PublicKey), PublicKey.ofBytes b = .ok k →
      k.point.mul 8 ≠ Point.identity → ∀ S : Bytes 64,
        (∀ m n, verify m (.ofBytes S) k = true → verify n (.ofBytes S) k = true →
          ∃ R, Point.unpack (Signature.ofBytes S).nonce = .ok R
            ∧ (k.challenge R m).val ≡ (k.challenge R n).val [MOD subgroupOrder])
        ∧ (∃ m < fieldModulus, verify m (.ofBytes S) k = false)
        ∧ ∀ T : Finset ℕ, (∀ m ∈ T, verify m (.ofBytes S) k = true) → T.card ≤ 8 * 5 ^ 68)
    ∧ (∀ (text : String) (s : SignedRecord), SignedRecord.ofText text = .ok s →
      s.signer.point.mul 8 ≠ Point.identity →
        (∀ q r : Record, (s.withRecord q).isValid = true → (s.withRecord r).isValid = true →
          ∃ R, Point.unpack s.signature.nonce = .ok R
            ∧ (s.signer.challenge R q.contentId).val ≡ (s.signer.challenge R r.contentId).val
              [MOD subgroupOrder])
        ∧ ∀ T : Finset ℕ,
          (∀ c ∈ T, ∃ r : Record, r.contentId = c ∧ (s.withRecord r).isValid = true) →
          T.card ≤ 8 * 5 ^ 68)
    ∧ ∀ (b : Bytes 32) (k : PublicKey), PublicKey.ofBytes b = .ok k →
      k.point.mul 8 = Point.identity → ∀ (S : Bytes 64) (m n : ℕ), m < fieldModulus →
        n < fieldModulus → verify m (.ofBytes S) k = verify n (.ofBytes S) k := by
  refine ⟨?_, ?_, ?_⟩
  · intro b k hk hclear S
    refine ⟨?_, exists_verify_eq_false hk hclear _, fun T hT => card_le_of_verify hk hclear hT⟩
    intro m n hm hn
    obtain ⟨R, hR⟩ := exists_nonce_of_verify hm
    exact ⟨R.point, hR, modEq_of_verify hk hclear hR hm hn⟩
  · intro text s htext hclear
    have hk := SignedRecord.ofBytes_signer htext
    constructor
    · intro q r hq hr
      rw [SignedRecord.isValid_withRecord] at hq hr
      obtain ⟨R, hR⟩ := exists_nonce_of_verify hq
      exact ⟨R.point, hR, modEq_of_verify hk hclear hR hq hr⟩
    · intro T hT
      refine card_le_of_verify hk hclear (s := s.signature) fun c hc => ?_
      obtain ⟨r, rfl, hr⟩ := hT c hc
      exact hr
  · intro b k hk hclear S m n hm hn
    exact verify_eq_of_mul_eight_eq hk hclear _ hm hn

/-- The base point as key: a signature of it on the message `7` and one on a record.  And the
identity as key, for the messages `0` and `1`. -/
theorem verify_binds_message_base :
    let k : PublicKey := ⟨Point.base⟩
    let r := Record.single ⟨⟨"age", by decide⟩, .int 30⟩ trivial
    (PublicKey.ofBytes Point.base.pack = .ok k ∧ k.point.mul 8 ≠ Point.identity
      ∧ ∃ S : Bytes 64, verify 7 (.ofBytes S) k = true
        ∧ (∃ m < fieldModulus, verify m (.ofBytes S) k = false)
        ∧ ∀ n, verify n (.ofBytes S) k = true →
          ∃ R, Point.unpack (Signature.ofBytes S).nonce = .ok R
            ∧ (k.challenge R 7).val ≡ (k.challenge R n).val [MOD subgroupOrder])
    ∧ (∃ s : SignedRecord, SignedRecord.ofText s.toText = .ok s ∧ s.signer = k
      ∧ (s.withRecord r).isValid = true ∧ ∀ q : Record, (s.withRecord q).isValid = true →
        ∃ R, Point.unpack s.signature.nonce = .ok R
          ∧ (s.signer.challenge R r.contentId).val ≡ (s.signer.challenge R q.contentId).val
            [MOD subgroupOrder])
    ∧ PublicKey.ofBytes (Bytes.ofNat 32 1) = .ok ⟨Point.identity⟩
      ∧ Point.identity.mul 8 = Point.identity ∧ ∀ S : Bytes 64,
        verify 0 (.ofBytes S) ⟨Point.identity⟩ = verify 1 (.ofBytes S) ⟨Point.identity⟩ := by
  intro k r
  obtain ⟨hbinds, hrecords, hsmall⟩ := verify_binds_message
  have hk : PublicKey.ofBytes Point.base.pack = .ok k :=
    PublicKey.ofBytes_eq_ok_iff.mpr (Point.unpack_pack base.onCurve)
  have hclear : k.point.mul 8 ≠ Point.identity := by decide +kernel
  refine ⟨⟨hk, hclear, ?_⟩, ?_, ofBytes_identity, by decide +kernel, ?_⟩
  · obtain ⟨response, hverify⟩ := exists_verify_base (m := 7) (by decide)
    rw [← Signature.ofBytes_bytes ⟨_, response⟩] at hverify
    obtain ⟨hmodEq, hrejected, -⟩ := hbinds _ k hk hclear (Signature.bytes ⟨_, response⟩)
    exact ⟨_, hverify, hrejected, fun n hn => hmodEq 7 n hverify hn⟩
  · obtain ⟨response, hverify⟩ := exists_verify_base r.contentId_lt
    have hr : r.Obtainable := Record.obtainable_single _ trivial
    let s : SignedRecord := ⟨r, ⟨Point.base.pack, response⟩, k⟩
    have hread : SignedRecord.ofText s.toText = .ok s :=
      SignedRecord.ofText_toText (.load hr _ (.ofBytes hk))
    have hvalid : (s.withRecord r).isValid = true := by
      rw [SignedRecord.isValid_withRecord]
      exact hverify
    exact ⟨s, hread, rfl, hvalid, fun q hq => (hrecords _ s hread hclear).1 r q hvalid hq⟩
  · intro S
    exact hsmall _ _ ofBytes_identity (by decide +kernel) S 0 1 (by decide) (by decide)

/-- **The identity is a key that binds nothing.**  It is decoded, sixty-four bytes are a signature
by it on every message and on every record, and among the messages are two with challenges that are
not congruent. -/
theorem identity_accepts_every_message :
    let k : PublicKey := ⟨Point.identity⟩
    let S : Bytes 64 := Bytes.ofNat 64 1
    PublicKey.ofBytes (Bytes.ofNat 32 1) = .ok k
      ∧ (∀ m < fieldModulus, verify m (.ofBytes S) k = true)
      ∧ (∃ m < fieldModulus, ∃ n < fieldModulus,
        verify m (.ofBytes S) k = true ∧ verify n (.ofBytes S) k = true
          ∧ Point.unpack (Signature.ofBytes S).nonce = .ok Point.identity
          ∧ ¬ (k.challenge Point.identity m).val ≡ (k.challenge Point.identity n).val
            [MOD subgroupOrder])
      ∧ ∃ s : SignedRecord, SignedRecord.ofText s.toText = .ok s ∧ s.signature = .ofBytes S
        ∧ s.signer = k ∧ ∀ r : Record, (s.withRecord r).isValid = true := by
  intro k S
  have hverify (m : ℕ) (hm : m < fieldModulus) : verify m (.ofBytes S) k = true :=
    verify_identity hm
  obtain ⟨n, hn, hne⟩ :=
    exists_challenge_not_modEq k Point.identity (k.challenge Point.identity 0).val
  let r := Record.single ⟨⟨"age", by decide⟩, .int 30⟩ trivial
  have hr : r.Obtainable := Record.obtainable_single _ trivial
  let s : SignedRecord := ⟨r, .ofBytes S, k⟩
  have hread : SignedRecord.ofText s.toText = .ok s :=
    SignedRecord.ofText_toText (.load hr _ (.ofBytes ofBytes_identity))
  refine ⟨ofBytes_identity, hverify, ?_, s, hread, rfl, rfl, fun r => ?_⟩
  · exact ⟨n, hn, 0, fieldModulus_pos, hverify n hn, hverify 0 fieldModulus_pos,
      unpack_identity, hne⟩
  · rw [SignedRecord.isValid_withRecord]
    exact hverify _ r.contentId_lt

end ProvableRecord
