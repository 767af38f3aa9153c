import ProvableRecord.Proofs.Signature.Completeness
import ProvableRecord.Proofs.Text.FixedBytes

/-!
# Keys and signatures are read back

A public key comes from a private key or from bytes (`PublicKey.Obtainable`).  In the first case its
point is a multiple of the base point, so its packed form is unpacked to it; in the second it was
unpacked from just these bytes.  Sixty-four bytes of any value are a signature.  Neither text has
the length of the same bytes in hexadecimal, so both are read as Base64.
-/

namespace ProvableRecord

namespace PublicKey

/-- The keys that can come up: those of private keys and those read from bytes. -/
inductive Obtainable : PublicKey → Prop where
  | ofPrivate (k : PrivateKey) : Obtainable k.publicKey
  | ofBytes {b : Bytes 32} {k : PublicKey} (h : PublicKey.ofBytes b = .ok k) : Obtainable k

/-- A key that was read from a text was read from bytes. -/
theorem obtainable_of_ofText {text : String} {k : PublicKey} (h : ofText text = .ok k) :
    Obtainable k := by
  rw [ofText] at h
  cases hbytes : Bytes.ofText 32 text "public key" with
  | error e =>
    rw [hbytes] at h
    cases h
  | ok b =>
    rw [hbytes] at h
    exact .ofBytes h

theorem ofBytes_eq_ok_iff {b : Bytes 32} {k : PublicKey} :
    ofBytes b = .ok k ↔ Point.unpack b = .ok k.point := by
  rw [ofBytes]
  cases Point.unpack b with
  | error e =>
    constructor <;>
      intro h <;> cases h
  | ok P =>
    constructor <;>
      intro h <;> cases h <;> rfl

/-- **The packed form of a key is read back.** -/
theorem Obtainable.ofBytes_bytes {k : PublicKey} (h : Obtainable k) :
    PublicKey.ofBytes k.bytes = .ok k := by
  cases h with
  | ofPrivate k =>
    have hpoint : k.publicKey.point = ((k.expand.scalar / 8) • CurvePoint.base).point :=
      k.point_expand
    rw [ofBytes_eq_ok_iff, bytes, hpoint]
    exact Point.unpack_pack (CurvePoint.onCurve _)
  | @ofBytes b k h =>
    have hpack : k.bytes = b := Point.pack_of_unpack (ofBytes_eq_ok_iff.mp h)
    rw [hpack]
    exact h

/-- **The text of a key is read back.** -/
theorem Obtainable.ofText_toText {k : PublicKey} (h : Obtainable k) :
    ofText k.toText = .ok k := by
  rw [ofText, toText, Bytes.ofText_toText (by decide)]
  simp only [bind, Except.bind, h.ofBytes_bytes]

end PublicKey

/-- **The text of a signature is read back.** -/
theorem Signature.ofText_toText (s : Signature) : ofText s.toText = .ok s := by
  rw [ofText, toText, Bytes.ofText_toText (by decide)]
  simp only [Except.map, ofBytes_bytes]

end ProvableRecord
