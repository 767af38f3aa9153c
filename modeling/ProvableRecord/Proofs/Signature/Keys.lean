import ProvableRecord.Proofs.Curve.Reachable
import ProvableRecord.Proofs.Except
import ProvableRecord.Proofs.Signature.Text

/-!
# Keys are points of the curve in their only encoding

A key is kept with thirty-two bytes: those it was read from, or those that its point is packed to
(`PublicKey.Kept`).  In each case the bytes are the packed form of the point and the point is on the
curve, so the bytes, the point and both together tell keys apart equally well
(`curve_invariant`).
-/

namespace ProvableRecord

namespace PublicKey

/-- A key with the bytes that are kept with it: the packed point for the key of a private key, and
the bytes that were read for a key that was read. -/
inductive Kept : Bytes 32 → PublicKey → Prop where
  | ofPrivate (k : PrivateKey) : Kept k.expand.point.pack k.publicKey
  | ofBytes {b : Bytes 32} {k : PublicKey} (h : PublicKey.ofBytes b = .ok k) : Kept b k
  | ofText {text : String} {b : Bytes 32} {k : PublicKey}
    (hb : Bytes.ofText 32 text "public key" = .ok b) (h : PublicKey.ofText text = .ok k) : Kept b k

theorem onCurve_of_ofBytes {b : Bytes 32} {k : PublicKey} (h : ofBytes b = .ok k) :
    k.point.OnCurve :=
  Point.onCurve_of_unpack (ofBytes_eq_ok_iff.mp h)

/-- **The bytes that are kept with a key are those of its point**, which is on the curve. -/
theorem Kept.eq_pack {b : Bytes 32} {k : PublicKey} (h : Kept b k) :
    b = k.point.pack ∧ k.point.OnCurve := by
  have hread : ∀ {b : Bytes 32} {k : PublicKey}, PublicKey.ofBytes b = .ok k →
      b = k.point.pack ∧ k.point.OnCurve := fun h =>
    ⟨(Point.pack_of_unpack (ofBytes_eq_ok_iff.mp h)).symm, onCurve_of_ofBytes h⟩
  cases h with
  | ofPrivate k =>
    refine ⟨rfl, ?_⟩
    have hbase : Point.base.OnCurve := CurvePoint.base.onCurve
    exact hbase.mul (k.expand.scalar / 8)
  | ofBytes h => exact hread h
  | ofText hb h =>
    obtain ⟨b', hb', h'⟩ := Except.bind_eq_ok_iff.mp h
    rw [hb, Except.ok.injEq] at hb'
    exact hread (hb' ▸ h')

/-- **Kept keys are told apart by their bytes and by their points.** -/
theorem Kept.eq_iff {b b' : Bytes 32} {k k' : PublicKey} (h : Kept b k) (h' : Kept b' k') :
    ((b, k) = (b', k') ↔ b = b') ∧ ((b, k) = (b', k') ↔ k.point = k'.point) := by
  obtain ⟨hpack, hcurve⟩ := h.eq_pack
  obtain ⟨hpack', hcurve'⟩ := h'.eq_pack
  have hbytes : b = b' ↔ k.point = k'.point := by
    rw [hpack, hpack']
    exact ⟨hcurve.eq_of_pack_eq hcurve', fun h => h ▸ rfl⟩
  have hpair : (b, k) = (b', k') ↔ k.point = k'.point := by
    rw [Prod.mk.injEq, hbytes, PublicKey.mk.injEq, and_self]
  exact ⟨hpair.trans hbytes.symm, hpair⟩

end PublicKey

/-- **The invariant of points and keys.**  Every point that can come up is on the curve, and its
multiples are those of doubling with sums of such points.  The denominators of a sum of two such
points do not vanish, so that their inverses are inverses.  The bytes that are kept with a key are
those of its point, which is on the curve, and two keys are equal when their bytes are and when
their points are. -/
theorem curve_invariant :
    (∀ P : Point, P.Reachable →
      P.OnCurve ∧ ∀ n, P.mul n = doubling (· + ·) Point.identity P n)
    ∧ (∀ P Q : Point, P.Reachable → Q.Reachable →
      (1 + Point.crossTerm P Q ≠ 0 ∧ 1 - Point.crossTerm P Q ≠ 0)
        ∧ (1 + Point.crossTerm P Q) * (1 + Point.crossTerm P Q).inv = 1
        ∧ (1 - Point.crossTerm P Q) * (1 - Point.crossTerm P Q).inv = 1)
    ∧ (∀ (b : Bytes 32) (k : PublicKey), k.Kept b → b = k.point.pack ∧ k.point.OnCurve)
    ∧ ∀ (b b' : Bytes 32) (k k' : PublicKey), k.Kept b → k'.Kept b' →
      ((b, k) = (b', k') ↔ b = b') ∧ ((b, k) = (b', k') ↔ k.point = k'.point) := by
  refine ⟨?_, ?_, fun _ _ h => h.eq_pack, fun _ _ _ _ h h' => h.eq_iff h'⟩
  · intro P hP
    exact ⟨hP.onCurve, hP.onCurve.mul_eq_doubling⟩
  · intro P Q hP hQ
    have hne := hP.onCurve.denominators_ne_zero hQ.onCurve
    exact ⟨hne, Fp.mul_inv_self hne.1, Fp.mul_inv_self hne.2⟩

/-- The base point and its double, and the key `5`, once made and once read from its bytes. -/
theorem curve_invariant_base :
    let P := Point.base
    let Q := Point.base + Point.base
    let k := (⟨Bytes.ofNat 32 5⟩ : PrivateKey).publicKey
    (P.Reachable ∧ Q.Reachable ∧ k.Kept k.point.pack)
      ∧ (Q.OnCurve ∧ ∀ n, Q.mul n = doubling (· + ·) Point.identity Q n)
      ∧ ((1 + Point.crossTerm P Q ≠ 0 ∧ 1 - Point.crossTerm P Q ≠ 0)
        ∧ (1 + Point.crossTerm P Q) * (1 + Point.crossTerm P Q).inv = 1
        ∧ (1 - Point.crossTerm P Q) * (1 - Point.crossTerm P Q).inv = 1)
      ∧ (k.bytes = k.point.pack ∧ k.point.OnCurve)
      ∧ ((k.point.pack, k) = (k.bytes, k) ↔ k.point.pack = k.bytes)
      ∧ ((k.point.pack, k) = (k.bytes, k) ↔ k.point = k.point) := by
  intro P Q k
  have hP : P.Reachable := .base
  have hQ : Q.Reachable := hP.add hP
  have hmade : k.Kept k.point.pack := .ofPrivate _
  have hread : k.Kept k.bytes := .ofBytes (PublicKey.Obtainable.ofPrivate _).ofBytes_bytes
  obtain ⟨hpoints, hsums, hkeys, hequal⟩ := curve_invariant
  exact ⟨⟨hP, hQ, hmade⟩, hpoints Q hQ, hsums P Q hP hQ, hkeys _ k hread,
    hequal _ _ k k hmade hread⟩

end ProvableRecord
