import ProvableRecord.Proofs.Curve.Packing

/-!
# Which bytes are points

The bytes that read as a point are the packed points of the curve (`unpack_eq_ok_iff`).  All others
are unreadable for one of three reasons (`Unreadable`): their ordinate is not below the modulus, no
point of the curve has it, or the only such point has the abscissa zero and they ask for its
opposite.  Every string of bytes is a packed point or unreadable (`packed_or_unreadable`), and what
is unreadable is refused for its reason (`Unreadable.unpack_eq`), so these are all the reasons there
are.  That an ordinate leaves no equation for the abscissa is none of them.
-/

namespace ProvableRecord

/-- The number that bytes hold is less than the power of 256 for their length. -/
theorem Bytes.toNat_lt {n : ℕ} (b : Bytes n) : b.toNat < 256 ^ n := by
  have hbytes := littleEndian_ofLittleEndian b.toList
  rw [b.length_toList] at hbytes
  have hmod := ofLittleEndian_littleEndian n b.toNat
  rw [toNat, hbytes] at hmod
  rw [toNat, hmod]
  exact Nat.mod_lt _ (Nat.pow_pos (by decide))

namespace Point

variable {bytes : Bytes 32} {P : Point}

/-- **Bytes read as a point when they are its encoding** and it is on the curve. -/
theorem unpack_eq_ok_iff : unpack bytes = .ok P ↔ P.OnCurve ∧ P.pack = bytes := by
  constructor
  · intro h
    exact ⟨onCurve_of_unpack h, pack_of_unpack h⟩
  · rintro ⟨h, rfl⟩
    exact unpack_pack h

/-- The ordinate that bytes hold, next to the bit for the sign. -/
def ordinate (bytes : Bytes 32) : ℕ := bytes.toNat % signBit

/-- The bytes with the given ordinate and sign. -/
theorem pack_eq_of_ordinate (hy : P.y.val = ordinate bytes)
    (hsign : P.x.isUpper = true ↔ signBit ≤ bytes.toNat) : P.pack = bytes := by
  have hlt := bytes.toNat_lt
  have htop : 256 ^ 32 = signBit + signBit := by norm_num [signBit, Nat.shiftLeft_eq]
  apply Bytes.toNat_injective
  rw [toNat_pack, hy, ordinate]
  by_cases h : signBit ≤ bytes.toNat
  · rw [if_pos (hsign.mpr h), Nat.mod_eq_sub_mod h, Nat.mod_eq_of_lt (by omega)]
    omega
  · rw [if_neg (fun hup => h (hsign.mp hup)), Nat.mod_eq_of_lt (by omega), Nat.add_zero]

/-- Why bytes are no encoding of a point. -/
inductive Unreadable (bytes : Bytes 32) : PointFault → Prop where
  | largeOrdinate (h : fieldModulus ≤ ordinate bytes) : Unreadable bytes .largeOrdinate
  | noAbscissa {y : Fp} (hy : y.val = ordinate bytes) (h : ∀ x, ¬ OnCurve ⟨x, y⟩) :
    Unreadable bytes .noAbscissa
  /-- The abscissa is zero, which has no sign. -/
  | notCanonical {y : Fp} (hy : y.val = ordinate bytes) (h : OnCurve ⟨0, y⟩)
    (hsign : signBit ≤ bytes.toNat) : Unreadable bytes .notCanonical

/-- Of the two points with an ordinate one has the sign that is asked for, unless they are one. -/
theorem exists_sign {x y : Fp} (h : OnCurve ⟨x, y⟩) (sign : Bool) :
    (∃ x', OnCurve ⟨x', y⟩ ∧ x'.isUpper = sign) ∨ x = 0 ∧ sign = true := by
  by_cases hx : x = 0
  · cases sign with
    | false => exact .inl ⟨x, h, by subst hx; decide⟩
    | true => exact .inr ⟨hx, rfl⟩
  · left
    by_cases hsign : x.isUpper = sign
    · exact ⟨x, h, hsign⟩
    · refine ⟨-x, h.neg, ?_⟩
      rw [Fp.isUpper_neg hx, Bool.not_eq]
      exact fun heq => hsign heq

/-- **Every string of bytes is the encoding of a point or unreadable.** -/
theorem packed_or_unreadable (bytes : Bytes 32) :
    (∃ P : Point, P.OnCurve ∧ P.pack = bytes) ∨ ∃ fault, Unreadable bytes fault := by
  by_cases hlarge : fieldModulus ≤ ordinate bytes
  · exact .inr ⟨_, .largeOrdinate hlarge⟩
  obtain ⟨y, hy⟩ : ∃ y : Fp, y.val = ordinate bytes := ⟨⟨_, not_le.mp hlarge⟩, rfl⟩
  by_cases hcurve : ∃ x, OnCurve ⟨x, y⟩
  · obtain ⟨x, hx⟩ := hcurve
    rcases exists_sign hx (decide (signBit ≤ bytes.toNat)) with ⟨x', hx', hsign⟩ | ⟨rfl, hsign⟩
    · refine .inl ⟨⟨x', y⟩, hx', pack_eq_of_ordinate hy ?_⟩
      rw [hsign, decide_eq_true_eq]
    · exact .inr ⟨_, .notCanonical hy hx (decide_eq_true_eq.mp hsign)⟩
  · exact .inr ⟨_, .noAbscissa hy (not_exists.mp hcurve)⟩

/-- No ordinate leaves the abscissa open. -/
theorem exists_abscissaSquare (y : Fp) : ∃ square, abscissaSquare? y = some square := by
  rw [abscissaSquare?]
  exact ⟨_, if_neg (denominator_ne_zero y)⟩

/-- **What is unreadable is refused for its reason.** -/
theorem Unreadable.unpack_eq {fault : PointFault} (h : Unreadable bytes fault) :
    unpack bytes = .error (.point fault) := by
  cases h with
  | largeOrdinate h =>
    have hy : Fp.ofNat? (bytes.toNat % signBit) = none := dif_neg (not_lt.mpr h)
    simp only [unpack, hy]
    rfl
  | @noAbscissa y hy h =>
    have hy' : Fp.ofNat? (bytes.toNat % signBit) = some y := Fp.ofNat?_eq_some_iff.mpr hy
    obtain ⟨square, hsquare⟩ := exists_abscissaSquare y
    have hroot : square.sqrt? = none := by
      by_contra hsome
      obtain ⟨root, hroot⟩ := Option.ne_none_iff_exists'.mp hsome
      -- the root would be an abscissa
      refine h root (onCurve_of_abscissaSquare? ?_)
      rw [hsquare, Fp.mul_self_of_sqrt? hroot]
    simp only [unpack, hy', hsquare, hroot]
    rfl
  | @notCanonical y hy h hsign =>
    have hy' : Fp.ofNat? (bytes.toNat % signBit) = some y := Fp.ofNat?_eq_some_iff.mpr hy
    have hsquare := abscissaSquare?_eq h
    dsimp only at hsquare
    have hzero : -(0 : Fp) = 0 := by decide
    have hpack : (⟨0, y⟩ : Point).pack ≠ bytes := by
      rintro rfl
      have hupper : (0 : Fp).isUpper = true := (signBit_le_toNat_pack _).mp hsign
      exact absurd hupper (by decide)
    simp only [unpack, hy', hsquare, Fp.sqrt?_zero, hzero, ite_self, if_neg hpack]
    rfl

/-- **Bytes are refused when they are unreadable**, for the reason that makes them so. -/
theorem unpack_eq_error_iff {e : PrimitiveError} :
    unpack bytes = .error e ↔ ∃ fault, e = .point fault ∧ Unreadable bytes fault := by
  constructor
  · intro h
    rcases packed_or_unreadable bytes with ⟨P, hP⟩ | ⟨fault, hfault⟩
    · cases (unpack_eq_ok_iff.mpr hP).symm.trans h
    · have he := hfault.unpack_eq
      rw [h, Except.error.injEq] at he
      exact ⟨fault, he, hfault⟩
  · rintro ⟨fault, rfl, hfault⟩
    exact hfault.unpack_eq

/-- **Packing is a bijection between the curve and the bytes that are read.**  Bytes read as a point
when the point is on the curve and they are its encoding, so each point of the curve is read back
from its encoding and from no other bytes.  All other bytes are refused as no encoding of a point,
for the one reason that makes them unreadable, and never because an ordinate leaves the abscissa
open. -/
theorem unpack_exact :
    (∀ (bytes : Bytes 32) (P : Point), unpack bytes = .ok P ↔ P.OnCurve ∧ P.pack = bytes)
    ∧ (∀ P : Point, P.OnCurve → unpack P.pack = .ok P)
    ∧ (∀ (bytes bytes' : Bytes 32) (P : Point), unpack bytes = .ok P → unpack bytes' = .ok P →
      bytes = bytes')
    ∧ (∀ bytes : Bytes 32, (∀ P : Point, P.OnCurve → P.pack ≠ bytes) →
      ∃ fault, unpack bytes = .error (.point fault) ∧ Unreadable bytes fault)
    ∧ ∀ bytes : Bytes 32, unpack bytes ≠ .error (.point .degenerateOrdinate) := by
  refine ⟨fun _ _ => unpack_eq_ok_iff, fun _ => unpack_pack, ?_, ?_, ?_⟩
  · intro bytes bytes' P h h'
    exact (pack_of_unpack h).symm.trans (pack_of_unpack h')
  · intro bytes h
    rcases packed_or_unreadable bytes with ⟨P, hP, hpack⟩ | ⟨fault, hfault⟩
    · exact absurd hpack (h P hP)
    · exact ⟨fault, hfault.unpack_eq, hfault⟩
  · intro bytes h
    obtain ⟨fault, hfault, hunreadable⟩ := unpack_eq_error_iff.mp h
    cases hfault
    cases hunreadable

/-- The base point is read from its encoding alone, and the bytes of the neutral point with the bit
for the sign are refused. -/
theorem unpack_exact_base :
    let signed := Bytes.ofNat 32 (1 + signBit)
    base.OnCurve ∧ unpack base.pack = .ok base
      ∧ (∀ bytes, unpack bytes = .ok base → bytes = base.pack)
      ∧ (∀ P : Point, P.OnCurve → P.pack ≠ signed)
      ∧ ∃ fault, unpack signed = .error (.point fault) ∧ Unreadable signed fault := by
  intro signed
  obtain ⟨hread, hpacked, hinjective, hrefused, -⟩ := unpack_exact
  have hbase : base.OnCurve := by decide
  have hback := hpacked base hbase
  have hsigned : Unreadable signed .notCanonical :=
    .notCanonical (y := 1) (by decide) onCurve_identity (by decide)
  have hnone : ∀ P : Point, P.OnCurve → P.pack ≠ signed := by
    intro P hP hpack
    have hok := (hread signed P).mpr ⟨hP, hpack⟩
    cases hok.symm.trans hsigned.unpack_eq
  exact ⟨hbase, hback, fun bytes h => hinjective bytes base.pack base h hback, hnone,
    hrefused signed hnone⟩

end Point

end ProvableRecord
