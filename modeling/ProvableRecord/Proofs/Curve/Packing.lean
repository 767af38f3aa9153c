import ProvableRecord.Curve.Packing
import ProvableRecord.Proofs.Bytes
import Mathlib.Tactic.NormNum
import ProvableRecord.Proofs.Curve.Group
import ProvableRecord.Proofs.Field.SquareRoot

/-!
# Points survive packing

The ordinate of a point determines the square of its abscissa, as no ordinate of the curve makes the
denominator vanish (`abscissaSquare?_eq`).  The root that is found is the abscissa or its opposite,
and the sign bit tells which, so reading a packed point gives the point back (`unpack_pack`).  The
packed form is the only one that is read as the point (`pack_of_unpack`), and whatever is read is on
the curve (`onCurve_of_unpack`).
-/

namespace ProvableRecord.Point

open Curve

/-- An ordinate leaves the highest bit free. -/
theorem val_lt_signBit (y : Fp) : y.val < signBit :=
  y.val_lt.trans (by norm_num [fieldModulus, signBit, Nat.shiftLeft_eq])

/-- The number that a packed point holds. -/
theorem toNat_pack (P : Point) :
    P.pack.toNat = P.y.val + if P.x.isUpper then signBit else 0 := by
  have hy := val_lt_signBit P.y
  have hsign : signBit + signBit = 256 ^ 32 := by norm_num [signBit, Nat.shiftLeft_eq]
  refine Bytes.toNat_ofNat ?_
  split <;> omega

theorem toNat_pack_mod (P : Point) : P.pack.toNat % signBit = P.y.val := by
  rw [toNat_pack]
  split
  · rw [Nat.add_mod_right, Nat.mod_eq_of_lt (val_lt_signBit P.y)]
  · rw [Nat.add_zero, Nat.mod_eq_of_lt (val_lt_signBit P.y)]

theorem signBit_le_toNat_pack (P : Point) : signBit ≤ P.pack.toNat ↔ P.x.isUpper = true := by
  have hy := val_lt_signBit P.y
  rw [toNat_pack]
  split
  · next h => exact ⟨fun _ => h, fun _ => Nat.le_add_left _ _⟩
  · next h => exact ⟨fun hle => absurd hle (by omega), fun h' => absurd h' h⟩

/-- `a` is a square and `d` is not, so `a = d y²` has no solution. -/
theorem denominator_ne_zero (y : Fp) : a - d * (y * y) ≠ 0 := by
  intro h
  rw [← Fp.toZMod_eq_zero_iff, Fp.toZMod_sub, Fp.toZMod_mul, Fp.toZMod_mul, toZMod_d] at h
  have hy : ratio * (y.toZMod * y.toZMod) = 1 := by
    refine mul_left_cancel₀ toZMod_a_ne_zero ?_
    linear_combination -h
  have hy0 : y.toZMod ≠ 0 := by
    intro h0
    rw [h0, mul_zero, mul_zero] at hy
    exact zero_ne_one hy
  refine CompleteEdwards.not_isSquare (d := ratio) ⟨y.toZMod⁻¹, ?_⟩
  rw [← mul_inv, eq_inv_of_mul_eq_one_left hy]

/-- **The curve equation solved for the abscissa.** -/
theorem abscissaSquare?_eq {P : Point} (h : P.OnCurve) :
    abscissaSquare? P.y = some (P.x * P.x) := by
  have hden := denominator_ne_zero P.y
  have hden' : (a - d * (P.y * P.y)).toZMod ≠ 0 := fun h0 => hden (Fp.toZMod_eq_zero_iff.mp h0)
  simp only [abscissaSquare?]
  rw [if_neg hden, Option.some_inj, ← Fp.toZMod_inj, Fp.toZMod_mul, Fp.toZMod_inv,
    ← div_eq_mul_inv, div_eq_iff hden']
  rw [OnCurve, ← Fp.toZMod_inj] at h
  simp only [Fp.toZMod_add, Fp.toZMod_sub, Fp.toZMod_mul, Fp.toZMod_one] at h ⊢
  linear_combination -h

/-- A point whose abscissa has this square is on the curve. -/
theorem onCurve_of_abscissaSquare? {P : Point} (h : abscissaSquare? P.y = some (P.x * P.x)) :
    P.OnCurve := by
  have hden := denominator_ne_zero P.y
  have hden' : (a - d * (P.y * P.y)).toZMod ≠ 0 := fun h0 => hden (Fp.toZMod_eq_zero_iff.mp h0)
  simp only [abscissaSquare?] at h
  rw [if_neg hden, Option.some_inj, ← Fp.toZMod_inj, Fp.toZMod_mul, Fp.toZMod_inv,
    ← div_eq_mul_inv, div_eq_iff hden'] at h
  rw [OnCurve, ← Fp.toZMod_inj]
  simp only [Fp.toZMod_add, Fp.toZMod_sub, Fp.toZMod_mul, Fp.toZMod_one] at h ⊢
  linear_combination -h

/-- The element with the sign `upper` among `root` and its opposite. -/
theorem select_sign {root x : Fp} (h : root = x ∨ root = -x) (n : ℕ)
    (hn : signBit ≤ n ↔ x.isUpper = true) :
    (if signBit ≤ n then -(if root.isUpper then -root else root)
      else if root.isUpper then -root else root) = x := by
  have hnegneg : -(-x) = x := Fp.neg_involutive x
  by_cases hx : x = 0
  · -- zero is its own opposite
    subst hx
    have hzero : -(0 : Fp) = 0 := by decide
    rw [hzero, or_self] at h
    subst h
    simp only [hzero, ite_self]
  · have hup := Fp.isUpper_neg hx
    simp only [hn]
    rcases h with rfl | rfl
    · cases hroot : root.isUpper <;> simp [hnegneg]
    · cases hroot : x.isUpper <;> simp [hup, hroot, hnegneg]

/-- The choice of the sign does not change the square. -/
theorem mul_self_select_sign (root : Fp) (n : ℕ) :
    (if signBit ≤ n then -(if root.isUpper then -root else root)
        else if root.isUpper then -root else root)
      * (if signBit ≤ n then -(if root.isUpper then -root else root)
        else if root.isUpper then -root else root) = root * root := by
  have hneg : ∀ a : Fp, -a * -a = a * a := fun a => by
    rw [← Fp.toZMod_inj, Fp.toZMod_mul, Fp.toZMod_mul, Fp.toZMod_neg, neg_mul_neg]
  have hlow : (if root.isUpper then -root else root) * (if root.isUpper then -root else root)
      = root * root := by
    split
    · exact hneg root
    · rfl
  split
  · rw [hneg, hlow]
  · exact hlow

/-- **Reading a packed point gives the point back.** -/
theorem unpack_pack {P : Point} (h : P.OnCurve) : unpack P.pack = .ok P := by
  obtain ⟨root, hroot, hsign⟩ := Fp.sqrt?_mul_self P.x
  have hy : Fp.ofNat? (P.pack.toNat % signBit) = some P.y := by
    rw [toNat_pack_mod, Fp.ofNat?_eq_some_iff]
  have hx := select_sign hsign P.pack.toNat (signBit_le_toNat_pack P)
  simp only [unpack, hy, abscissaSquare?_eq h, hroot, hx]
  rfl

/-- The packed form determines a point of the curve. -/
theorem OnCurve.eq_of_pack_eq {P Q : Point} (hP : P.OnCurve) (hQ : Q.OnCurve)
    (h : P.pack = Q.pack) : P = Q := by
  have hunpack := unpack_pack hP
  rw [h, unpack_pack hQ, Except.ok.injEq] at hunpack
  exact hunpack.symm

/-- What was read from bytes has these bytes as its packed form and satisfies the equation that its
abscissa was computed from. -/
theorem of_unpack {bytes : Bytes 32} {P : Point} (h : unpack bytes = .ok P) :
    P.pack = bytes ∧ abscissaSquare? P.y = some (P.x * P.x) := by
  unfold unpack at h
  dsimp only at h
  split at h
  case h_2 => cases h
  case h_1 y hy =>
    split at h
    case h_2 => cases h
    case h_1 square hsquare =>
      split at h
      case h_2 => cases h
      case h_1 root hroot =>
        have habscissa := mul_self_select_sign root bytes.toNat
        rw [Fp.mul_self_of_sqrt? hroot] at habscissa
        -- beyond its square, the abscissa is only compared with the bytes
        generalize (if signBit ≤ bytes.toNat then _ else _) = x at h habscissa
        split at h
        case isFalse => cases h
        case isTrue hpack =>
          cases h
          exact ⟨hpack, by rw [hsquare, habscissa]⟩

/-- **Only the encoding of a point is read** as this point. -/
theorem pack_of_unpack {bytes : Bytes 32} {P : Point} (h : unpack bytes = .ok P) :
    P.pack = bytes :=
  (of_unpack h).1

/-- **What is read is on the curve.** -/
theorem onCurve_of_unpack {bytes : Bytes 32} {P : Point} (h : unpack bytes = .ok P) :
    P.OnCurve :=
  onCurve_of_abscissaSquare? (of_unpack h).2

end ProvableRecord.Point
