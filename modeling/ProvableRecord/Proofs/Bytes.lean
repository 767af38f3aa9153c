import Mathlib.Algebra.Group.Nat.Defs
import ProvableRecord.Bytes

/-!
# Numbers in bytes

Reading the bytes of a number gives the number back, as far as the bytes hold it, and the bytes of
the number that was read are the bytes.
-/

namespace ProvableRecord

/-- Reading the first layout back gives the number, as far as the bytes hold it. -/
theorem ofLittleEndian_littleEndian (count n : ℕ) :
    ofLittleEndian (littleEndian count n) = n % 256 ^ count := by
  induction count generalizing n with
  | zero =>
    rw [Nat.pow_zero, Nat.mod_one]
    rfl
  | succ count ih =>
    show (UInt8.ofNat n).toNat + 256 * ofLittleEndian (littleEndian count (n / 256)) = _
    rw [ih, Nat.pow_succ, Nat.mul_comm (256 ^ count), Nat.mod_mul]
    rfl

/-- A number that fits its bytes is read back. -/
theorem Bytes.toNat_ofNat {n value : ℕ} (h : value < 256 ^ n) : (ofNat n value).toNat = value := by
  rw [toNat, ofNat, ofLittleEndian_littleEndian, Nat.mod_eq_of_lt h]

/-- The bytes of the number that was read are the bytes. -/
theorem littleEndian_ofLittleEndian (bs : List UInt8) :
    littleEndian bs.length (ofLittleEndian bs) = bs := by
  induction bs with
  | nil => rfl
  | cons b bs ih =>
    have hlow : UInt8.ofNat (b.toNat + 256 * ofLittleEndian bs) = b := by
      apply UInt8.toNat.inj
      have hlt := b.toNat_lt
      rw [UInt8.toNat_ofNat']
      omega
    have hhigh : (b.toNat + 256 * ofLittleEndian bs) / 256 = ofLittleEndian bs := by
      have hlt := b.toNat_lt
      omega
    show UInt8.ofNat (b.toNat + 256 * ofLittleEndian bs)
      :: littleEndian bs.length ((b.toNat + 256 * ofLittleEndian bs) / 256) = b :: bs
    rw [hlow, hhigh, ih]

/-- Bytes are determined by the number that they hold. -/
theorem Bytes.toNat_injective {n : ℕ} : Function.Injective (toNat : Bytes n → ℕ) := by
  intro a b h
  have ha := littleEndian_ofLittleEndian a.toList
  have hb := littleEndian_ofLittleEndian b.toList
  rw [a.length_toList] at ha
  rw [b.length_toList] at hb
  have hnat : ofLittleEndian a.toList = ofLittleEndian b.toList := h
  exact Bytes.ext (by rw [← ha, ← hb, hnat])

end ProvableRecord
