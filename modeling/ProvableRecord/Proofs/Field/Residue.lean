import Mathlib.Data.ZMod.Basic
import Mathlib.FieldTheory.Finite.Basic
import Mathlib.Tactic.Ring
import ProvableRecord.Proofs.Field.Prime

/-!
# Field elements as residues

`Fp.toZMod` sends an element to its residue in `ZMod fieldModulus`, which is a field.  It is
injective and turns every operation of `Fp` into the operation of the same name, so an identity
between elements is proved on residues, where `ring` and `field_simp` apply.

* `toZMod_add`, `toZMod_mul`, … — the operations
* `toZMod_inv` — the power `a ^ (p - 2)` is the inverse, by Fermat's little theorem
* `isUpper_neg` — of two opposite non-zero elements one is above the middle
* `val_ofInt_eq_ite` — the number that an integer stands for
* `ofInt_toInt_injective` — an integer of 64 bits is determined by its residue
-/

namespace ProvableRecord.Fp

/-- The residue of an element. -/
def toZMod (a : Fp) : ZMod fieldModulus := (a.val : ZMod fieldModulus)

theorem toZMod_injective : Function.Injective toZMod := by
  intro a b h
  apply Fp.ext
  rw [toZMod, toZMod, ZMod.natCast_eq_natCast_iff', Nat.mod_eq_of_lt a.val_lt,
    Nat.mod_eq_of_lt b.val_lt] at h
  exact h

theorem toZMod_inj {a b : Fp} : toZMod a = toZMod b ↔ a = b := toZMod_injective.eq_iff

/-! ## The operations -/

@[simp]
theorem toZMod_ofNat (n : ℕ) : toZMod (.ofNat n) = (n : ZMod fieldModulus) := by
  rw [toZMod, val_ofNat, ZMod.natCast_mod]

@[simp]
theorem toZMod_literal (n : ℕ) : toZMod (no_index (OfNat.ofNat n)) = (n : ZMod fieldModulus) :=
  toZMod_ofNat n

@[simp]
theorem toZMod_zero : toZMod 0 = 0 := by rw [toZMod_literal, Nat.cast_zero]

@[simp]
theorem toZMod_one : toZMod 1 = 1 := by rw [toZMod_literal, Nat.cast_one]

@[simp]
theorem toZMod_add (a b : Fp) : toZMod (a + b) = toZMod a + toZMod b :=
  (toZMod_ofNat _).trans (Nat.cast_add _ _)

@[simp]
theorem toZMod_mul (a b : Fp) : toZMod (a * b) = toZMod a * toZMod b :=
  (toZMod_ofNat _).trans (Nat.cast_mul _ _)

private theorem natCast_modulus_sub (a : Fp) :
    ((fieldModulus - a.val : ℕ) : ZMod fieldModulus) = -toZMod a := by
  rw [Nat.cast_sub a.val_lt.le, ZMod.natCast_self, zero_sub, toZMod]

@[simp]
theorem toZMod_neg (a : Fp) : toZMod (-a) = -toZMod a :=
  (toZMod_ofNat _).trans (natCast_modulus_sub a)

@[simp]
theorem toZMod_sub (a b : Fp) : toZMod (a - b) = toZMod a - toZMod b := by
  refine (toZMod_ofNat _).trans ?_
  rw [Nat.cast_add, natCast_modulus_sub, ← sub_eq_add_neg]
  rfl

@[simp]
theorem toZMod_pow (a : Fp) (n : ℕ) : toZMod (a ^ n) = toZMod a ^ n := by
  refine (map_doubling toZMod_mul 1 a n).trans ?_
  rw [toZMod_one, one_mul]

@[simp]
theorem toZMod_inv (a : Fp) : toZMod a.inv = (toZMod a)⁻¹ := by
  rw [inv, toZMod_pow]
  by_cases h : toZMod a = 0
  · rw [h, inv_zero, zero_pow (by decide)]
  · refine eq_inv_of_mul_eq_one_left ?_
    rw [← pow_succ]
    exact ZMod.pow_card_sub_one_eq_one h

/-- A number stands for zero only as zero. -/
theorem toZMod_eq_zero_iff {a : Fp} : toZMod a = 0 ↔ a = 0 := by
  rw [← toZMod_zero, toZMod_inj]

/-! ## Signs -/

theorem val_neg {a : Fp} (h : a ≠ 0) : (-a).val = fieldModulus - a.val := by
  have hpos : 0 < a.val := Nat.pos_of_ne_zero fun h0 => h (Fp.ext h0)
  exact Nat.mod_eq_of_lt (Nat.sub_lt fieldModulus_pos hpos)

theorem neg_involutive : Function.Involutive fun a : Fp => -a := by
  intro a
  rw [← toZMod_inj, toZMod_neg, toZMod_neg, neg_neg]

/-- Of two opposite non-zero elements exactly one is above the middle of the field. -/
theorem isUpper_neg {a : Fp} (h : a ≠ 0) : (-a).isUpper = !a.isUpper := by
  have hpos : 0 < a.val := Nat.pos_of_ne_zero fun h0 => h (Fp.ext h0)
  have hlt := a.val_lt
  simp only [isUpper, val_neg h]
  rw [← decide_not, decide_eq_decide]
  simp only [fieldModulus] at *
  omega

/-! ## Integers -/

theorem val_ofInt (n : ℤ) : ((ofInt n).val : ℤ) = n % fieldModulus := by
  have hpos : (0 : ℤ) < fieldModulus := Int.natCast_pos.mpr fieldModulus_pos
  have hnonneg := Int.emod_nonneg n hpos.ne'
  rw [ofInt, val_ofNat, Int.natCast_emod, Int.toNat_of_nonneg hnonneg, Int.emod_emod]

/-- An integer less than the modulus away from zero stands for itself, or for the number that counts
down from the modulus. -/
theorem val_ofInt_eq_ite {z : ℤ} (hge : -fieldModulus ≤ z) (hlt : z < fieldModulus) :
    ((ofInt z).val : ℤ) = if z < 0 then fieldModulus + z else z := by
  rw [val_ofInt]
  split
  · next hneg =>
    rw [← Int.add_emod_left, Int.emod_eq_of_lt (by omega) (by omega)]
  · next hneg => exact Int.emod_eq_of_lt (not_lt.mp hneg) hlt

/-- An integer of 64 bits is determined by its residue. -/
theorem ofInt_toInt_injective : Function.Injective fun n : Int64 => ofInt n.toInt := by
  intro m n h
  have hval : m.toInt % fieldModulus = n.toInt % fieldModulus := by
    rw [← val_ofInt, ← val_ofInt]
    exact congrArg (fun a : Fp => (a.val : ℤ)) h
  have hm := m.le_toInt
  have hm' := m.toInt_lt
  have hn := n.le_toInt
  have hn' := n.toInt_lt
  apply Int64.toInt.inj
  simp only [fieldModulus] at hval
  omega

end ProvableRecord.Fp
