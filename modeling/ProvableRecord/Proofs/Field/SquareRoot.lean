import Mathlib.Tactic.LinearCombination
import ProvableRecord.Field.SquareRoot
import ProvableRecord.Proofs.Field.Residue

/-!
# The square root of a square is found

`mul_self_of_sqrt?` says that what `sqrt?` returns is a root.  Here is the converse: for a square
it returns one.  `removeTorsion` keeps three equations (`x * x = v * t`, `t ^ 2 ^ k = 1` and
`c ^ 2 ^ k = -1`), and with `k = 0` the first two say `x * x = v`.
-/

namespace ProvableRecord.Fp

/-- `removeTorsion` ends at a root, if `t` has an order that divides `2 ^ k` and `c` generates the
elements of order `2 ^ (k + 1)`. -/
theorem removeTorsion_mul_self {v : ZMod fieldModulus} (k : ℕ) {c x t : Fp}
    (hx : x.toZMod * x.toZMod = v * t.toZMod) (ht : t.toZMod ^ 2 ^ k = 1)
    (hc : c.toZMod ^ 2 ^ k = -1) :
    (removeTorsion k c x t).toZMod * (removeTorsion k c x t).toZMod = v := by
  induction k generalizing c x t with
  | zero =>
    rw [pow_zero, pow_one] at ht
    rw [removeTorsion, hx, ht, mul_one]
  | succ k ih =>
    have hc' : (c * c).toZMod ^ 2 ^ k = -1 := by
      rw [toZMod_mul, ← pow_two, ← pow_mul, ← pow_succ', hc]
    -- `t ^ 2 ^ k` is a square root of one
    have hroot : t.toZMod ^ 2 ^ k = 1 ∨ t.toZMod ^ 2 ^ k = -1 := by
      rw [← mul_self_eq_one_iff, ← pow_two, ← pow_mul, ← pow_succ, ht]
    rw [removeTorsion]
    split
    · next hone =>
      refine ih hx ?_ hc'
      rw [← toZMod_inj, toZMod_pow, toZMod_one, Nat.one_shiftLeft] at hone
      exact hone
    · next hne =>
      have hminus : t.toZMod ^ 2 ^ k = -1 := by
        refine hroot.resolve_left fun hone => hne ?_
        rw [← toZMod_inj, toZMod_pow, toZMod_one, Nat.one_shiftLeft, hone]
      refine ih ?_ ?_ hc'
      · simp only [toZMod_mul]
        linear_combination c.toZMod * c.toZMod * hx
      · rw [toZMod_mul, mul_pow, hminus, hc', neg_mul_neg, one_mul]

/-- The element `5` is no square, so its power generates the elements of two-power order. -/
theorem torsionGenerator_pow : torsionGenerator ^ 2 ^ (twoAdicity - 1) = -1 := by decide +kernel

theorem removeTorsion_zero (k : ℕ) (c t : Fp) : removeTorsion k c 0 t = 0 := by
  induction k generalizing c t with
  | zero => rfl
  | succ k ih =>
    have hzero : 0 * c = 0 := by rw [← toZMod_inj, toZMod_mul, toZMod_zero, zero_mul]
    rw [removeTorsion, hzero, ih, ih, ite_self]

theorem sqrt?_zero : sqrt? (0 * 0) = some 0 := by
  have hzero : (0 * 0 : Fp) = 0 := by rw [← toZMod_inj, toZMod_mul, toZMod_zero, zero_mul]
  have hpow : (0 : Fp) ^ ((oddPart + 1) / 2) = 0 := by
    rw [← toZMod_inj, toZMod_pow, toZMod_zero, zero_pow (by decide)]
  simp only [sqrt?, hzero, hpow, removeTorsion_zero, if_true]

/-- **Square roots are complete.**  A square has a root, and it is one of the two that it must
be. -/
theorem sqrt?_mul_self (w : Fp) : ∃ x, sqrt? (w * w) = some x ∧ (x = w ∨ x = -w) := by
  obtain ⟨x, hx⟩ : ∃ x, sqrt? (w * w) = some x := by
    by_cases hw : w = 0
    · subst hw
      exact ⟨0, sqrt?_zero⟩
    · simp only [sqrt?]
      refine ⟨_, if_pos ?_⟩
      rw [← toZMod_inj, toZMod_mul]
      refine removeTorsion_mul_self (twoAdicity - 1) ?_ ?_ ?_
      · -- the exponents of `x * x` add up to `oddPart + 1`
        rw [toZMod_pow, toZMod_pow, ← pow_add, ← pow_succ']
        congr 1
      · have hw' : w.toZMod ≠ 0 := fun h => hw (toZMod_eq_zero_iff.mp h)
        rw [toZMod_pow, toZMod_mul, ← pow_two, ← pow_mul, ← pow_mul]
        exact ZMod.pow_card_sub_one_eq_one hw'
      · rw [← toZMod_pow, torsionGenerator_pow, toZMod_neg, toZMod_one]
  refine ⟨x, hx, ?_⟩
  have hsquare := mul_self_of_sqrt? hx
  rw [← toZMod_inj, toZMod_mul, toZMod_mul] at hsquare
  rw [← toZMod_inj, ← toZMod_inj, toZMod_neg]
  exact mul_self_eq_mul_self_iff.mp hsquare

end ProvableRecord.Fp
