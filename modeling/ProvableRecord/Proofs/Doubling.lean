import Mathlib.Algebra.Group.Nat.Defs
import Mathlib.Algebra.Group.TypeTags.Basic
import ProvableRecord.Doubling

/-!
# Doubling computes powers

`doubling op acc x n` reads the binary digits of `n` from the low end.  If `op` stands for the
product of a monoid, and `acc` and `x` for `a` and `m`, then after some digits the accumulator stands
for `a` times the power of `m` that these digits make (`rep_doublingSteps`), and the result for
`a * m ^ n` (`rep_doubling`).

What stands for an element of the monoid is a relation `Rep`, so that a representation may be valid
or not, as projective coordinates are; `map_doubling` is the case of a map, which covers the powers
of the field and the modular powers of a primality test.
-/

namespace ProvableRecord

variable {α : Type} {M : Type*} [Monoid M]

/-- The number of digits is the least one whose power of two is larger. -/
theorem bitLength_le_iff {n steps : ℕ} : bitLength n ≤ steps ↔ n < 2 ^ steps := by
  unfold bitLength
  split
  · next hzero =>
    rw [hzero]
    exact iff_of_true (Nat.zero_le _) (Nat.two_pow_pos _)
  · next hne => exact Nat.log2_lt hne

/-- A number has no digits beyond its length. -/
theorem mod_two_pow_bitLength (n : ℕ) : n % 2 ^ bitLength n = n :=
  Nat.mod_eq_of_lt (bitLength_le_iff.mp (Nat.le_refl _))

/-- **The digits that were read** say how many copies were combined, however many digits follow. -/
theorem rep_doublingSteps (op : α → α → α) (Rep : α → M → Prop)
    (hop : ∀ x y m n, Rep x m → Rep y n → Rep (op x y) (m * n)) (steps : ℕ)
    {acc x : α} {a m : M} (hacc : Rep acc a) (hx : Rep x m) (n : ℕ) :
    Rep (doublingSteps op steps acc x n) (a * m ^ (n % 2 ^ steps)) := by
  induction steps generalizing acc x a m n with
  | zero =>
    rw [pow_zero, Nat.mod_one, pow_zero, mul_one]
    exact hacc
  | succ steps ih =>
    -- the lowest digit counts copies of `m`, the others copies of its square
    have hdigits : n % 2 ^ (steps + 1) = n % 2 + 2 * (n / 2 % 2 ^ steps) := by
      rw [pow_succ', Nat.mod_mul]
    rw [hdigits, pow_add, pow_mul, pow_two, ← mul_assoc]
    refine ih ?_ (hop x x m m hx hx) (n / 2)
    by_cases hodd : n % 2 = 1
    · rw [if_pos hodd, hodd, pow_one]
      exact hop acc x a m hacc hx
    · have heven : n % 2 = 0 := by omega
      rw [if_neg hodd, heven, pow_zero, mul_one]
      exact hacc

/-- **Doubling is a power** of what its operands represent. -/
theorem rep_doubling (op : α → α → α) (Rep : α → M → Prop)
    (hop : ∀ x y m n, Rep x m → Rep y n → Rep (op x y) (m * n))
    {acc x : α} {a m : M} (hacc : Rep acc a) (hx : Rep x m) (n : ℕ) :
    Rep (doubling op acc x n) (a * m ^ n) := by
  have hrep := rep_doublingSteps op Rep hop (bitLength n) hacc hx n
  rwa [mod_two_pow_bitLength] at hrep

/-- In additive notation the power is a multiple. -/
theorem rep_doublingSteps_nsmul {A : Type*} [AddMonoid A] (op : α → α → α) (Rep : α → A → Prop)
    (hop : ∀ x y m n, Rep x m → Rep y n → Rep (op x y) (m + n)) (steps : ℕ)
    {acc x : α} {a m : A} (hacc : Rep acc a) (hx : Rep x m) (n : ℕ) :
    Rep (doublingSteps op steps acc x n) (a + (n % 2 ^ steps) • m) :=
  rep_doublingSteps (M := Multiplicative A) op (fun x m => Rep x m.toAdd)
    (fun x y m n => hop x y m.toAdd n.toAdd) steps (a := .ofAdd a) (m := .ofAdd m) hacc hx n

/-- All digits make the number. -/
theorem rep_doubling_nsmul {A : Type*} [AddMonoid A] (op : α → α → α) (Rep : α → A → Prop)
    (hop : ∀ x y m n, Rep x m → Rep y n → Rep (op x y) (m + n))
    {acc x : α} {a m : A} (hacc : Rep acc a) (hx : Rep x m) (n : ℕ) :
    Rep (doubling op acc x n) (a + n • m) := by
  have hrep := rep_doublingSteps_nsmul op Rep hop (bitLength n) hacc hx n
  rwa [mod_two_pow_bitLength] at hrep

/-- A map that turns `op` into the product turns doubling into a power. -/
theorem map_doubling {op : α → α → α} {f : α → M} (hmul : ∀ x y, f (op x y) = f x * f y)
    (acc x : α) (n : ℕ) : f (doubling op acc x n) = f acc * f x ^ n := by
  refine rep_doubling op (fun x m => f x = m) ?_ rfl rfl n
  rintro x y _ _ rfl rfl
  exact hmul x y

end ProvableRecord
