import ProvableRecord.Field

/-!
# Square roots in the scalar field

The multiplicative group has order `2 ^ 28 * oddPart`.  Raising `v` to `(oddPart + 1) / 2` gives a
root `x` up to a factor `t = v ^ oddPart` of two-power order: `x * x = v * t`.  `removeTorsion`
drives `t` to one by squaring levels, multiplying in powers of a generator of the two-power part
where a level is not yet trivial.  The final comparison refuses what is not a square.
-/

namespace ProvableRecord.Fp

/-- The multiplicative group has order `2 ^ twoAdicity` times an odd number. -/
def twoAdicity : Nat := 28

/-- The odd part of the order of the multiplicative group. -/
def oddPart : Nat := (fieldModulus - 1) >>> twoAdicity

/-- A generator of the elements of two-power order: a power of the non-square 5. -/
def torsionGenerator : Fp := 5 ^ oddPart

/-- Corrects `x` while `x * x = v * t`, `t ^ 2 ^ k = 1` and `c ^ 2 ^ k = -1`; each step halves the
order that `t` may have. -/
def removeTorsion : (k : Nat) → (c x t : Fp) → Fp
  | 0, _, x, _ => x
  | k + 1, c, x, t =>
    if t ^ (1 <<< k) = 1 then removeTorsion k (c * c) x t
    else removeTorsion k (c * c) (x * c) (t * (c * c))

/-- A square root of `v`, if it has one. -/
def sqrt? (v : Fp) : Option Fp :=
  let x := removeTorsion (twoAdicity - 1) torsionGenerator (v ^ ((oddPart + 1) / 2)) (v ^ oddPart)
  if x * x = v then some x else none

theorem mul_self_of_sqrt? {v x : Fp} (h : sqrt? v = some x) : x * x = v := by
  simp only [sqrt?, Option.ite_none_right_eq_some, Option.some.injEq] at h
  exact h.2 ▸ h.1

end ProvableRecord.Fp
