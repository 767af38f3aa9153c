/-!
# Repeated combination by doubling

`doubling op acc x n` combines `acc` with `n` copies of `x` in about `2 * log2 n` steps, reading the
binary digits of `n` from the low end.  With a product it is a power, with a point addition it is a
scalar multiple.
-/

namespace ProvableRecord

/-- The number of binary digits of a number; zero has none. -/
def bitLength (n : Nat) : Nat := if n = 0 then 0 else Nat.log2 n + 1

/-- Reads `steps` binary digits of `n` from the low end: each digit that is set contributes the
current double of `x`. -/
@[specialize]
def doublingSteps {α : Type} (op : α → α → α) : (steps : Nat) → (acc x : α) → (n : Nat) → α
  | 0, acc, _, _ => acc
  | steps + 1, acc, x, n =>
    doublingSteps op steps (if n % 2 = 1 then op acc x else acc) (op x x) (n / 2)

/-- Combines `acc` with `n` copies of `x`. -/
@[specialize]
def doubling {α : Type} (op : α → α → α) (acc x : α) (n : Nat) : α :=
  doublingSteps op (bitLength n) acc x n

end ProvableRecord
