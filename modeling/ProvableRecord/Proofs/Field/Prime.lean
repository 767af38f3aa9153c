import Mathlib.Data.List.Prime
import Mathlib.NumberTheory.LucasPrimality
import ProvableRecord.Field
import ProvableRecord.Proofs.Doubling

/-!
# The field modulus is prime

Lucas's test shows that `p` is prime from an element of order `p - 1`: an `a` with
`a ^ (p - 1) = 1` and `a ^ ((p - 1) / q) ≠ 1` for each prime `q` that divides `p - 1`.
`LucasStep.test` runs it over `powMod`, which multiplies by doubling, so the kernel evaluates it.

That the factors are prime is shown in the same way.  A chain of steps takes only factors that
earlier steps have shown to be prime (`chainTest`), and `modulusChain` climbs from `2` to
`fieldModulus`.
-/

namespace ProvableRecord

/-- The power `a ^ n` modulo `m`. -/
def powMod (m a n : ℕ) : ℕ := doubling (fun x y => x * y % m) 1 a n

theorem natCast_powMod (m a n : ℕ) : ((powMod m a n : ℕ) : ZMod m) = (a : ZMod m) ^ n := by
  have hmul : ∀ x y : ℕ, ((x * y % m : ℕ) : ZMod m) = (x : ZMod m) * (y : ZMod m) := by
    intro x y
    rw [ZMod.natCast_mod, Nat.cast_mul]
  rw [powMod, map_doubling (f := fun x : ℕ => (x : ZMod m)) hmul, Nat.cast_one, one_mul]

theorem natCast_pow_eq_one_iff {p : ℕ} (hp : 1 < p) (a n : ℕ) :
    (a : ZMod p) ^ n = 1 ↔ powMod p a n % p = 1 := by
  rw [← natCast_powMod, ← Nat.cast_one, ZMod.natCast_eq_natCast_iff', Nat.mod_eq_of_lt hp]

/-! ## One step -/

/-- Lucas's test of a number: an element to test it with, and the prime factors of its predecessor,
each as often as it divides. -/
structure LucasStep where
  number : ℕ
  element : ℕ
  factors : List ℕ

/-- Whether the element has the order that is one less than the number. -/
def LucasStep.test (s : LucasStep) : Bool :=
  1 < s.number && s.factors.prod == s.number - 1
    && powMod s.number s.element (s.number - 1) % s.number == 1
    && s.factors.all fun q => powMod s.number s.element ((s.number - 1) / q) % s.number != 1

/-- **Lucas's test is sound** when the factors are prime. -/
theorem LucasStep.prime_number {s : LucasStep} (hprime : ∀ q ∈ s.factors, q.Prime)
    (h : s.test = true) : s.number.Prime := by
  simp only [test, Bool.and_eq_true, decide_eq_true_eq, beq_iff_eq, List.all_eq_true,
    bne_iff_ne] at h
  obtain ⟨⟨⟨hp, hprod⟩, hone⟩, hne⟩ := h
  have hpow := (natCast_pow_eq_one_iff hp s.element _).mpr hone
  refine lucas_primality s.number (s.element : ZMod s.number) hpow ?_
  intro q hq hdvd heq
  -- a prime that divides the product of the factors is one of them
  have hmem : q ∈ s.factors := by
    rw [← hprod] at hdvd
    obtain ⟨r, hr, hqr⟩ := (Prime.dvd_prod_iff hq.prime).mp hdvd
    rwa [(Nat.prime_dvd_prime_iff_eq hq (hprime r hr)).mp hqr]
  exact hne q hmem ((natCast_pow_eq_one_iff hp s.element _).mp heq)

/-! ## A chain of steps -/

/-- Whether each step passes its test with factors that are known or were tested before. -/
def chainTest (known : List ℕ) : List LucasStep → Bool
  | [] => true
  | s :: steps =>
    (s.factors.all fun q => decide (q ∈ known)) && s.test && chainTest (s.number :: known) steps

/-- **Every number of a chain is prime.** -/
theorem prime_of_chainTest {known : List ℕ} {steps : List LucasStep}
    (hknown : ∀ q ∈ known, q.Prime) (h : chainTest known steps = true) {s : LucasStep}
    (hs : s ∈ steps) : s.number.Prime := by
  induction steps generalizing known with
  | nil => cases hs
  | cons first steps ih =>
    simp only [chainTest, Bool.and_eq_true, List.all_eq_true, decide_eq_true_eq] at h
    obtain ⟨⟨hfactors, htest⟩, hrest⟩ := h
    have hfirst : first.number.Prime :=
      LucasStep.prime_number (fun q hq => hknown q (hfactors q hq)) htest
    rcases List.mem_cons.mp hs with rfl | hs
    · exact hfirst
    · refine ih ?_ hrest hs
      intro q hq
      rcases List.mem_cons.mp hq with rfl | hq
      · exact hfirst
      · exact hknown q hq

/-- A chain that ends with the field modulus. -/
def modulusChain : List LucasStep :=
  [⟨3, 2, [2]⟩, ⟨13, 2, [2, 2, 3]⟩, ⟨7, 3, [2, 3]⟩, ⟨29, 2, [2, 2, 7]⟩, ⟨5, 2, [2, 2]⟩,
   ⟨491, 2, [2, 5, 7, 7]⟩, ⟨983, 5, [2, 491]⟩, ⟨11, 2, [2, 5]⟩, ⟨5501, 2, [2, 2, 5, 5, 5, 11]⟩,
   ⟨11003, 2, [2, 5501]⟩, ⟨449, 3, [2, 2, 2, 2, 2, 2, 7]⟩,
   ⟨237073, 15, [2, 2, 2, 2, 3, 11, 449]⟩, ⟨41, 6, [2, 2, 2, 5]⟩, ⟨3691, 2, [2, 3, 3, 5, 41]⟩,
   ⟨17, 3, [2, 2, 2, 2]⟩, ⟨4999, 3, [2, 3, 7, 7, 17]⟩, ⟨405928799, 22, [2, 11, 3691, 4999]⟩,
   ⟨53, 2, [2, 2, 13]⟩, ⟨107, 2, [2, 53]⟩, ⟨661, 2, [2, 2, 3, 5, 11]⟩, ⟨31, 3, [2, 3, 5]⟩,
   ⟨93001, 14, [2, 2, 2, 3, 5, 5, 5, 31]⟩, ⟨12048837557, 2, [2, 2, 7, 7, 661, 93001]⟩,
   ⟨5156902474397, 2, [2, 2, 107, 12048837557]⟩,
   ⟨1670836401704629, 2, [2, 2, 3, 3, 3, 3, 5156902474397]⟩, ⟨137, 3, [2, 2, 2, 17]⟩,
   ⟨823, 3, [2, 3, 137]⟩, ⟨19, 2, [2, 3, 3]⟩, ⟨23, 5, [2, 11]⟩, ⟨47, 5, [2, 23]⟩,
   ⟨37, 2, [2, 2, 3, 3]⟩, ⟨223, 3, [2, 3, 37]⟩, ⟨20963, 2, [2, 47, 223]⟩, ⟨41927, 5, [2, 20963]⟩,
   ⟨1593227, 2, [2, 19, 41927]⟩, ⟨83, 2, [2, 41]⟩, ⟨379, 2, [2, 3, 3, 3, 7]⟩,
   ⟨409, 21, [2, 2, 2, 3, 17]⟩, ⟨1637, 2, [2, 2, 409]⟩, ⟨229, 6, [2, 2, 3, 19]⟩,
   ⟨71, 7, [2, 5, 7]⟩, ⟨853, 2, [2, 2, 3, 71]⟩, ⟨639533339, 2, [2, 229, 853, 1637]⟩,
   ⟨65865678001877903, 5, [2, 83, 379, 1637, 639533339]⟩,
   ⟨13818364434197438864469338081, 3, [2, 2, 2, 2, 2, 5, 823, 1593227, 65865678001877903]⟩,
   ⟨fieldModulus, 5,
    List.replicate 28 2 ++ [3, 3, 13, 29, 983, 11003, 237073, 405928799, 1670836401704629,
      13818364434197438864469338081]⟩]

/-- **The field modulus is prime.** -/
theorem prime_fieldModulus : Nat.Prime fieldModulus := by
  have hchain : chainTest [2] modulusChain = true := by decide +kernel
  have htwo : ∀ q ∈ [2], Nat.Prime q := by
    intro q hq
    rw [List.mem_singleton.mp hq]
    exact Nat.prime_two
  exact prime_of_chainTest htwo hchain (List.mem_of_getLast? rfl)

instance : Fact (Nat.Prime fieldModulus) := ⟨prime_fieldModulus⟩

end ProvableRecord
