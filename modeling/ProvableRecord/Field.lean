import ProvableRecord.Doubling

/-!
# The scalar field

All hashes, leaves and coordinates live in the prime field of `fieldModulus` elements, the scalar
field of the BN254 pairing curve.  An element is a natural number below the modulus, so equality of
elements is equality of numbers, and every operation reduces its result.

`Fp.ofNat` reduces any number, `Fp.ofNat?` accepts only a number that is already reduced, and
`Fp.ofInt` places a signed number on the residue it stands for.
-/

namespace ProvableRecord

/-- The number of elements of the scalar field, a prime. -/
def fieldModulus : Nat :=
  21888242871839275222246405745257275088548364400416034343698204186575808495617

theorem fieldModulus_pos : 0 < fieldModulus := by decide

/-- An element of the scalar field, held as its least representative. -/
structure Fp where
  /-- The least natural number of the residue class. -/
  val : Nat
  val_lt : val < fieldModulus
deriving DecidableEq

namespace Fp

@[ext]
theorem ext {a b : Fp} (h : a.val = b.val) : a = b := by
  cases a; cases b; cases h; rfl

/-- The residue of a natural number. -/
def ofNat (n : Nat) : Fp := ⟨n % fieldModulus, Nat.mod_lt _ fieldModulus_pos⟩

/-- A natural number as a field element, if it is one already. -/
def ofNat? (n : Nat) : Option Fp :=
  if h : n < fieldModulus then some ⟨n, h⟩ else none

/-- The residue of an integer: a negative number counts down from the modulus. -/
def ofInt (n : Int) : Fp := ofNat (n % (fieldModulus : Int)).toNat

instance (n : Nat) : OfNat Fp n := ⟨ofNat n⟩

instance : Inhabited Fp := ⟨0⟩

instance : Add Fp := ⟨fun a b => ofNat (a.val + b.val)⟩

instance : Neg Fp := ⟨fun a => ofNat (fieldModulus - a.val)⟩

instance : Sub Fp := ⟨fun a b => ofNat (a.val + (fieldModulus - b.val))⟩

instance : Mul Fp := ⟨fun a b => ofNat (a.val * b.val)⟩

/-- The `n`-th power. -/
def pow (a : Fp) (n : Nat) : Fp := doubling (· * ·) 1 a n

instance : HPow Fp Nat Fp := ⟨pow⟩

/-- The multiplicative inverse as a power, by Fermat's little theorem; the inverse of zero is
zero. -/
def inv (a : Fp) : Fp := a ^ (fieldModulus - 2)

/-- The sum of products of two rows, reduced once at the end. -/
def dot (xs ys : List Fp) : Fp :=
  ofNat ((List.zipWith (fun x y => x.val * y.val) xs ys).foldl (· + ·) 0)

/-- Whether the element lies above the middle of the field.  Of two opposite non-zero elements
exactly one does, which makes this their sign. -/
def isUpper (a : Fp) : Bool := (fieldModulus - 1) / 2 < a.val

@[simp]
theorem val_ofNat (n : Nat) : (ofNat n).val = n % fieldModulus := rfl

theorem ofNat_val (a : Fp) : ofNat a.val = a := Fp.ext (Nat.mod_eq_of_lt a.val_lt)

theorem ofNat?_eq_some_iff {n : Nat} {a : Fp} : ofNat? n = some a ↔ a.val = n := by
  unfold ofNat?
  split
  · constructor
    · rintro ⟨⟩; rfl
    · rintro rfl; rfl
  · constructor
    · rintro ⟨⟩
    · rintro rfl; exact absurd a.val_lt ‹_›

end Fp

end ProvableRecord
