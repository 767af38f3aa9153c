import ProvableRecord.Field

/-!
# The Grain generator

An 80-bit linear feedback register from which the constants of the Poseidon permutation are drawn.
The register is seeded with the parameters of the permutation and run for 160 steps; after that its
output bits are taken in pairs, and the second of a pair is used when the first is set.
-/

namespace ProvableRecord.Poseidon.Grain

/-- The register: the oldest sixteen bits and the newest sixty-four, oldest first. -/
structure Register where
  old : UInt64
  new : UInt64

/-- The bit that enters next: the sum of six taps. -/
def Register.feedback (r : Register) : UInt64 :=
  ((r.new >>> 17) ^^^ (r.new >>> 28) ^^^ (r.new >>> 41) ^^^ (r.new >>> 56) ^^^
    (r.old >>> 2) ^^^ (r.old >>> 15)) &&& 1

/-- Drops the oldest bit and appends the feedback. -/
def Register.step (r : Register) : Register :=
  ⟨((r.old <<< 1) ||| (r.new >>> 63)) &&& 0xffff, (r.new <<< 1) ||| r.feedback⟩

/-- Runs the register for a number of steps. -/
def Register.run : (steps : Nat) → Register → Register
  | 0, r => r
  | steps + 1, r => Register.run steps r.step

/-- A register whose bits are those of `n`, highest first. -/
def Register.ofNat (n : Nat) : Register := ⟨UInt64.ofNat (n >>> 64), UInt64.ofNat n⟩

/-- Appends the low `count` bits of `value` to the bits of `n`. -/
def appendBits (n count value : Nat) : Nat := (n <<< count) + value

/-- The register for a permutation over a prime field of 254 bits with the given width and numbers
of rounds, past its first 160 bits. -/
def seed (width fullRounds partialRounds : Nat) : Register :=
  let n := appendBits 0 2 1
  let n := appendBits n 4 0
  let n := appendBits n 12 254
  let n := appendBits n 12 width
  let n := appendBits n 10 fullRounds
  let n := appendBits n 10 partialRounds
  let n := appendBits n 30 0x3fffffff
  (Register.ofNat n).run 160

/-- Appends `count` drawn bits to the binary digits of `value`.  At most `pairs` pairs are looked
at. -/
def drawBits : (pairs count : Nat) → (value : Nat) → Register → Nat × Register
  | 0, _, value, r => (value, r)
  | _, 0, value, r => (value, r)
  | pairs + 1, count + 1, value, r =>
    let first := r.feedback
    let r := r.step
    let second := r.feedback
    let r := r.step
    if first = 1 then drawBits pairs count (2 * value + second.toNat) r
    else drawBits pairs (count + 1) value r

/-- Draws a number of 254 bits, highest first.  Half of all pairs yield a bit, and 64 pairs are
allowed for each. -/
def drawNumber (r : Register) : Nat × Register := drawBits (64 * 254) 254 0 r

/-- Draws `count` field elements; a number that is not below the modulus is drawn again, at most
`tries` numbers in all. -/
def drawElements : (tries count : Nat) → Register → List Fp × Register
  | 0, _, r => ([], r)
  | _, 0, r => ([], r)
  | tries + 1, count + 1, r =>
    let (n, r) := drawNumber r
    match Fp.ofNat? n with
    | some x =>
      let (xs, r) := drawElements tries count r
      (x :: xs, r)
    | none => drawElements tries (count + 1) r

/-- Draws `count` field elements, each the residue of one number. -/
def drawResidues : (count : Nat) → Register → List Fp × Register
  | 0, r => ([], r)
  | count + 1, r =>
    let (n, r) := drawNumber r
    let (xs, r) := drawResidues count r
    (Fp.ofNat n :: xs, r)

end ProvableRecord.Poseidon.Grain
