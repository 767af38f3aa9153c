/-!
# Finite binary floating-point numbers

A magnitude with a 53-bit significand, `significand * 2 ^ exponent`, and the exact arithmetic that
rounds to it: `ofQuotient` gives the nearest magnitude to a fraction, with a tie going to the even
significand.  Products and quotients are rounded fractions.  A result that is too large is `none`.
-/

namespace ProvableRecord

/-- A non-negative finite double: `significand * 2 ^ exponent`. -/
structure Magnitude where
  significand : Nat
  exponent : Int
deriving DecidableEq

namespace Magnitude

/-- The least exponent of a double. -/
def minExponent : Int := -1074

/-- The greatest exponent of a double. -/
def maxExponent : Int := 971

/-- The number of bits of a significand. -/
def precision : Nat := 53

def zero : Magnitude := ⟨0, minExponent⟩

/-- The natural number nearest to `num / den`; of two, the even one. -/
def roundQuotient (num den : Nat) : Nat :=
  let q := num / den
  let twice := 2 * (num % den)
  if den < twice ∨ (twice = den ∧ q % 2 = 1) then q + 1 else q

/-- The fraction `num / den` divided by `2 ^ e`, rounded to a natural number. -/
def roundAt (num den : Nat) (e : Int) : Nat :=
  if 0 ≤ e then roundQuotient num (den <<< e.toNat)
  else roundQuotient (num <<< (-e).toNat) den

/-- Whether `num / den` is below `2 ^ k`. -/
def belowPower (num den : Nat) (k : Int) : Bool :=
  if 0 ≤ k then num < den <<< k.toNat else num <<< (-k).toNat < den

/-- The exponent at which the significand of `num / den` has its full precision, or the least
exponent if that is greater. -/
def exponentFor (num den : Nat) : Int :=
  let k : Int := (Nat.log2 num : Int) - Nat.log2 den
  let top := if belowPower num den k then k - 1 else k
  max minExponent (top - (precision - 1))

/-- The nearest magnitude to a fraction; `none` if it is too large. -/
def ofQuotient (num den : Nat) : Option Magnitude :=
  if num = 0 then some zero
  else
    let e := exponentFor num den
    let s := roundAt num den e
    let (s, e) := if s = 1 <<< precision then (1 <<< (precision - 1), e + 1) else (s, e)
    if maxExponent < e then none else some ⟨s, e⟩

/-- The nearest magnitude to a natural number. -/
def ofNat (n : Nat) : Option Magnitude := ofQuotient n 1

/-- The numerator and denominator of a magnitude. -/
def toQuotient (m : Magnitude) : Nat × Nat :=
  if 0 ≤ m.exponent then (m.significand <<< m.exponent.toNat, 1)
  else (m.significand, 1 <<< (-m.exponent).toNat)

/-- The rounded product. -/
def mul (a b : Magnitude) : Option Magnitude :=
  let (an, ad) := a.toQuotient
  let (bn, bd) := b.toQuotient
  ofQuotient (an * bn) (ad * bd)

/-- The rounded quotient by a magnitude that is not zero. -/
def div (a b : Magnitude) : Option Magnitude :=
  let (an, ad) := a.toQuotient
  let (bn, bd) := b.toQuotient
  ofQuotient (an * bd) (ad * bn)

end Magnitude

/-- A finite double: a sign and a magnitude. -/
structure Binary64 where
  negative : Bool
  magnitude : Magnitude
deriving DecidableEq

end ProvableRecord
