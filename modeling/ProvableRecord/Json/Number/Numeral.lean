import ProvableRecord.Json.Value
import ProvableRecord.Text.Decimal

/-!
# JSON numerals

The written form of a number: an optional minus sign, a whole part without superfluous zeros, an
optional fraction and an optional exponent.  A numeral that is an integer of at most 64 bits denotes
it exactly; every other numeral, minus zero included, denotes a double.

The double is computed from the leading digits that fit 64 bits and one multiplication or division
by a rounded power of ten, so it may differ from the nearest double in its last place.
-/

namespace ProvableRecord

/-- The parts of a numeral. -/
structure Numeral where
  negative : Bool
  whole : List Char
  fraction : Option (List Char)
  /-- The sign of the exponent, set when it is negative, and its digits. -/
  exponent : Option (Bool × List Char)

namespace Numeral

/-- Reads the whole part: a zero alone or digits that do not start with zero. -/
def scanWhole (s : List Char) : Option (List Char × List Char) :=
  match s.takeWhile Char.isDigit with
  | [] => none
  | ['0'] => some (['0'], s.drop 1)
  | '0' :: _ => none
  | ds => some (ds, s.dropWhile Char.isDigit)

/-- Reads one or more digits. -/
def scanDigits (s : List Char) : Option (List Char × List Char) :=
  match s.takeWhile Char.isDigit with
  | [] => none
  | ds => some (ds, s.dropWhile Char.isDigit)

/-- Reads a fraction, if one starts here. -/
def scanFraction : List Char → Option (Option (List Char) × List Char)
  | '.' :: s => (scanDigits s).map fun r => (some r.1, r.2)
  | s => some (none, s)

/-- Reads the sign of an exponent, set when it is negative. -/
def scanSign : List Char → Bool × List Char
  | '+' :: s => (false, s)
  | '-' :: s => (true, s)
  | s => (false, s)

/-- Reads an exponent, if one starts here. -/
def scanExponent : List Char → Option (Option (Bool × List Char) × List Char)
  | c :: s =>
    if c = 'e' ∨ c = 'E' then
      let (negative, s) := scanSign s
      (scanDigits s).map fun r => (some (negative, r.1), r.2)
    else some (none, c :: s)
  | [] => some (none, [])

/-- Reads a numeral and returns what follows it. -/
def scan (s : List Char) : Option (Numeral × List Char) := do
  let (negative, s) := match s with
    | '-' :: s => (true, s)
    | s => (false, s)
  let (whole, s) ← scanWhole s
  let (fraction, s) ← scanFraction s
  let (exponent, s) ← scanExponent s
  return (⟨negative, whole, fraction, exponent⟩, s)

/-- Appends digits to a number as long as it fits 64 bits, and returns the digits left over. -/
def appendDigits : Nat → List Char → Nat × List Char
  | n, [] => (n, [])
  | n, c :: cs =>
    if 10 * n + Decimal.digitValue c < 0x10000000000000000 then
      appendDigits (10 * n + Decimal.digitValue c) cs
    else (n, c :: cs)

/-- The double nearest to `10 ^ k`, for `k` at most 308. -/
def powerOfTen (k : Nat) : Magnitude := (Magnitude.ofNat (Nat.pow 10 k)).getD .zero

/-- A magnitude times a power of ten; `none` if the result is too large.  Exponents below `-308` are
taken in several divisions, at most `fuel`. -/
def scaleByTen : (fuel : Nat) → Magnitude → (e : Int) → Option Magnitude
  | 0, m, _ => some m
  | fuel + 1, m, e =>
    if e.natAbs ≤ 308 then
      if 0 ≤ e then m.mul (powerOfTen e.natAbs) else m.div (powerOfTen e.natAbs)
    else if m.significand = 0 then some m
    else if 0 ≤ e then none
    else do
      let m ← m.div (powerOfTen 308)
      scaleByTen fuel m (e + 308)

/-- The magnitude of a numeral; `none` if it is too large. -/
def magnitude? (n : Numeral) : Option Magnitude :=
  let (significand, dropped) := appendDigits 0 n.whole
  let fraction := n.fraction.getD []
  let (significand, unread) := appendDigits significand fraction
  let start : Int := dropped.length - (fraction.length - unread.length : Nat)
  let (negative, ds) := n.exponent.getD (false, [])
  let e := Decimal.value ds
  if 0x80000000 ≤ e then
    if significand ≠ 0 ∧ !negative then none else some .zero
  else do
    let m ← Magnitude.ofNat significand
    scaleByTen 4 m (if negative then start - e else start + e)

/-- The integer that a numeral denotes exactly, if it is one of at most 64 bits. -/
def integer? (n : Numeral) : Option JsonNumber :=
  match n.fraction, n.exponent with
  | none, none =>
    let v : Int := if n.negative then -(Decimal.value n.whole : Int) else Decimal.value n.whole
    if h : -9223372036854775808 ≤ v ∧ v < 18446744073709551616 then
      if n.negative ∧ v = 0 then none else some (.integer v h)
    else none
  | _, _ => none

/-- The number that a numeral denotes; `none` if it is too large. -/
def value? (n : Numeral) : Option JsonNumber :=
  match n.integer? with
  | some i => some i
  | none => n.magnitude?.map fun m => .double ⟨n.negative, m⟩

end Numeral

end ProvableRecord
