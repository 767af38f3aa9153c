import ProvableRecord.Json.Number.Binary64
import ProvableRecord.Text.Decimal

/-!
# The shortest decimal of a double

The text of a double has the fewest digits that read back as that double, and of those decimals the
nearest.  For each number of digits the two neighbours of the value on the decimal grid are tried
against the interval of numbers that round to it.

The text is positional, with at least one digit after the point, while the leading digit stands
between `10 ^ -5` and `10 ^ 15`; outside that range it is scientific with a signed exponent.
-/

namespace ProvableRecord

namespace Magnitude

/-- The decimal `digits * 10 ^ exponent`. -/
structure Scaled where
  digits : Nat
  exponent : Int
deriving DecidableEq

/-- Twice the numerator of the lower end, of the value and of the upper end of the interval that
rounds to a magnitude, over the common denominator. -/
structure Interval where
  low : Nat
  value : Nat
  high : Nat
  den : Nat
  /-- Whether the ends round to the magnitude too. -/
  closed : Bool

/-- The interval that rounds to a magnitude other than zero.  Below a power of two the spacing is
half as wide. -/
def interval (m : Magnitude) : Interval :=
  let (num, den) := m.toQuotient
  let (unitNum, unitDen) := (Magnitude.mk 1 m.exponent).toQuotient
  let scale := 4 * unitDen
  let value := num * scale
  let unit := unitNum * 4 * den
  let narrow := m.significand = 1 <<< (precision - 1) ∧ m.exponent ≠ minExponent
  let down := if narrow then unit / 4 else unit / 2
  ⟨value - down, value, value + unit / 2, den * scale, m.significand % 2 = 0⟩

/-- Whether `digits * 10 ^ e` lies in the interval. -/
def Interval.contains (r : Interval) (digits : Nat) (e : Int) : Bool :=
  let (n, d) := if 0 ≤ e then (digits * Nat.pow 10 e.toNat * r.den, 1)
    else (digits * r.den, Nat.pow 10 (-e).toNat)
  if r.closed then r.low * d ≤ n && n ≤ r.high * d else r.low * d < n && n < r.high * d

/-- The whole part of `num / den / 10 ^ e`, and twice the rest compared with the unit. -/
def gridFloor (num den : Nat) (e : Int) : Nat × Ordering :=
  let (n, d) := if 0 ≤ e then (num, den * Nat.pow 10 e.toNat)
    else (num * Nat.pow 10 (-e).toNat, den)
  (n / d, compare (2 * (n % d)) d)

/-- The exponent of the leading decimal digit of a fraction that is not zero.  `fuel` bounds the
number of places by which it is below one. -/
def leadingExponent : (fuel : Nat) → (num den : Nat) → Int
  | 0, _, _ => 0
  | fuel + 1, num, den =>
    if num < den then leadingExponent fuel (num * 10) den - 1
    else (Decimal.digits (num / den)).length - 1

/-- The decimal of the interval with the fewest digits, from `count` digits on. -/
def searchDigits (r : Interval) (lead : Int) : (tries count : Nat) → Scaled
  | 0, _ => ⟨0, 0⟩
  | tries + 1, count =>
    let e := lead - (count - 1 : Nat)
    let (below, half) := gridFloor r.value r.den e
    let low := r.contains below e
    let high := r.contains (below + 1) e
    if low && high then
      let up := half == .gt || (half == .eq && below % 2 == 1)
      ⟨if up then below + 1 else below, e⟩
    else if low then ⟨below, e⟩
    else if high then ⟨below + 1, e⟩
    else searchDigits r lead tries (count + 1)

/-- The shortest decimal that rounds to a magnitude. -/
def shortest (m : Magnitude) : Scaled :=
  if m.significand = 0 then ⟨0, 0⟩
  else
    let r := m.interval
    searchDigits r (leadingExponent 400 r.value r.den) 18 1

end Magnitude

/-- Drops zeros from the end of a row of digits. -/
def dropZeroEnd (cs : List Char) : List Char := (cs.reverse.dropWhile (· = '0')).reverse

/-- The text of a row of digits whose first has weight `10 ^ lead`. -/
def placeDigits (cs : List Char) (lead : Int) : List Char :=
  if 0 ≤ lead ∧ lead < 16 then
    let whole := lead.toNat + 1
    let front := cs.take whole ++ List.replicate (whole - cs.length) '0'
    let back := cs.drop whole
    front ++ '.' :: (if back.isEmpty then ['0'] else back)
  else if -5 ≤ lead ∧ lead < 0 then
    '0' :: '.' :: List.replicate ((-lead).toNat - 1) '0' ++ cs
  else
    let point := if cs.length ≤ 1 then cs else cs.take 1 ++ '.' :: cs.drop 1
    let sign := if lead < 0 then '-' else '+'
    point ++ 'e' :: sign :: Decimal.digits lead.natAbs

/-- The text of a double. -/
def Binary64.text (x : Binary64) : String :=
  let d := x.magnitude.shortest
  let cs := Decimal.digits d.digits
  let lead := d.exponent + (cs.length - 1 : Nat)
  let body := if d.digits = 0 then ['0', '.', '0'] else placeDigits (dropZeroEnd cs) lead
  String.ofList (if x.negative then '-' :: body else body)

end ProvableRecord
