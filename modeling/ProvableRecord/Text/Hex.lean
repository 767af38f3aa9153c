import ProvableRecord.Text.Quoted

/-!
# Hexadecimal text

Two digits for each byte.  Writing uses lowercase letters; reading takes either case.
-/

namespace ProvableRecord.Hex

/-- The value of a hexadecimal digit in either case. -/
def digitValue? (c : Char) : Option Nat :=
  if '0' ≤ c ∧ c ≤ '9' then some (c.toNat - 48)
  else if 'a' ≤ c ∧ c ≤ 'f' then some (c.toNat - 87)
  else if 'A' ≤ c ∧ c ≤ 'F' then some (c.toNat - 55)
  else none

/-- Whether a character is a hexadecimal digit. -/
def isDigit (c : Char) : Bool := (digitValue? c).isSome

/-- The two digits of a byte. -/
def encodeByte (b : UInt8) : List Char :=
  [Text.Quoted.hexDigit (b.toNat / 16), Text.Quoted.hexDigit (b.toNat % 16)]

/-- The digits of a row of bytes. -/
def encode (bs : List UInt8) : String := String.ofList (bs.flatMap encodeByte)

/-- The bytes that pairs of digits denote; `none` for anything else or an odd digit. -/
def decode? : List Char → Option (List UInt8)
  | [] => some []
  | [_] => none
  | a :: b :: rest => do
    let high ← digitValue? a
    let low ← digitValue? b
    let bytes ← decode? rest
    return UInt8.ofNat (16 * high + low) :: bytes

end ProvableRecord.Hex
