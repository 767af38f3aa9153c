/-!
# Base64 text

Three bytes are written as four symbols of six bits, without padding at the end: one byte left over
takes two symbols and two bytes take three.  Reading is strict: a lone last symbol and a last symbol
whose spare bits are not zero are refused, so each row of bytes has one text.
-/

namespace ProvableRecord.Base64

/-- The symbol of a six-bit number. -/
def symbol (n : Nat) : Char :=
  if n < 26 then Char.ofNat (65 + n)
  else if n < 52 then Char.ofNat (71 + n)
  else if n < 62 then Char.ofNat (n - 4)
  else if n = 62 then '+'
  else '/'

/-- The six-bit number of a symbol. -/
def value? (c : Char) : Option Nat :=
  if 'A' ≤ c ∧ c ≤ 'Z' then some (c.toNat - 65)
  else if 'a' ≤ c ∧ c ≤ 'z' then some (c.toNat - 71)
  else if '0' ≤ c ∧ c ≤ '9' then some (c.toNat + 4)
  else if c = '+' then some 62
  else if c = '/' then some 63
  else none

/-- Whether a character is one of the 64 symbols. -/
def isSymbol (c : Char) : Bool := (value? c).isSome

/-- The symbols of a row of bytes. -/
def encodeBytes : List UInt8 → List Char
  | [] => []
  | [a] => [symbol (a.toNat / 4), symbol (a.toNat % 4 * 16)]
  | [a, b] =>
    [symbol (a.toNat / 4), symbol (a.toNat % 4 * 16 + b.toNat / 16), symbol (b.toNat % 16 * 4)]
  | a :: b :: c :: rest =>
    symbol (a.toNat / 4) :: symbol (a.toNat % 4 * 16 + b.toNat / 16) ::
      symbol (b.toNat % 16 * 4 + c.toNat / 64) :: symbol (c.toNat % 64) :: encodeBytes rest

/-- The text of a row of bytes. -/
def encode (bs : List UInt8) : String := String.ofList (encodeBytes bs)

/-- Why a row of symbols denotes no bytes. -/
inductive Fault where
  /-- One symbol is left over after the whole groups; the length of the row is given. -/
  | loneSymbol (length : Nat)
  /-- The last symbol, given with its position, has spare bits that are not zero. -/
  | spareBits (last : Char) (position : Nat)
deriving DecidableEq

/-- The bytes of a row of six-bit numbers, or `none` if the last group is not a whole number of
bytes followed by zero bits. -/
def groupBytes : List Nat → Option (List UInt8)
  | [] => some []
  | [_] => none
  | [p, q] => if q % 16 = 0 then some [UInt8.ofNat (p * 4 + q / 16)] else none
  | [p, q, r] =>
    if r % 4 = 0 then
      some [UInt8.ofNat (p * 4 + q / 16), UInt8.ofNat (q % 16 * 16 + r / 4)]
    else none
  | p :: q :: r :: s :: rest =>
    (groupBytes rest).map fun bytes =>
      UInt8.ofNat (p * 4 + q / 16) :: UInt8.ofNat (q % 16 * 16 + r / 4) ::
        UInt8.ofNat (r % 4 * 64 + s) :: bytes

/-- The bytes of a row of symbols. -/
def decode (cs : List Char) : Except Fault (List UInt8) :=
  if cs.length % 4 = 1 then .error (.loneSymbol cs.length)
  else match groupBytes (cs.map fun c => (value? c).getD 0) with
    | some bytes => .ok bytes
    | none => .error (.spareBits (cs.getLastD 'A') (cs.length - 1))

end ProvableRecord.Base64
