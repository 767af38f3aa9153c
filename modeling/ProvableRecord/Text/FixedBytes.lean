import ProvableRecord.Bytes
import ProvableRecord.PrimitiveError
import ProvableRecord.Text.Hex

/-!
# Texts of byte strings of a known length

Keys and signatures are written in Base64 without padding.  They are read from that form, with up to
two padding characters, or from hexadecimal: a text of exactly two hexadecimal digits for each byte
expected is hexadecimal, although its digits are Base64 symbols too.
-/

namespace ProvableRecord

/-- Whether a row of characters is Base64 symbols followed by at most two padding characters. -/
def Base64.isPadded (cs : List Char) : Bool :=
  let symbols := cs.takeWhile Base64.isSymbol
  let padding := cs.dropWhile Base64.isSymbol
  padding.length ≤ 2 && padding.all (· = '=') && !(symbols.isEmpty && padding.isEmpty)

namespace Bytes

/-- The bytes that a text denotes when `n` of them are expected. -/
def decodeText (n : Nat) (text thing : String) : Except PrimitiveError (List UInt8) :=
  let cs := text.toList
  let hex := if cs.length = 2 * n then Hex.decode? cs else none
  match hex with
  | some bytes => .ok bytes
  | none =>
    if Base64.isPadded cs then
      (Base64.decode (cs.takeWhile Base64.isSymbol)).mapError fun fault =>
        .encoding thing (.base64 fault)
    else .error (.encoding thing .neitherForm)

/-- Reads the text of `n` bytes; `thing` names in errors what is read. -/
def ofText (n : Nat) (text thing : String) : Except PrimitiveError (Bytes n) := do
  let bytes ← decodeText n text thing
  match ofList? n bytes with
  | some b => return b
  | none => throw (.length thing n bytes.length)

/-- The Base64 text of the bytes. -/
def toText {n : Nat} (b : Bytes n) : String := Base64.encode b.toList

end Bytes

end ProvableRecord
