import ProvableRecord.Signature.Key
import ProvableRecord.Json.Value

/-!
# Entry values

A value is a text, an integer of 64 bits, a field element or a public key.  A field element is held
as the number that was given; `Value.IsValid` says that it is below the field modulus.
-/

namespace ProvableRecord

/-- The type of a value. -/
inductive ValueType where
  | string
  | int
  | cryptographic
  | publicKey
deriving DecidableEq

/-- The tag that stands for a type. -/
def ValueType.tag : ValueType → String
  | .string => "string"
  | .int => "int"
  | .cryptographic => "cryptographic"
  | .publicKey => "eddsa_pubkey"

/-- The type that a tag stands for. -/
def ValueType.ofTag? (tag : String) : Option ValueType :=
  [string, int, cryptographic, publicKey].find? fun t => t.tag = tag

/-- The value of an entry. -/
inductive Value where
  | string (s : String)
  | int (n : Int64)
  | cryptographic (n : Nat)
  | publicKey (k : PublicKey)
deriving DecidableEq

namespace Value

/-- The type of a value. -/
def type : Value → ValueType
  | string _ => .string
  | int _ => .int
  | cryptographic _ => .cryptographic
  | publicKey _ => .publicKey

/-- Whether a value may stand in a record: a cryptographic value must be a field element. -/
def IsValid : Value → Prop
  | cryptographic n => n < fieldModulus
  | _ => True

instance : DecidablePred IsValid
  | string _ => inferInstanceAs (Decidable True)
  | int _ => inferInstanceAs (Decidable True)
  | cryptographic n => inferInstanceAs (Decidable (n < fieldModulus))
  | publicKey _ => inferInstanceAs (Decidable True)

/-- The value as plain text. -/
def rawText : Value → String
  | string s => s
  | int n => Decimal.ofInt n.toInt
  | cryptographic n => Decimal.ofNat n
  | publicKey k => k.toText

/-- The value as shown to a reader: a text is quoted. -/
def display : Value → String
  | string s => quoted s
  | v => v.rawText

/-- The number that a circuit takes for a numeric value. -/
def circuitSignal : Value → Option Nat
  | int n => some (Fp.ofInt n.toInt).val
  | cryptographic n => some n
  | _ => none

/-- A value as a JSON object of its type and its plain text. -/
def toJson (v : Value) : Json :=
  .ofMembers [("type", .string v.type.tag), ("value", .string v.rawText)]

end Value

end ProvableRecord
