import ProvableRecord.Hash.Poseidon
import ProvableRecord.Hash.Sha256
import ProvableRecord.Record.Error
import ProvableRecord.Record.Value

/-!
# Hashes of names and values

A text is hashed by SHA-256 without its last byte, so its hash has 248 bits and is a field element.
A number is hashed by Poseidon as the field element that it stands for, and a key by Poseidon of its
two coordinates.

`Value.leaf` is what goes into a tree and assumes a valid value; `Value.hash` checks.
-/

namespace ProvableRecord

/-- The hash of a byte string: the first 248 bits of its SHA-256 digest. -/
def byteDigest (bytes : List UInt8) : Nat := Sha256.digest bytes / 256

/-- The bytes of a text. -/
def textBytes (s : String) : List UInt8 := s.toUTF8.data.toList

/-- The hash of a text. -/
def textDigest (s : String) : Nat := byteDigest (textBytes s)

/-- The hash of a public key. -/
def PublicKey.hash (k : PublicKey) : Fp := Poseidon.hash2 k.point.x k.point.y

/-- The leaf of a name. -/
def nameLeaf (name : String) : Fp := .ofNat (textDigest name)

namespace Value

/-- The leaf of a value. -/
def leaf : Value → Fp
  | string s => .ofNat (textDigest s)
  | int n => Poseidon.hash1 (.ofInt n.toInt)
  | cryptographic n => Poseidon.hash1 (.ofNat n)
  | publicKey k => k.hash

end Value

/-- A number as a field element, or the error that it is none. -/
def requireElement (n : Nat) : Except RecordError Fp :=
  match Fp.ofNat? n with
  | some x => .ok x
  | none => .error (.primitive (.notFieldElement n))

/-- The hash of a number that must be a field element. -/
def elementHash (n : Nat) : Except RecordError Nat := do
  let x ← requireElement n
  return (Poseidon.hash1 x).val

/-- The hash of an integer. -/
def intHash (n : Int64) : Nat := (Poseidon.hash1 (.ofInt n.toInt)).val

/-- The hash of two numbers that must be field elements. -/
def nodeHash (left right : Nat) : Except RecordError Nat := do
  let l ← requireElement left
  let r ← requireElement right
  return (Poseidon.hash2 l r).val

/-- The hash of a value. -/
def Value.hash : Value → Except RecordError Nat
  | string s => .ok (textDigest s)
  | int n => .ok (intHash n)
  | cryptographic n => elementHash n
  | publicKey k => .ok k.hash.val

end ProvableRecord
