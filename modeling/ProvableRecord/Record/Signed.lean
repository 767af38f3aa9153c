import ProvableRecord.Json.Decoder
import ProvableRecord.Record.Commitment
import ProvableRecord.Record.Entries
import ProvableRecord.Signature.Scheme

/-!
# Signed records

A signed record is a record with a signature on its content id and the key of the signer.  It may be
put together from any three parts, and whether the signature is valid is a question asked later.
-/

namespace ProvableRecord

/-- A record with a signature and the key of its signer. -/
structure SignedRecord where
  record : Record
  signature : Signature
  signer : PublicKey
deriving DecidableEq

/-- Signs a root and gives the key that belongs to the signature. -/
def signRoot (root : Nat) (key : PrivateKey) : Except RecordError (Signature × PublicKey) := do
  let signature ← (key.sign root).mapError .cannotSign
  return (signature, key.publicKey)

/-- Whether a signature on a root is valid, for a signature and a key given as texts. -/
def verifyRootText (root : Nat) (signature key : String) : Except RecordError Bool := do
  let signature ← (Signature.ofText signature).mapError .primitive
  let key ← (PublicKey.ofText key).mapError .primitive
  return verify root signature key

namespace SignedRecord

/-- Signs a record. -/
def sign (r : Record) (key : PrivateKey) : Except RecordError SignedRecord := do
  let (signature, signer) ← signRoot r.contentId key
  return ⟨r, signature, signer⟩

/-- Whether the signature is valid for the record. -/
def isValid (s : SignedRecord) : Bool := verify s.record.contentId s.signature s.signer

/-- The fields of a signed record before they are understood. -/
structure Parts where
  entries : Option Json := none
  signature : Option String := none
  signer : Option String := none

/-- The fields, once all are there. -/
def Parts.complete (p : Parts) : Option (Json × String × String) := do
  return (← p.entries, ← p.signature, ← p.signer)

/-- The fields of a signed record in order.  Fields of other names are refused. -/
def schema : Schema Empty Parts (Json × String × String) where
  fields :=
    [⟨"entries", fun p => p.entries.isSome,
      (Decoder.value 1).map fun v p => { p with entries := some v }⟩,
     ⟨"signature", fun p => p.signature.isSome,
      Decoder.text.map fun s p => { p with signature := some s }⟩,
     ⟨"signerPublicKey", fun p => p.signer.isSome,
      Decoder.text.map fun s p => { p with signer := some s }⟩]
  start := {}
  complete := Parts.complete
  closed := true

/-- Reads a signed record.  The shape is checked first, then the entries, the signature and the
key. -/
def ofText (text : String) : Except RecordError SignedRecord := do
  let (entries, signature, signer) ←
    (schema.decoder.readText text).mapError fun _ => .notSignedRecord
  let record ← Record.ofJson entries
  let signature ← (Signature.ofText signature).mapError .primitive
  let signer ← (PublicKey.ofText signer).mapError .primitive
  return ⟨record, signature, signer⟩

/-- A signed record as a JSON value. -/
def toJson (s : SignedRecord) : Json :=
  .ofMembers
    [("entries", s.record.toJson), ("signature", .string s.signature.toText),
     ("signerPublicKey", .string s.signer.toText)]

/-- The compact JSON text of a signed record. -/
def toText (s : SignedRecord) : String := s.toJson.text

end SignedRecord

end ProvableRecord
