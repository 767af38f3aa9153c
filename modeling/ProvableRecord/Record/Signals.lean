import ProvableRecord.Merkle.ProofJson
import ProvableRecord.Record.Commitment

/-!
# Signals of an entry

What a circuit takes to check one entry: the proof, the hashes of the name and the value, and the
number itself when the value is numeric.
-/

namespace ProvableRecord

/-- The inputs of a circuit for one entry. -/
structure Signals where
  proof : Merkle.Proof
  nameHash : Nat
  valueHash : Nat
  value : Option Nat
deriving DecidableEq

namespace Signals

/-- Whether the proof is valid and leads from the name with the value as first sibling, and the
number, if there is one, has the hash of the value. -/
def isConsistent (s : Signals) : Bool :=
  s.proof.verify && s.proof.leaf == s.nameHash && s.proof.siblings.head? == some s.valueHash &&
    match s.value with
    | some n => (elementHash n).toOption == some s.valueHash
    | none => true

/-- The fields of signals that were read so far. -/
structure Parts where
  proof : Option Merkle.Proof := none
  nameHash : Option Nat := none
  valueHash : Option Nat := none
  value : Option (Option Nat) := none

/-- The signals, once all fields are there that must be. -/
def Parts.complete (p : Parts) : Option Signals := do
  return ⟨← p.proof, ← p.nameHash, ← p.valueHash, p.value.getD none⟩

/-- The fields of signals in order.  The value may be missing, and fields of other names are
skipped. -/
def schema : Schema NotDecimal Parts Signals where
  fields :=
    [⟨"proof", fun p => p.proof.isSome,
      Merkle.Proof.decoder.map fun v p => { p with proof := some v }⟩,
     ⟨"nameHash", fun p => p.nameHash.isSome,
      Decimal.decoder.map fun n p => { p with nameHash := some n }⟩,
     ⟨"valueHash", fun p => p.valueHash.isSome,
      Decimal.decoder.map fun n p => { p with valueHash := some n }⟩,
     ⟨"value", fun p => p.value.isSome,
      Decimal.optionalDecoder.map fun n p => { p with value := some n }⟩]
  start := {}
  complete := Parts.complete
  closed := false

/-- The decoder of signals. -/
def decoder : Decoder NotDecimal Signals := schema.decoder

/-- Signals as a JSON value; a missing value is left out. -/
def toJson (s : Signals) : Json :=
  .ofMembers <|
    [("proof", s.proof.toJson), ("nameHash", Decimal.toJson s.nameHash),
     ("valueHash", Decimal.toJson s.valueHash)] ++
      (s.value.map fun n => ("value", Decimal.toJson n)).toList

/-- Signals as they are written field by field, with all members in the order of the fields. -/
def fieldJson (s : Signals) : Json :=
  .object <|
    [("proof", s.proof.fieldJson), ("nameHash", Decimal.toJson s.nameHash),
     ("valueHash", Decimal.toJson s.valueHash)] ++
      (s.value.map fun n => ("value", Decimal.toJson n)).toList

/-- The compact JSON text of signals. -/
def toText (s : Signals) : String := s.fieldJson.text

end Signals

/-- The signals of an entry of a record. -/
def Record.signals (r : Record) (name : String) : Except RecordError Signals := do
  let proof ← r.prove name
  match proof.siblings with
  | [] => throw (.noValueSibling name)
  | valueHash :: _ =>
    return ⟨proof, proof.leaf, valueHash, r.get? name >>= Value.circuitSignal⟩

end ProvableRecord
