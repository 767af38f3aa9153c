import ProvableRecord.Json.Decoder
import ProvableRecord.Json.Printer
import ProvableRecord.Merkle.Proof

/-!
# Membership proofs as JSON

A proof is an object of its four fields.  Its numbers may be too large for a JSON number, so all are
decimal texts but for the index, which is a word of 64 bits.  Written field by field, the members
stand in the order of the fields, and as a JSON value in order of key.
-/

namespace ProvableRecord

/-- A text that is not a decimal numeral. -/
structure NotDecimal where
  text : String
deriving DecidableEq

/-- The wording of a refused decimal. -/
def NotDecimal.message (e : NotDecimal) : String := "invalid decimal integer " ++ quoted e.text

namespace Decimal

/-- Reads a decimal numeral or says what is none. -/
def parse (text : String) : Except NotDecimal Nat :=
  match parse? text with
  | some n => .ok n
  | none => .error ⟨text⟩

/-- A decimal numeral as a JSON string. -/
def decoder : Decoder NotDecimal Nat := Decoder.text.refine parse

/-- Null or a decimal numeral as a JSON string. -/
def optionalDecoder : Decoder NotDecimal (Option Nat) :=
  Decoder.text.optional.refine fun text? =>
    match text? with
    | some text => (parse text).map some
    | none => .ok none

/-- An array of decimal numerals.  All items must be strings before any is read as a number. -/
def listDecoder : Decoder NotDecimal (List Nat) :=
  Decoder.text.list.refine fun texts => texts.mapM parse

/-- The JSON string of a decimal numeral. -/
def toJson (n : Nat) : Json := .string (ofNat n)

end Decimal

namespace Merkle.Proof

/-- The fields of a proof that were read so far. -/
structure Parts where
  root : Option Nat := none
  leaf : Option Nat := none
  index : Option Nat := none
  siblings : Option (List Nat) := none

/-- The proof, once all its fields are there. -/
def Parts.complete (p : Parts) : Option Proof := do
  return ⟨← p.root, ← p.leaf, ← p.index, ← p.siblings⟩

/-- The fields of a proof in order.  Fields of other names are skipped. -/
def schema : Schema NotDecimal Parts Proof where
  fields :=
    [⟨"root", fun p => p.root.isSome, Decimal.decoder.map fun n p => { p with root := some n }⟩,
     ⟨"leaf", fun p => p.leaf.isSome, Decimal.decoder.map fun n p => { p with leaf := some n }⟩,
     ⟨"index", fun p => p.index.isSome,
      Decoder.word.map fun w p => { p with index := some w.toNat }⟩,
     ⟨"siblings", fun p => p.siblings.isSome,
      Decimal.listDecoder.map fun ns p => { p with siblings := some ns }⟩]
  start := {}
  complete := Parts.complete
  closed := false

/-- The decoder of a proof. -/
def decoder : Decoder NotDecimal Proof := schema.decoder

/-- A proof as a JSON value. -/
def toJson (p : Proof) : Json :=
  .ofMembers
    [("root", Decimal.toJson p.root), ("leaf", Decimal.toJson p.leaf),
     ("index", .ofUInt64 (.ofNat p.index)), ("siblings", .array (p.siblings.map Decimal.toJson))]

/-- A proof as it is written field by field, with its members in the order of the fields. -/
def fieldJson (p : Proof) : Json :=
  .object
    [("root", Decimal.toJson p.root), ("leaf", Decimal.toJson p.leaf),
     ("index", .ofUInt64 (.ofNat p.index)), ("siblings", .array (p.siblings.map Decimal.toJson))]

/-- The compact JSON text of a proof. -/
def toText (p : Proof) : String := p.fieldJson.text

end Merkle.Proof

end ProvableRecord
