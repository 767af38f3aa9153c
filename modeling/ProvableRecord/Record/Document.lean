import ProvableRecord.Record.Signed

/-!
# Documents

A document is a signed record or the bare entries of one.  The two are told apart by whether there
is a member `signature` that is a string; an entry of that name is an object.
-/

namespace ProvableRecord

/-- A record with its signature or without one. -/
inductive Document where
  | signed (s : SignedRecord)
  | unsigned (r : Record)
deriving DecidableEq

/-- Why a text is no document. -/
inductive DocumentFault where
  | notJson
  /-- The JSON should be a signed record. -/
  | signed (e : RecordError)
  /-- The JSON should be the entries of a record. -/
  | unsigned (e : RecordError)
deriving DecidableEq

namespace Document

/-- Whether a JSON value is to be read as a signed record. -/
def isSigned (v : Json) : Bool := (v.member? "signature" >>= Json.asString?).isSome

/-- Reads a document from a JSON text. -/
def ofText (text : String) : Except DocumentFault Document :=
  match Json.read? text with
  | some v =>
    if isSigned v then ((SignedRecord.ofText text).map signed).mapError .signed
    else ((Record.ofText text).map unsigned).mapError .unsigned
  | none => .error .notJson

/-- The record of a document. -/
def record : Document → Record
  | signed s => s.record
  | unsigned r => r

/-- The line that shows an entry. -/
def entryLine (e : Entry) : String :=
  "  " ++ e.name.text ++ " (" ++ e.value.type.tag ++ ") = " ++ e.value.display

/-- The lines that show the signature of a document. -/
def signatureLines : Document → List String
  | signed s =>
    ["Signer:     " ++ s.signer.toText,
     "Signature:  " ++ if s.isValid then "valid" else "INVALID"]
  | unsigned _ => []

/-- The lines that show a document: the commitment, the signature and the entries. -/
def lines (d : Document) : List String :=
  let r := d.record
  ["Content ID: " ++ Decimal.ofNat r.contentId,
   "Entries:    " ++ Decimal.ofNat r.size,
   "Depth:      " ++ Decimal.ofNat r.depth] ++
    d.signatureLines ++ r.entries.map entryLine

end Document

end ProvableRecord
