import ProvableRecord.Json.Printer
import ProvableRecord.Json.Reader
import ProvableRecord.Record.Basic
import ProvableRecord.Record.NameJson
import ProvableRecord.Record.ValueJson

/-!
# Records as JSON

The entries of a record are a JSON object from names to values.  They are checked in order of name,
each name before its value, and the first fault is reported.
-/

namespace ProvableRecord

namespace Entry

/-- A name with a value, which must be valid. -/
def ofNamed (name : EntryName) (value : Value) : Except RecordError Entry :=
  if value.IsValid then .ok ⟨name, value⟩ else .error (.entry name.text .outsideField)

/-- A member of an object as an entry. -/
def ofMember (m : String × Json) : Except RecordError Entry := do
  let name ← EntryName.require m.1
  let value ← (Value.ofJson m.2).mapError (RecordError.entry m.1)
  ofNamed name value

/-- The entries of a JSON object. -/
def listOfJson : Json → Except RecordError (List Entry)
  | .object members => members.mapM ofMember
  | v => .error (.notEntries v.kind)

/-- The entries of a JSON text. -/
def listOfText (text : String) : Except RecordError (List Entry) :=
  match Json.read? text with
  | some v => listOfJson v
  | none => .error .notJson

/-- Entries as a JSON object. -/
def listToJson (es : List Entry) : Json :=
  .ofMembers (es.map fun e => (e.name.text, e.value.toJson))

end Entry

namespace Record

/-- The record of a JSON object of entries. -/
def ofJson (v : Json) : Except RecordError Record := Entry.listOfJson v >>= ofEntries

/-- The record of a JSON text. -/
def ofText (text : String) : Except RecordError Record := Entry.listOfText text >>= ofEntries

/-- A record as a JSON object of its entries. -/
def toJson (r : Record) : Json := Entry.listToJson r.entries

/-- The compact JSON text of a record. -/
def toText (r : Record) : String := r.toJson.text

end Record

end ProvableRecord
