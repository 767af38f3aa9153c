import ProvableRecord.Json.Decoder
import ProvableRecord.Record.Error

/-!
# Names as JSON

A name is a JSON string; any other text is refused with the fault of the name.
-/

namespace ProvableRecord.EntryName

/-- A text as a name, or the error that it is none. -/
def require (s : String) : Except RecordError EntryName :=
  (ofText s).mapError (RecordError.invalidName s)

/-- Reads a name. -/
def decoder : Decoder RecordError EntryName := Decoder.text.refine require

/-- A name as a JSON string. -/
def toJson (n : EntryName) : Json := .string n.text

end ProvableRecord.EntryName
