import ProvableRecord.Json.Decoder
import ProvableRecord.Signature.Scheme

/-!
# Keys and signatures as JSON

A public key or a signature is a JSON string of its text.  A private key has no JSON form.
-/

namespace ProvableRecord

namespace PublicKey

/-- Reads a key, in either form of its text. -/
def decoder : Decoder PrimitiveError PublicKey := Decoder.text.refine ofText

/-- A key as a JSON string. -/
def toJson (k : PublicKey) : Json := .string k.toText

end PublicKey

namespace Signature

/-- Reads a signature, in either form of its text. -/
def decoder : Decoder PrimitiveError Signature := Decoder.text.refine ofText

/-- A signature as a JSON string. -/
def toJson (s : Signature) : Json := .string s.toText

end Signature

end ProvableRecord
