import ProvableRecord.Json.Number.Shortest
import ProvableRecord.PrimitiveError
import ProvableRecord.Record.Name

/-!
# Errors of records

Each constructor is a cause.  A cause belongs to one of three classes: the input has the wrong
shape, a number is out of range, or an entry does not exist.
-/

namespace ProvableRecord

/-- The class of an error. -/
inductive ErrorClass where
  | shape
  | range
  | notFound
deriving DecidableEq

/-- What is wrong with a value.  A kind of JSON value is the kind that was found. -/
inductive ValueFault where
  | notObject (kind : String)
  | unexpectedField (field : String)
  | missingType
  | missingPayload
  | unknownType (tag : String)
  | stringExpected (kind : String)
  | numberExpected (kind : String)
  | keyExpected (kind : String)
  | notDecimal (text : String)
  | notExact (x : Binary64)
  | intRange (n : Int)
  | negativeElement (n : Int)
  | largeElement (n : Int)
  /-- A value made from a number that is no field element. -/
  | outsideField
  | key (e : PrimitiveError)
deriving DecidableEq

/-- An error of records. -/
inductive RecordError where
  | notJson
  /-- The JSON is not a signed record. -/
  | notSignedRecord
  | notEntries (kind : String)
  | invalidName (name : String) (fault : NameFault)
  | value (fault : ValueFault)
  | entry (name : String) (fault : ValueFault)
  | noEntries
  | duplicateName (name : EntryName)
  | entryNotFound (name : String)
  | primitive (e : PrimitiveError)
  | cannotSign (e : PrimitiveError)
  /-- The proof of an entry has no sibling that could hold its value. -/
  | noValueSibling (name : String)
deriving DecidableEq

/-- The class of an error of the primitives. -/
def PrimitiveError.errorClass : PrimitiveError → ErrorClass
  | .notFieldElement _ => .range
  | _ => .shape

/-- The class of a value fault. -/
def ValueFault.errorClass : ValueFault → ErrorClass
  | .intRange _ | .negativeElement _ | .largeElement _ | .outsideField => .range
  | .key e => e.errorClass
  | _ => .shape

/-- The class of an error. -/
def RecordError.errorClass : RecordError → ErrorClass
  | .value fault | .entry _ fault => fault.errorClass
  | .primitive e => e.errorClass
  | .entryNotFound _ => .notFound
  | _ => .shape

/-- The wording of a value fault. -/
def ValueFault.message : ValueFault → String
  | .notObject kind => "value must be an object, got " ++ kind
  | .unexpectedField field => "unexpected field " ++ quoted field
  | .missingType => "missing string field \"type\""
  | .missingPayload => "missing field \"value\""
  | .unknownType tag => "unknown value type " ++ quoted tag
  | .stringExpected kind => "string value must be text, got " ++ kind
  | .numberExpected kind => "numeric value must be a string or integer, got " ++ kind
  | .keyExpected kind => "eddsa_pubkey value must be text, got " ++ kind
  | .notDecimal text => quoted text ++ " is not a decimal integer"
  | .notExact x => x.text ++ " is not an exact integer"
  | .intRange n => "int value " ++ Decimal.ofInt n ++ " is outside the 64-bit range"
  | .negativeElement n => "cryptographic value " ++ Decimal.ofInt n ++ " is negative"
  | .largeElement n =>
    "cryptographic value " ++ Decimal.ofInt n ++ " is not less than the field modulus"
  | .outsideField => "cryptographic value is not less than the field modulus"
  | .key e => e.message

/-- The words in front of an error of a class. -/
def ErrorClass.lead : ErrorClass → String
  | .shape => "type error: "
  | .range => "range error: "
  | .notFound => "entry not found: "

/-- The wording of an error after the words of its class. -/
def RecordError.detail : RecordError → String
  | .notJson => "invalid JSON"
  | .notSignedRecord => "invalid POD JSON"
  | .notEntries kind => "entries must be a JSON object, got " ++ kind
  | .invalidName name fault => quoted name ++ ": " ++ fault.message
  | .value fault => fault.message
  | .entry name fault => "entry " ++ name ++ ": " ++ fault.message
  | .noEntries => "a POD must have at least one entry"
  | .duplicateName name => "duplicate entry name " ++ name.text
  | .entryNotFound name => name
  | .primitive e => e.message
  | .cannotSign e => "cannot sign root: " ++ e.message
  | .noValueSibling name => "entry " ++ name ++ ": proof has no value sibling"

/-- The wording of an error. -/
def RecordError.message : RecordError → String
  | .invalidName name fault => "invalid entry name " ++ (invalidName name fault).detail
  | e => e.errorClass.lead ++ e.detail

end ProvableRecord
