import ProvableRecord.Record.Error
import ProvableRecord.Record.Value

/-!
# Reading values

A value is given as an object of exactly two members: the tag of its type and a payload.  A number
is given as a decimal text, which may have a minus sign and leading zeros, or as an exact JSON
integer.
-/

namespace ProvableRecord.Value

/-- An integer as a value of type `int`. -/
def ofInt (n : Int) : Except ValueFault Value :=
  if -9223372036854775808 ≤ n ∧ n < 9223372036854775808 then .ok (.int (Int64.ofInt n))
  else .error (.intRange n)

/-- An integer as a cryptographic value. -/
def ofElement (n : Int) : Except ValueFault Value :=
  if n < 0 then .error (.negativeElement n)
  else if n.toNat < fieldModulus then .ok (.cryptographic n.toNat)
  else .error (.largeElement n)

/-- The integer that a payload denotes. -/
def integerOfJson : Json → Except ValueFault Int
  | .string s =>
    match Decimal.parseInt? s with
    | some n => .ok n
    | none => .error (.notDecimal s)
  | .number (.integer n _) => .ok n
  | .number (.double x) => .error (.notExact x)
  | v => .error (.numberExpected v.kind)

/-- A payload as a value of a given type. -/
def ofPayload (type : ValueType) (payload : Json) : Except ValueFault Value :=
  match type with
  | .string =>
    match payload with
    | .string s => .ok (.string s)
    | v => .error (.stringExpected v.kind)
  | .int => integerOfJson payload >>= ofInt
  | .cryptographic => integerOfJson payload >>= ofElement
  | .publicKey =>
    match payload with
    | .string s => ((PublicKey.ofText s).map Value.publicKey).mapError ValueFault.key
    | v => .error (.keyExpected v.kind)

/-- The members of an object as a value. -/
def ofMembers (members : List (String × Json)) : Except ValueFault Value := do
  match members.find? fun m => m.1 ≠ "type" ∧ m.1 ≠ "value" with
  | some m => throw (.unexpectedField m.1)
  | none => pure ()
  let object := Json.object members
  let some tag := object.member? "type" >>= Json.asString? | throw .missingType
  let some payload := object.member? "value" | throw .missingPayload
  let some type := ValueType.ofTag? tag | throw (.unknownType tag)
  ofPayload type payload

/-- A JSON value as the value of an entry. -/
def ofJson : Json → Except ValueFault Value
  | .object members => ofMembers members
  | v => .error (.notObject v.kind)

end ProvableRecord.Value
