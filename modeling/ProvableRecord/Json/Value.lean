import ProvableRecord.Json.Number.Binary64

/-!
# JSON values

A number is an exact integer of at most 64 bits or a finite double.  The members of an object are
held in ascending order of key with one member for each key; `Json.ofMembers` brings members there
from any order, and of members with one key the last counts.
-/

namespace ProvableRecord

/-- A JSON number. -/
inductive JsonNumber where
  /-- An integer that fits a signed or an unsigned word of 64 bits. -/
  | integer (n : Int) (fits : -9223372036854775808 ≤ n ∧ n < 18446744073709551616)
  | double (x : Binary64)
deriving DecidableEq

/-- A JSON value. -/
inductive Json where
  | null
  | bool (b : Bool)
  | number (n : JsonNumber)
  | string (s : String)
  | array (items : List Json)
  | object (members : List (String × Json))

namespace Json

/-- Puts a member where its key belongs, in place of a member with the same key. -/
def insertMember (key : String) (value : Json) : List (String × Json) → List (String × Json)
  | [] => [(key, value)]
  | m :: rest =>
    if key < m.1 then (key, value) :: m :: rest
    else if key = m.1 then (key, value) :: rest
    else m :: insertMember key value rest

/-- The object with the given members. -/
def ofMembers (members : List (String × Json)) : Json :=
  object (members.foldl (fun acc m => insertMember m.1 m.2 acc) [])

/-- The value of a member of an object. -/
def member? (key : String) : Json → Option Json
  | object members => (members.find? fun m => m.1 = key).map (·.2)
  | _ => none

/-- The text of a string value. -/
def asString? : Json → Option String
  | string s => some s
  | _ => none

/-- Whether a value is an object. -/
def isObject : Json → Bool
  | object _ => true
  | _ => false

/-- The kind of a value, in words. -/
def kind : Json → String
  | null => "null"
  | bool _ => "a boolean"
  | number _ => "a number"
  | string _ => "a string"
  | array _ => "an array"
  | object _ => "an object"

/-- A word of 64 bits as a number. -/
def ofUInt64 (n : UInt64) : Json :=
  number (.integer n.toNat ⟨by omega, by have := n.toNat_lt; omega⟩)

end Json

end ProvableRecord
