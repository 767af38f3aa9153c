import ProvableRecord.Json.Reader

/-!
# Reading typed data

A `Decoder` reads a type either straight from text or from a JSON value, and the two may differ in
what they notice first.  From text, members are taken as they come and the first fault ends the
reading, so what follows it is never looked at; a repeated field is a fault.  From a value, members
are taken in order of key.

A `Schema` describes a record by its fields.  A record may be given as an object or as an array of
its fields in order.
-/

namespace ProvableRecord

/-- Why typed data cannot be read. -/
inductive ReadError (ε : Type) where
  /-- The text is not JSON. -/
  | malformed
  /-- The JSON has another shape. -/
  | mismatch
  /-- A text inside the JSON was refused. -/
  | refused (cause : ε)
deriving DecidableEq

/-- A type that can be read from text and from a JSON value. -/
structure Decoder (ε α : Type) where
  /-- Reads the start of a text and gives what follows. -/
  fromText : List Char → Except (ReadError ε) (α × List Char)
  fromValue : Json → Except (ReadError ε) α

namespace Decoder

open Json

variable {ε α β : Type}

/-- Reads a text that holds one value and nothing else but blanks. -/
def readText (d : Decoder ε α) (text : String) : Except (ReadError ε) α := do
  let (a, rest) ← d.fromText text.toList
  if (skipBlanks rest).isEmpty then return a else throw .malformed

/-- Reads a text to a JSON value and then the type from that. -/
def readTree (d : Decoder ε α) (text : String) : Except (ReadError ε) α :=
  match Json.read? text with
  | some v => d.fromValue v
  | none => .error .malformed

/-- Refuses some of what a decoder reads. -/
def refine (d : Decoder ε α) (f : α → Except ε β) : Decoder ε β where
  fromText s := do
    let (a, s) ← d.fromText s
    match f a with
    | .ok b => return (b, s)
    | .error cause => throw (.refused cause)
  fromValue v := do
    let a ← d.fromValue v
    match f a with
    | .ok b => return b
    | .error cause => throw (.refused cause)

/-- Applies a function to what a decoder reads. -/
def map (d : Decoder ε α) (f : α → β) : Decoder ε β where
  fromText s := (d.fromText s).map fun r => (f r.1, r.2)
  fromValue v := (d.fromValue v).map f

/-- What is wrong where a value of another kind starts: its token must be complete to count as a
value at all. -/
def wrongKind (s : List Char) : ReadError ε :=
  let found : Bool := match s with
    | 'n' :: s => (skipWord ['u', 'l', 'l'] s).isSome
    | 't' :: s => (skipWord ['r', 'u', 'e'] s).isSome
    | 'f' :: s => (skipWord ['a', 'l', 's', 'e'] s).isSome
    | '"' :: s => (readString (fuelFor s) s).isSome
    | '[' :: _ => true
    | '\x7b' :: _ => true
    | c :: s => startsNumber c && (readNumber (c :: s)).isSome
    | [] => false
  if found then .mismatch else .malformed

/-- Any JSON value, inside `open` arrays and objects. -/
def value (opened : Nat) : Decoder ε Json where
  fromText s :=
    match readValue (fuelFor s) (maxDepth - opened) s with
    | some r => .ok r
    | none => .error .malformed
  fromValue v := .ok v

/-- A string. -/
def text : Decoder ε String where
  fromText s :=
    match skipBlanks s with
    | '"' :: s =>
      match readString (fuelFor s) s with
      | some r => .ok r
      | none => .error .malformed
    | s => .error (wrongKind s)
  fromValue v :=
    match v with
    | .string s => .ok s
    | _ => .error .mismatch

/-- The word that a number denotes, if it is an integer of 64 bits without sign. -/
def wordOf? : JsonNumber → Option UInt64
  | .integer n _ => if 0 ≤ n then some (UInt64.ofNat n.toNat) else none
  | .double _ => none

/-- An integer of 64 bits without sign. -/
def word : Decoder ε UInt64 where
  fromText s :=
    match skipBlanks s with
    | c :: s =>
      if startsNumber c then
        match readNumber (c :: s) with
        | some (n, s) =>
          match wordOf? n with
          | some w => .ok (w, s)
          | none => .error .mismatch
        | none => .error .malformed
      else .error (wrongKind (c :: s))
    | [] => .error .malformed
  fromValue v :=
    match v with
    | .number n =>
      match wordOf? n with
      | some w => .ok w
      | none => .error .mismatch
    | _ => .error .mismatch

/-- Null or what another decoder reads. -/
def optional (d : Decoder ε α) : Decoder ε (Option α) where
  fromText s :=
    match skipBlanks s with
    | 'n' :: s =>
      match skipWord ['u', 'l', 'l'] s with
      | some s => .ok (none, s)
      | none => .error .malformed
    | s => do
      let (a, s) ← d.fromText s
      return (some a, s)
  fromValue v :=
    match v with
    | .null => .ok none
    | v => (d.fromValue v).map some

/-- Reads one or more items and the bracket that closes their array. -/
def itemsFromText (d : Decoder ε α) :
    (fuel : Nat) → List Char → Except (ReadError ε) (List α × List Char)
  | 0, _ => .error .malformed
  | fuel + 1, s => do
    let (a, s) ← d.fromText s
    match skipBlanks s with
    | ']' :: s => return ([a], s)
    | ',' :: s =>
      let (as, s) ← itemsFromText d fuel s
      return (a :: as, s)
    | _ => throw .malformed

/-- An array of what another decoder reads. -/
def list (d : Decoder ε α) : Decoder ε (List α) where
  fromText s :=
    match skipBlanks s with
    | '[' :: s =>
      match skipBlanks s with
      | ']' :: s => .ok ([], s)
      | s => itemsFromText d (fuelFor s) s
    | s => .error (wrongKind s)
  fromValue v :=
    match v with
    | .array vs => vs.mapM d.fromValue
    | _ => .error .mismatch

end Decoder

/-- One field of a record under construction, whose parts so far are a `δ`. -/
structure SchemaField (ε δ : Type) where
  name : String
  /-- Whether the field was read before. -/
  isSet : δ → Bool
  /-- Reads the field and gives its effect. -/
  decoder : Decoder ε (δ → δ)

/-- A record type: its fields in order, the record without any, and what it takes to be complete. -/
structure Schema (ε δ α : Type) where
  fields : List (SchemaField ε δ)
  start : δ
  /-- The record, unless a field it needs is missing. -/
  complete : δ → Option α
  /-- Whether fields of other names are refused instead of skipped. -/
  closed : Bool

namespace Schema

open Json Decoder

variable {ε δ α : Type} (r : Schema ε δ α)

/-- The field with a given name. -/
def field? (name : String) : Option (SchemaField ε δ) := r.fields.find? fun f => f.name = name

/-- The record made of the fields read so far. -/
def finish (parts : δ) : Except (ReadError ε) α :=
  match r.complete parts with
  | some a => .ok a
  | none => .error .mismatch

/-- Reads the value of the member with the given key, after the key. -/
def memberFromText (parts : δ) (key : String) (s : List Char) :
    Except (ReadError ε) (δ × List Char) := do
  let field ← match r.field? key with
    | some field => if field.isSet parts then throw .mismatch else pure (some field)
    | none => if r.closed then throw .mismatch else pure none
  let ':' :: s := skipBlanks s | throw .malformed
  match field with
  | some field =>
    let (set, s) ← field.decoder.fromText s
    return (set parts, s)
  | none =>
    match skipValue (fuelFor s) s with
    | some s => return (parts, s)
    | none => throw .malformed

/-- Reads one or more members and the brace that closes their object. -/
def membersFromText : (fuel : Nat) → δ → List Char → Except (ReadError ε) (α × List Char)
  | 0, _, _ => .error .malformed
  | fuel + 1, parts, s => do
    let '"' :: s := skipBlanks s | throw .malformed
    let some (key, s) := readString (fuelFor s) s | throw .malformed
    let (parts, s) ← r.memberFromText parts key s
    match skipBlanks s with
    | '\x7d' :: s =>
      let a ← r.finish parts
      return (a, s)
    | ',' :: s => membersFromText fuel parts s
    | _ => throw .malformed

/-- Reads fields in order up to the bracket that closes their array; `first` says that no field was
read yet. -/
def elementsFromText : List (SchemaField ε δ) → (first : Bool) → δ → List Char →
    Except (ReadError ε) (α × List Char)
  | [], _, parts, s => do
    let a ← r.finish parts
    match skipBlanks s with
    | ']' :: s => return (a, s)
    | _ => throw .malformed
  | f :: fields, first, parts, s =>
    match skipBlanks s with
    | ']' :: s => do
      let a ← r.finish parts
      return (a, s)
    | s => do
      let s ← if first then pure s else match s with
        | ',' :: s => pure s
        | _ => throw .malformed
      match skipBlanks s with
      | ']' :: _ => throw .malformed
      | s =>
        let (set, s) ← f.decoder.fromText s
        elementsFromText fields false (set parts) s

/-- Reads a record from the start of a text. -/
def fromText (s : List Char) : Except (ReadError ε) (α × List Char) :=
  match skipBlanks s with
  | '[' :: s => r.elementsFromText r.fields true r.start s
  | '\x7b' :: s =>
    match skipBlanks s with
    | '\x7d' :: s => do
      let a ← r.finish r.start
      return (a, s)
    | s => r.membersFromText (fuelFor s) r.start s
  | s => .error (wrongKind s)

/-- Adds one member of an object to the fields read so far. -/
def addMember (parts : δ) (m : String × Json) : Except (ReadError ε) δ :=
  match r.field? m.1 with
  | some field =>
    if field.isSet parts then .error .mismatch
    else (field.decoder.fromValue m.2).map fun set => set parts
  | none => if r.closed then .error .mismatch else .ok parts

/-- Adds the elements of an array to the fields read so far, in order. -/
def addElements : List (SchemaField ε δ) → δ → List Json → Except (ReadError ε) δ
  | _, parts, [] => .ok parts
  | [], _, _ :: _ => .error .mismatch
  | f :: fields, parts, v :: vs => do
    let set ← f.decoder.fromValue v
    addElements fields (set parts) vs

/-- Reads a record from a JSON value. -/
def fromValue : Json → Except (ReadError ε) α
  | .object members => members.foldlM r.addMember r.start >>= r.finish
  | .array items => addElements r.fields r.start items >>= r.finish
  | _ => .error .mismatch

/-- The decoder of a record. -/
def decoder : Decoder ε α := ⟨r.fromText, r.fromValue⟩

end Schema

end ProvableRecord
