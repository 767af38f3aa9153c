import ProvableRecord.Json.Number.Numeral
import ProvableRecord.Text.Hex

/-!
# Reading JSON text

The grammar is strict: blanks are spaces, tabs and line breaks, strings hold no raw controls, and an
escape names a character or half of a pair that is complete.  At most `maxDepth` arrays and objects
may be open at once.

A reader takes the text that is left, as characters, and gives a value with the text after it.
Loops are bounded by fuel, of which twice the length of the text is always enough.
-/

namespace ProvableRecord.Json

/-- The number of arrays and objects that may be open at once. -/
def maxDepth : Nat := 127

/-- Whether a character may stand between tokens. -/
def isBlank (c : Char) : Bool := c = ' ' || c = '\t' || c = '\n' || c = '\r'

/-- Drops blanks. -/
def skipBlanks (s : List Char) : List Char := s.dropWhile isBlank

/-- Drops a word that the text must start with. -/
def skipWord (word s : List Char) : Option (List Char) :=
  if word.isPrefixOf s then some (s.drop word.length) else none

/-- Fuel for reading a text. -/
def fuelFor (s : List Char) : Nat := 2 * s.length + 2

/-! ## Strings -/

/-- The number that four hexadecimal digits denote. -/
def hexUnit? (a b c d : Char) : Option Nat := do
  let a ← Hex.digitValue? a
  let b ← Hex.digitValue? b
  let c ← Hex.digitValue? c
  let d ← Hex.digitValue? d
  return ((a * 16 + b) * 16 + c) * 16 + d

/-- The character that a one-letter escape stands for. -/
def escapedChar? (c : Char) : Option Char :=
  if c = '"' ∨ c = '\\' ∨ c = '/' then some c
  else if c = 'b' then some '\x08'
  else if c = 'f' then some '\x0c'
  else if c = 'n' then some '\n'
  else if c = 'r' then some '\r'
  else if c = 't' then some '\t'
  else none

/-- Whether a number is the first half of a pair. -/
def isHighHalf (n : Nat) : Bool := 0xd800 ≤ n && n < 0xdc00

/-- Whether a number is the second half of a pair. -/
def isLowHalf (n : Nat) : Bool := 0xdc00 ≤ n && n < 0xe000

/-- The character that a pair stands for. -/
def joinHalves (high low : Nat) : Char :=
  Char.ofNat (0x10000 + (high - 0xd800) * 0x400 + (low - 0xdc00))

/-- Reads the four digits of a numbered escape, and a second escape if they are half of a pair. -/
def readNumberedEscape : List Char → Option (Char × List Char)
  | a :: b :: c :: d :: s => do
    let n ← hexUnit? a b c d
    if isLowHalf n then none
    else if isHighHalf n then
      match s with
      | '\\' :: 'u' :: a :: b :: c :: d :: s => do
        let m ← hexUnit? a b c d
        if isLowHalf m then some (joinHalves n m, s) else none
      | _ => none
    else some (Char.ofNat n, s)
  | _ => none

/-- Reads one character of a string, in its escaped form or as itself. -/
def readStringChar : List Char → Option (Char × List Char)
  | '\\' :: 'u' :: s => readNumberedEscape s
  | '\\' :: c :: s => (escapedChar? c).map fun c => (c, s)
  | c :: s => if c.toNat < 0x20 ∨ c = '\\' ∨ c = '"' then none else some (c, s)
  | [] => none

/-- Reads the rest of a string after its opening quote. -/
def readStringRest : (fuel : Nat) → List Char → Option (List Char × List Char)
  | 0, _ => none
  | _ + 1, '"' :: s => some ([], s)
  | fuel + 1, s => do
    let (c, s) ← readStringChar s
    let (cs, s) ← readStringRest fuel s
    return (c :: cs, s)

/-- Reads the rest of a string after its opening quote, as text. -/
def readString (fuel : Nat) (s : List Char) : Option (String × List Char) :=
  (readStringRest fuel s).map fun r => (String.ofList r.1, r.2)

/-! ## Numbers -/

/-- Reads a number. -/
def readNumber (s : List Char) : Option (JsonNumber × List Char) := do
  let (numeral, s) ← Numeral.scan s
  let n ← numeral.value?
  return (n, s)

/-! ## Values -/

/-- Whether a number starts with this character. -/
def startsNumber (c : Char) : Bool := c = '-' || c.isDigit

mutual

/-- Reads a value, in which `depth` arrays and objects may be open at once. -/
def readValue : (fuel depth : Nat) → List Char → Option (Json × List Char)
  | 0, _, _ => none
  | fuel + 1, depth, s =>
    match skipBlanks s with
    | 'n' :: s => (skipWord ['u', 'l', 'l'] s).map fun s => (.null, s)
    | 't' :: s => (skipWord ['r', 'u', 'e'] s).map fun s => (.bool true, s)
    | 'f' :: s => (skipWord ['a', 'l', 's', 'e'] s).map fun s => (.bool false, s)
    | '"' :: s => (readString fuel s).map fun r => (.string r.1, r.2)
    | '[' :: s =>
      match depth with
      | 0 => none
      | depth + 1 =>
        match skipBlanks s with
        | ']' :: s => some (.array [], s)
        | s => (readItems fuel depth s).map fun r => (.array r.1, r.2)
    | '\x7b' :: s =>
      match depth with
      | 0 => none
      | depth + 1 =>
        match skipBlanks s with
        | '\x7d' :: s => some (.object [], s)
        | s => (readMembers fuel depth s).map fun r => (ofMembers r.1, r.2)
    | c :: s =>
      if startsNumber c then (readNumber (c :: s)).map fun r => (.number r.1, r.2) else none
    | [] => none

/-- Reads one or more items and the bracket that closes their array. -/
def readItems : (fuel depth : Nat) → List Char → Option (List Json × List Char)
  | 0, _, _ => none
  | fuel + 1, depth, s => do
    let (v, s) ← readValue fuel depth s
    match skipBlanks s with
    | ']' :: s => return ([v], s)
    | ',' :: s =>
      let (vs, s) ← readItems fuel depth s
      return (v :: vs, s)
    | _ => none

/-- Reads one or more members and the brace that closes their object. -/
def readMembers : (fuel depth : Nat) → List Char → Option (List (String × Json) × List Char)
  | 0, _, _ => none
  | fuel + 1, depth, s => do
    let '"' :: s := skipBlanks s | none
    let (key, s) ← readString fuel s
    let ':' :: s := skipBlanks s | none
    let (v, s) ← readValue fuel depth s
    match skipBlanks s with
    | '\x7d' :: s => return ([(key, v)], s)
    | ',' :: s =>
      let (ms, s) ← readMembers fuel depth s
      return ((key, v) :: ms, s)
    | _ => none

end

/-- Reads a text that holds one value and nothing else but blanks. -/
def read? (text : String) : Option Json :=
  let s := text.toList
  match readValue (fuelFor s) maxDepth s with
  | some (v, rest) => if (skipBlanks rest).isEmpty then some v else none
  | none => none

/-! ## Skipping -/

/-- Drops one character of a string, in its escaped form or as itself.  Numbered escapes need not be
characters. -/
def skipStringChar : List Char → Option (List Char)
  | '\\' :: 'u' :: a :: b :: c :: d :: s => (hexUnit? a b c d).map fun _ => s
  | '\\' :: c :: s => (escapedChar? c).map fun _ => s
  | c :: s => if c.toNat < 0x20 ∨ c = '\\' ∨ c = '"' then none else some s
  | [] => none

/-- Drops the rest of a string after its opening quote. -/
def skipString : (fuel : Nat) → List Char → Option (List Char)
  | 0, _ => none
  | _ + 1, '"' :: s => some s
  | fuel + 1, s => do
    let s ← skipStringChar s
    skipString fuel s

mutual

/-- Drops a value of any depth.  Only its grammar is looked at: numbers may be of any size. -/
def skipValue : (fuel : Nat) → List Char → Option (List Char)
  | 0, _ => none
  | fuel + 1, s =>
    match skipBlanks s with
    | 'n' :: s => skipWord ['u', 'l', 'l'] s
    | 't' :: s => skipWord ['r', 'u', 'e'] s
    | 'f' :: s => skipWord ['a', 'l', 's', 'e'] s
    | '"' :: s => skipString fuel s
    | '[' :: s =>
      match skipBlanks s with
      | ']' :: s => some s
      | s => skipItems fuel s
    | '\x7b' :: s =>
      match skipBlanks s with
      | '\x7d' :: s => some s
      | s => skipMembers fuel s
    | c :: s => if startsNumber c then (Numeral.scan (c :: s)).map (·.2) else none
    | [] => none

/-- Drops one or more items and the bracket that closes their array. -/
def skipItems : (fuel : Nat) → List Char → Option (List Char)
  | 0, _ => none
  | fuel + 1, s => do
    let s ← skipValue fuel s
    match skipBlanks s with
    | ']' :: s => some s
    | ',' :: s => skipItems fuel s
    | _ => none

/-- Drops one or more members and the brace that closes their object. -/
def skipMembers : (fuel : Nat) → List Char → Option (List Char)
  | 0, _ => none
  | fuel + 1, s => do
    let '"' :: s := skipBlanks s | none
    let s ← skipString fuel s
    let ':' :: s := skipBlanks s | none
    let s ← skipValue fuel s
    match skipBlanks s with
    | '\x7d' :: s => some s
    | ',' :: s => skipMembers fuel s
    | _ => none

end

end ProvableRecord.Json
