import ProvableRecord.Json.Number.Shortest
import ProvableRecord.Json.Value
import ProvableRecord.Text.Quoted

/-!
# Writing JSON text

Strings are written raw but for quotes, backslashes and controls.  A `Layout` says what goes between
tokens: nothing in the compact form; line breaks and two blanks for each level in the pretty form,
where empty arrays and objects stay closed up.
-/

namespace ProvableRecord.Json

/-- What is written between tokens. -/
structure Layout where
  /-- Before an item and before a closing bracket, given the number of open brackets. -/
  line : Nat → List Char
  /-- After the colon of a member. -/
  afterColon : List Char

/-- Nothing between tokens. -/
def Layout.compact : Layout := ⟨fun _ => [], []⟩

/-- One line for each item, indented by two blanks for each open bracket. -/
def Layout.pretty : Layout := ⟨fun depth => '\n' :: List.replicate (2 * depth) ' ', [' ']⟩

/-- The escape of a control character by its number. -/
def numberedEscape (c : Char) : List Char :=
  ['\\', 'u', '0', '0', Text.Quoted.hexDigit (c.toNat / 16), Text.Quoted.hexDigit (c.toNat % 16)]

/-- The written form of a character of a string. -/
def writeChar (c : Char) : List Char :=
  if c = '"' then ['\\', '"']
  else if c = '\\' then ['\\', '\\']
  else if c = '\x08' then ['\\', 'b']
  else if c = '\x0c' then ['\\', 'f']
  else if c = '\n' then ['\\', 'n']
  else if c = '\r' then ['\\', 'r']
  else if c = '\t' then ['\\', 't']
  else if c.toNat < 0x20 then numberedEscape c
  else [c]

/-- The written form of a string. -/
def writeString (s : String) : List Char := '"' :: s.toList.flatMap writeChar ++ ['"']

/-- The written form of a number. -/
def writeNumber : JsonNumber → List Char
  | .integer n _ => (Decimal.ofInt n).toList
  | .double x => x.text.toList

mutual

/-- The written form of a value inside `depth` open brackets. -/
def write (layout : Layout) (depth : Nat) : Json → List Char
  | null => ['n', 'u', 'l', 'l']
  | bool true => ['t', 'r', 'u', 'e']
  | bool false => ['f', 'a', 'l', 's', 'e']
  | number n => writeNumber n
  | string s => writeString s
  | array [] => ['[', ']']
  | array (v :: vs) =>
    '[' :: layout.line (depth + 1) ++ write layout (depth + 1) v ++
      writeItems layout (depth + 1) vs ++ layout.line depth ++ [']']
  | object [] => ['\x7b', '\x7d']
  | object ((k, v) :: ms) =>
    '\x7b' :: layout.line (depth + 1) ++ writeString k ++ ':' :: layout.afterColon ++
      write layout (depth + 1) v ++ writeMembers layout (depth + 1) ms ++ layout.line depth ++
      ['\x7d']

/-- The written form of further items, each after a comma. -/
def writeItems (layout : Layout) (depth : Nat) : List Json → List Char
  | [] => []
  | v :: vs => ',' :: layout.line depth ++ write layout depth v ++ writeItems layout depth vs

/-- The written form of further members, each after a comma. -/
def writeMembers (layout : Layout) (depth : Nat) : List (String × Json) → List Char
  | [] => []
  | (k, v) :: ms =>
    ',' :: layout.line depth ++ writeString k ++ ':' :: layout.afterColon ++
      write layout depth v ++ writeMembers layout depth ms

end

/-- The compact text of a value. -/
def text (v : Json) : String := String.ofList (write .compact 0 v)

/-- The pretty text of a value. -/
def prettyText (v : Json) : String := String.ofList (write .pretty 0 v)

end ProvableRecord.Json
