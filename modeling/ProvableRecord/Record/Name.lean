import ProvableRecord.Text.Quoted

/-!
# Entry names

A name is an identifier of letters, digits and underscores of the ASCII range that does not start
with a digit.  Names are ordered by their characters.
-/

namespace ProvableRecord

/-- Whether a character may start a name. -/
def isNameStart (c : Char) : Bool := c.isAlpha || c = '_'

/-- Whether a character may occur in a name. -/
def isNameChar (c : Char) : Bool := c.isAlphanum || c = '_'

/-- Whether a text is a name. -/
def isName (s : String) : Bool :=
  match s.toList with
  | [] => false
  | c :: cs => isNameStart c && cs.all isNameChar

/-- The name of an entry. -/
structure EntryName where
  text : String
  isName_text : isName text = true
deriving DecidableEq

/-- Why a text is not a name. -/
inductive NameFault where
  | empty
  | leadingDigit
  | strayCharacter
deriving DecidableEq

/-- The wording of a name fault. -/
def NameFault.message : NameFault → String
  | .empty => "name is empty"
  | .leadingDigit => "name starts with a digit"
  | .strayCharacter => "name contains characters outside [A-Za-z0-9_]"

/-- What is wrong with a text that is not a name. -/
def nameFault (s : String) : NameFault :=
  match s.toList with
  | [] => .empty
  | c :: _ => if c.isDigit then .leadingDigit else .strayCharacter

namespace EntryName

/-- A text as a name. -/
def ofText (s : String) : Except NameFault EntryName :=
  if h : isName s = true then .ok ⟨s, h⟩ else .error (nameFault s)

@[ext]
theorem ext {a b : EntryName} (h : a.text = b.text) : a = b := by
  cases a; cases b; cases h; rfl

theorem ofText_eq_ok_iff {s : String} {n : EntryName} : ofText s = .ok n ↔ n.text = s := by
  unfold ofText
  split
  · constructor
    · rintro ⟨⟩; rfl
    · rintro rfl; rfl
  · constructor
    · rintro ⟨⟩
    · rintro rfl; exact absurd n.isName_text ‹_›

end EntryName

end ProvableRecord
