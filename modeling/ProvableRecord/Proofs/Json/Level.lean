import Mathlib.Data.Nat.Notation
import ProvableRecord.Json.Reader

/-!
# One level of a JSON text

Reading a value goes down one level at a time.  `ReadsLevel` says what the text of a value looks
like when what is inside the value is read with the fuel that is left, and a value is read just if
its text looks so (`readValue_succ_iff`).  `ReadsItems` and `ReadsMembers` say the same of what
stands between brackets and braces, of which one is read and then the others (`readItems_succ_iff`,
`readMembers_succ_iff`).

What a text begins with tells what kind of value it has: an object begins with its brace
(`isObject_iff_opensObject`).
-/

namespace ProvableRecord.Json

variable {fuel depth : ℕ} {s rest : List Char}

/-- The text of a value without blanks in front, if what is inside the value is read with this
fuel. -/
inductive ReadsLevel (fuel : ℕ) : (depth : ℕ) → List Char → Json → List Char → Prop where
  | null {depth : ℕ} {s rest : List Char} (word : skipWord ['u', 'l', 'l'] s = some rest) :
    ReadsLevel fuel depth ('n' :: s) null rest
  | true {depth : ℕ} {s rest : List Char} (word : skipWord ['r', 'u', 'e'] s = some rest) :
    ReadsLevel fuel depth ('t' :: s) (bool true) rest
  | false {depth : ℕ} {s rest : List Char} (word : skipWord ['a', 'l', 's', 'e'] s = some rest) :
    ReadsLevel fuel depth ('f' :: s) (bool false) rest
  | string {depth : ℕ} {s rest : List Char} {str : String}
    (chars : readString fuel s = some (str, rest)) :
    ReadsLevel fuel depth ('"' :: s) (string str) rest
  | emptyArray {depth : ℕ} {s rest : List Char} (bracket : skipBlanks s = ']' :: rest) :
    ReadsLevel fuel (depth + 1) ('[' :: s) (array []) rest
  | array {depth : ℕ} {s rest : List Char} {vs : List Json}
    (nonempty : ∀ t, skipBlanks s ≠ ']' :: t)
    (items : readItems fuel depth (skipBlanks s) = some (vs, rest)) :
    ReadsLevel fuel (depth + 1) ('[' :: s) (array vs) rest
  | emptyObject {depth : ℕ} {s rest : List Char} (brace : skipBlanks s = '\x7d' :: rest) :
    ReadsLevel fuel (depth + 1) ('\x7b' :: s) (object []) rest
  | object {depth : ℕ} {s rest : List Char} {ms : List (String × Json)}
    (nonempty : ∀ t, skipBlanks s ≠ '\x7d' :: t)
    (members : readMembers fuel depth (skipBlanks s) = some (ms, rest)) :
    ReadsLevel fuel (depth + 1) ('\x7b' :: s) (ofMembers ms) rest
  | number {depth : ℕ} {c : Char} {s rest : List Char} {n : JsonNumber}
    (starts : startsNumber c = true) (numeral : readNumber (c :: s) = some (n, rest)) :
    ReadsLevel fuel depth (c :: s) (number n) rest

theorem ReadsLevel.of_readValue {v : Json} (h : readValue (fuel + 1) depth s = some (v, rest)) :
    ReadsLevel fuel depth (skipBlanks s) v rest := by
  rw [readValue] at h
  split at h
  case h_1 s' hs =>
    obtain ⟨_, hword, heq⟩ := Option.map_eq_some_iff.mp h
    cases heq
    exact hs ▸ .null hword
  case h_2 s' hs =>
    obtain ⟨_, hword, heq⟩ := Option.map_eq_some_iff.mp h
    cases heq
    exact hs ▸ .true hword
  case h_3 s' hs =>
    obtain ⟨_, hword, heq⟩ := Option.map_eq_some_iff.mp h
    cases heq
    exact hs ▸ .false hword
  case h_4 s' hs =>
    obtain ⟨_, hchars, heq⟩ := Option.map_eq_some_iff.mp h
    cases heq
    exact hs ▸ .string hchars
  case h_5 s' hs =>
    split at h
    · cases h
    · split at h
      · next hbracket =>
        cases h
        exact hs ▸ .emptyArray hbracket
      · next hne =>
        obtain ⟨_, hitems, heq⟩ := Option.map_eq_some_iff.mp h
        cases heq
        exact hs ▸ .array hne hitems
  case h_6 s' hs =>
    split at h
    · cases h
    · split at h
      · next hbrace =>
        cases h
        exact hs ▸ .emptyObject hbrace
      · next hne =>
        obtain ⟨_, hmembers, heq⟩ := Option.map_eq_some_iff.mp h
        cases heq
        exact hs ▸ .object hne hmembers
  case h_7 c s' hs =>
    split at h
    · next hc =>
      obtain ⟨_, hnumber, heq⟩ := Option.map_eq_some_iff.mp h
      cases heq
      exact hs ▸ .number hc hnumber
    · cases h
  case h_8 hs => cases h

theorem readValue_number {fuel : ℕ} {c : Char} {s t : List Char} (hs : skipBlanks s = c :: t)
    (hc : startsNumber c = true) :
    readValue (fuel + 1) depth s = (readNumber (c :: t)).map fun r => (number r.1, r.2) := by
  rw [readValue, hs]
  split
  iterate 6 next heq =>
    rw [(List.cons.inj heq).1] at hc
    exact absurd hc (by decide)
  · next heq =>
    obtain ⟨rfl, rfl⟩ := List.cons.inj heq
    rw [if_pos hc]
  · next heq => cases heq

theorem ReadsLevel.readValue {v : Json} (h : ReadsLevel fuel depth (skipBlanks s) v rest) :
    readValue (fuel + 1) depth s = some (v, rest) := by
  generalize hs : skipBlanks s = t at h
  cases h with
  | null word | true word | false word =>
    simp only [Json.readValue, hs, word, Option.map_some]
  | string chars => simp only [Json.readValue, hs, chars, Option.map_some]
  | emptyArray bracket => simp only [Json.readValue, hs, bracket]
  | array nonempty items => simp only [Json.readValue, hs, items, Option.map_some]
  | emptyObject brace => simp only [Json.readValue, hs, brace]
  | object nonempty members => simp only [Json.readValue, hs, members, Option.map_some]
  | number starts numeral => rw [readValue_number hs starts, numeral, Option.map_some]

/-- **Reading a value goes down one level.** -/
theorem readValue_succ_iff {v : Json} : readValue (fuel + 1) depth s = some (v, rest)
    ↔ ReadsLevel fuel depth (skipBlanks s) v rest :=
  ⟨.of_readValue, ReadsLevel.readValue⟩

/-! ## Items and members -/

/-- The text of items: a value, and then the closing bracket or a comma and more items. -/
inductive ReadsItems (fuel depth : ℕ) : List Char → List Json → List Char → Prop where
  | last {s s' rest : List Char} {v : Json} (value : readValue fuel depth s = some (v, s'))
    (bracket : skipBlanks s' = ']' :: rest) : ReadsItems fuel depth s [v] rest
  | more {s s' s'' rest : List Char} {v : Json} {vs : List Json}
    (value : readValue fuel depth s = some (v, s')) (comma : skipBlanks s' = ',' :: s'')
    (items : readItems fuel depth s'' = some (vs, rest)) : ReadsItems fuel depth s (v :: vs) rest

theorem readItems_succ_iff {vs : List Json} :
    readItems (fuel + 1) depth s = some (vs, rest) ↔ ReadsItems fuel depth s vs rest := by
  constructor
  · intro h
    rw [readItems] at h
    obtain ⟨⟨v, s'⟩, hv, h⟩ := Option.bind_eq_some_iff.mp h
    dsimp only at h
    split at h
    · next hs' =>
      cases h
      exact .last hv hs'
    · next hs' =>
      obtain ⟨⟨vs', _⟩, hvs, h⟩ := Option.bind_eq_some_iff.mp h
      cases h
      exact .more hv hs' hvs
    · cases h
  · intro h
    cases h with
    | last value bracket =>
      simp only [readItems, value, bracket, Option.bind_eq_bind, Option.bind_some]
      rfl
    | more value comma items =>
      simp only [readItems, value, comma, items, Option.bind_eq_bind, Option.bind_some]
      rfl

/-- The text of members: a key and its value, and then the closing brace or a comma and more
members. -/
inductive ReadsMembers (fuel depth : ℕ) :
    List Char → List (String × Json) → List Char → Prop where
  | last {s s₁ s₂ s₃ s' rest : List Char} {key : String} {v : Json}
    (quote : skipBlanks s = '"' :: s₁) (chars : readString fuel s₁ = some (key, s₂))
    (colon : skipBlanks s₂ = ':' :: s₃) (value : readValue fuel depth s₃ = some (v, s'))
    (brace : skipBlanks s' = '\x7d' :: rest) : ReadsMembers fuel depth s [(key, v)] rest
  | more {s s₁ s₂ s₃ s' s'' rest : List Char} {key : String} {v : Json}
    {ms : List (String × Json)}
    (quote : skipBlanks s = '"' :: s₁) (chars : readString fuel s₁ = some (key, s₂))
    (colon : skipBlanks s₂ = ':' :: s₃) (value : readValue fuel depth s₃ = some (v, s'))
    (comma : skipBlanks s' = ',' :: s'')
    (members : readMembers fuel depth s'' = some (ms, rest)) :
    ReadsMembers fuel depth s ((key, v) :: ms) rest

theorem readMembers_succ_iff {ms : List (String × Json)} :
    readMembers (fuel + 1) depth s = some (ms, rest) ↔ ReadsMembers fuel depth s ms rest := by
  constructor
  · intro h
    rw [readMembers] at h
    split at h
    case h_2 => cases h
    next s₁ hs =>
    obtain ⟨⟨key, s₂⟩, hkey, h⟩ := Option.bind_eq_some_iff.mp h
    dsimp only at h
    split at h
    case h_2 => cases h
    next s₃ hs₂ =>
    obtain ⟨⟨v, s'⟩, hv, h⟩ := Option.bind_eq_some_iff.mp h
    dsimp only at h
    split at h
    · next hs' =>
      cases h
      exact .last hs hkey hs₂ hv hs'
    · next hs' =>
      obtain ⟨⟨ms', _⟩, hms, h⟩ := Option.bind_eq_some_iff.mp h
      cases h
      exact .more hs hkey hs₂ hv hs' hms
    · cases h
  · intro h
    cases h with
    | last quote chars colon value brace =>
      simp only [readMembers, quote, chars, colon, value, brace, Option.bind_eq_bind,
        Option.bind_some]
      rfl
    | more quote chars colon value comma members =>
      simp only [readMembers, quote, chars, colon, value, comma, members, Option.bind_eq_bind,
        Option.bind_some]
      rfl

/-! ## Objects -/

/-- The text begins with the brace of an object, but for blanks. -/
def OpensObject (text : String) : Prop := ∃ t, skipBlanks text.toList = '\x7b' :: t

/-- A text has an object as its value if it begins like one. -/
theorem isObject_iff_opensObject {text : String} {v : Json} (h : read? text = some v) :
    v.isObject = true ↔ OpensObject text := by
  rw [read?] at h
  split at h
  case h_2 => cases h
  next v' rest hread =>
  split at h
  case isFalse => cases h
  cases h
  have hlevel := readValue_succ_iff.mp hread
  rw [OpensObject]
  generalize skipBlanks text.toList = t at hlevel ⊢
  cases hlevel with
  | null | true | false | string | emptyArray | array => simp [isObject]
  | emptyObject | object => exact ⟨fun _ => ⟨_, rfl⟩, fun _ => rfl⟩
  | number starts =>
    refine iff_of_false Bool.false_ne_true ?_
    rintro ⟨t, heq⟩
    obtain ⟨rfl, -⟩ := List.cons.inj heq
    exact absurd starts (by decide)

end ProvableRecord.Json
