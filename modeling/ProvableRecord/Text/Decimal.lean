/-!
# Decimal numerals

`digits` and `ofInt` write a number with the digits 0 to 9, without leading zeros; `parse?` reads
one or more such digits, with leading zeros allowed and nothing else.
-/

namespace ProvableRecord.Decimal

/-- The character of a digit below ten. -/
def digitChar (d : Nat) : Char := Char.ofNat (48 + d)

/-- The value of a digit character. -/
def digitValue (c : Char) : Nat := c.toNat - 48

/-- Puts the digits of a number in front of a row; `fuel` is at least the number. -/
def digitsOnto : (fuel n : Nat) → List Char → List Char
  | 0, n, cs => digitChar n :: cs
  | fuel + 1, n, cs =>
    if n < 10 then digitChar n :: cs else digitsOnto fuel (n / 10) (digitChar (n % 10) :: cs)

/-- The decimal digits of a number, highest first. -/
def digits (n : Nat) : List Char := digitsOnto n n []

/-- The number that a row of digits denotes. -/
def value (cs : List Char) : Nat := cs.foldl (fun n c => 10 * n + digitValue c) 0

/-- Reads one or more digits. -/
def parse? (s : String) : Option Nat :=
  let cs := s.toList
  if cs ≠ [] ∧ cs.all Char.isDigit then some (value cs) else none

/-- Reads one or more digits after an optional minus sign. -/
def parseInt? (s : String) : Option Int :=
  match s.toList with
  | '-' :: cs => (parse? (String.ofList cs)).map fun n => -(n : Int)
  | _ => (parse? s).map fun n => (n : Int)

/-- The decimal text of a natural number. -/
def ofNat (n : Nat) : String := String.ofList (digits n)

/-- The decimal text of an integer, with a minus sign when it is negative. -/
def ofInt (n : Int) : String :=
  if n < 0 then String.ofList ('-' :: digits n.natAbs) else ofNat n.toNat

theorem digitsOnto_eq {fuel n : Nat} (h : n ≤ fuel) (cs : List Char) :
    digitsOnto fuel n cs = digits n ++ cs := by
  have fuel_irrelevant : ∀ (fuel n : Nat), n ≤ fuel → ∀ cs,
      digitsOnto fuel n cs = digitsOnto n n [] ++ cs := by
    intro fuel
    induction fuel using Nat.strongRecOn with
    | ind fuel ih =>
      intro n h cs
      match fuel, n with
      | 0, 0 => rfl
      | fuel + 1, 0 => rfl
      | fuel + 1, n + 1 =>
        simp only [digitsOnto]
        split
        · rfl
        · rw [ih fuel (by omega) _ (by omega), ih n (by omega) _ (by omega)]
          simp
  exact fuel_irrelevant fuel n h cs

/-- A number below ten has one digit; otherwise its last digit follows the digits of the rest. -/
theorem digits_eq (n : Nat) :
    digits n = if n < 10 then [digitChar n] else digits (n / 10) ++ [digitChar (n % 10)] := by
  match n with
  | 0 => rfl
  | n + 1 =>
    rw [digits, digitsOnto]
    split
    · rfl
    · exact digitsOnto_eq (by omega) _

end ProvableRecord.Decimal
