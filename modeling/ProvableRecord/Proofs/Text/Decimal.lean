import Mathlib.Data.Int.Notation
import Mathlib.Data.List.Basic
import ProvableRecord.Text.Decimal

/-!
# Decimal numerals are read back

The value of a row of digits grows by its last digit (`value_concat`), as the row itself does
(`digits_eq`), so `value` undoes `digits` by induction on the number.  What is written consists of
digits only, with no leading zero but in `0` itself.
-/

namespace ProvableRecord.Decimal

theorem isDigit_digitChar : ∀ {d : ℕ}, d < 10 → (digitChar d).isDigit = true := by
  decide

theorem digitValue_digitChar : ∀ {d : ℕ}, d < 10 → digitValue (digitChar d) = d := by
  decide

theorem digitChar_ne_zero : ∀ {d : ℕ}, d < 10 → d ≠ 0 → digitChar d ≠ '0' := by
  decide

theorem ne_minus_of_isDigit {c : Char} (h : c.isDigit = true) : c ≠ '-' := by
  rintro rfl
  exact absurd h (by decide)

theorem value_concat (cs : List Char) (c : Char) :
    value (cs ++ [c]) = 10 * value cs + digitValue c := by
  rw [value, List.foldl_append]
  rfl

/-- **The value of the digits of a number is the number.** -/
theorem value_digits (n : ℕ) : value (digits n) = n := by
  induction n using Nat.strongRecOn with
  | ind n ih =>
    rw [digits_eq]
    split
    · next h =>
      show 10 * 0 + digitValue (digitChar n) = n
      rw [digitValue_digitChar h, Nat.mul_zero, Nat.zero_add]
    · rw [value_concat, ih (n / 10) (by omega), digitValue_digitChar (Nat.mod_lt _ (by decide))]
      exact Nat.div_add_mod n 10

theorem isDigit_of_mem_digits {n : ℕ} {c : Char} (h : c ∈ digits n) : c.isDigit = true := by
  induction n using Nat.strongRecOn with
  | ind n ih =>
    rw [digits_eq] at h
    split at h
    · next hn =>
      rw [List.mem_singleton.mp h]
      exact isDigit_digitChar hn
    · rcases List.mem_append.mp h with hfront | hlast
      · exact ih (n / 10) (by omega) hfront
      · rw [List.mem_singleton.mp hlast]
        exact isDigit_digitChar (Nat.mod_lt _ (by decide))

theorem digits_ne_nil (n : ℕ) : digits n ≠ [] := by
  rw [digits_eq]
  split
  · exact List.cons_ne_nil _ _
  · exact List.append_ne_nil_of_right_ne_nil _ (List.cons_ne_nil _ _)

/-- Only `0` is written with a leading zero. -/
theorem head_digits_ne_zero {n : ℕ} (h : n ≠ 0) : (digits n).head? ≠ some '0' := by
  induction n using Nat.strongRecOn with
  | ind n ih =>
    rw [digits_eq]
    split
    · next hn =>
      rw [List.head?_cons, ne_eq, Option.some_inj]
      exact digitChar_ne_zero hn h
    · rw [List.head?_append_of_ne_nil _ (digits_ne_nil _)]
      exact ih (n / 10) (by omega) (by omega)

/-- The text of a number begins with a digit. -/
theorem exists_digits_eq_cons (n : ℕ) : ∃ c cs, digits n = c :: cs ∧ c.isDigit = true := by
  obtain ⟨c, cs, hcons⟩ := List.exists_cons_of_ne_nil (digits_ne_nil n)
  exact ⟨c, cs, hcons, isDigit_of_mem_digits (hcons ▸ List.mem_cons_self)⟩

/-- **The text of a natural number is read back.** -/
theorem parse?_ofNat (n : ℕ) : parse? (ofNat n) = some n := by
  have hall : (digits n).all Char.isDigit = true :=
    List.all_eq_true.mpr fun c hc => isDigit_of_mem_digits hc
  rw [parse?, ofNat, String.toList_ofList, if_pos ⟨digits_ne_nil n, hall⟩, value_digits]

/-- **The text of an integer is read back.** -/
theorem parseInt?_ofInt (n : ℤ) : parseInt? (ofInt n) = some n := by
  rw [ofInt]
  split
  · next h =>
    rw [parseInt?, String.toList_ofList]
    show Option.map _ ((parse? (ofNat n.natAbs)).bind _) = _
    rw [parse?_ofNat]
    show some (-(n.natAbs : ℤ)) = some n
    rw [Option.some_inj]
    omega
  · next h =>
    obtain ⟨c, cs, hcons, hc⟩ := exists_digits_eq_cons n.toNat
    have hminus := ne_minus_of_isDigit hc
    rw [parseInt?]
    split
    · next heq =>
      rw [ofNat, String.toList_ofList, hcons] at heq
      exact absurd (List.cons.inj heq).1 hminus
    · rw [parse?_ofNat]
      show some (n.toNat : ℤ) = some n
      rw [Option.some_inj]
      omega

/-- The text of a natural number is also read as an integer. -/
theorem parseInt?_ofNat (n : ℕ) : parseInt? (ofNat n) = some (n : ℤ) :=
  parseInt?_ofInt n

end ProvableRecord.Decimal
