import Mathlib.Computability.RegularExpressions
import Mathlib.Data.Nat.Digits.Defs
import ProvableRecord.Proofs.Text.Decimal

/-!
# Texts that match a regular expression

Names and numerals are given by regular expressions over a few classes of characters.  This file has
the classes (`oneOf`, `between`) with what their repetition matches (`mem_star_oneOf`), and the
numerals: a text is read as an integer exactly if it matches `-?[0-9]+`, and it is read as the
integer that its digits denote in base ten (`parseInt?_eq_some_iff`).
-/

namespace ProvableRecord

namespace Text

open RegularExpression

variable {cs w : List Char} {P : RegularExpression Char}

/-! ## Classes of characters -/

/-- The expression for one character of a class. -/
def oneOf (cs : List Char) : RegularExpression Char := (cs.map char).sum

/-- The characters from the first to the last. -/
def between (first last : Char) : List Char :=
  (List.range' first.toNat (last.toNat + 1 - first.toNat)).map Char.ofNat

/-- The letters `A` to `Z` and `a` to `z`. -/
def letters : List Char := between 'A' 'Z' ++ between 'a' 'z'

/-- The figures `0` to `9`. -/
def figures : List Char := between '0' '9'

theorem mem_oneOf : w ∈ (oneOf cs).matches' ↔ ∃ c ∈ cs, w = [c] := by
  induction cs with
  | nil => simp [oneOf]
  | cons c cs ih =>
    rw [oneOf, List.map_cons, List.sum_cons, matches'_add, Language.mem_add, matches'_char,
      ← oneOf, ih, List.exists_mem_cons_iff]
    rfl

theorem mem_oneOf_mul :
    w ∈ (oneOf cs * P).matches' ↔ ∃ c w', w = c :: w' ∧ c ∈ cs ∧ w' ∈ P.matches' := by
  rw [matches'_mul, Language.mem_mul]
  constructor
  · rintro ⟨u, hu, w', hw', rfl⟩
    obtain ⟨c, hc, rfl⟩ := mem_oneOf.mp hu
    exact ⟨c, w', rfl, hc, hw'⟩
  · rintro ⟨c, w', rfl, hc, hw'⟩
    exact ⟨[c], mem_oneOf.mpr ⟨c, hc, rfl⟩, w', hw', rfl⟩

/-- **The repetition of a class** matches the texts of its characters. -/
theorem mem_star_oneOf : w ∈ (oneOf cs).star.matches' ↔ ∀ c ∈ w, c ∈ cs := by
  rw [matches'_star, Language.mem_kstar]
  constructor
  · rintro ⟨ws, rfl, hws⟩ c hc
    obtain ⟨u, hu, hcu⟩ := List.mem_flatten.mp hc
    obtain ⟨d, hd, rfl⟩ := mem_oneOf.mp (hws u hu)
    rw [List.mem_singleton.mp hcu]
    exact hd
  · intro h
    refine ⟨w.map fun c => [c], (List.flatMap_singleton' w).symm, ?_⟩
    intro u hu
    obtain ⟨c, hc, rfl⟩ := List.mem_map.mp hu
    exact mem_oneOf.mpr ⟨c, h c hc, rfl⟩

/-- Characters between two that come before the surrogates. -/
theorem mem_between {a b c : Char} (hb : b.toNat < 0xd800) : c ∈ between a b ↔ a ≤ c ∧ c ≤ b := by
  have hle : ∀ {x y : Char}, x ≤ y ↔ x.toNat ≤ y.toNat := Iff.rfl
  rw [between, List.mem_map, hle, hle]
  constructor
  · rintro ⟨n, hn, rfl⟩
    rw [List.mem_range'_1] at hn
    have hvalid : n.isValidChar := .inl (by omega)
    have hn' : (Char.ofNat n).toNat = n := by
      rw [Char.ofNat, dif_pos hvalid]
      rfl
    omega
  · rintro ⟨hac, hcb⟩
    exact ⟨c.toNat, List.mem_range'_1.mpr (by omega), Char.ofNat_toNat c⟩

theorem mem_letters {c : Char} : c ∈ letters ↔ c.isAlpha = true := by
  rw [letters, List.mem_append, mem_between (by decide), mem_between (by decide)]
  unfold Char.isAlpha Char.isUpper Char.isLower
  simp only [Bool.or_eq_true, Bool.and_eq_true, decide_eq_true_eq]
  rfl

theorem mem_figures {c : Char} : c ∈ figures ↔ c.isDigit = true := by
  rw [figures, mem_between (by decide)]
  unfold Char.isDigit
  simp only [Bool.and_eq_true, decide_eq_true_eq]
  rfl

end Text

namespace Decimal

open Text RegularExpression

variable {s : String} {w : List Char}

/-! ## Numerals -/

/-- The expression `[0-9]+`. -/
def digitsForm : RegularExpression Char := oneOf figures * (oneOf figures).star

/-- The expression `-?[0-9]+`. -/
def numeralForm : RegularExpression Char := (1 + char '-') * digitsForm

/-- The number that digits denote in base ten, the highest first. -/
def digitsValue (ds : List Char) : ℕ :=
  Nat.ofDigits 10 (ds.reverse.map fun d => d.toNat - '0'.toNat)

/-- The integer that a numeral denotes. -/
def numeralValue : List Char → ℤ
  | '-' :: ds => -digitsValue ds
  | ds => digitsValue ds

theorem value_eq_digitsValue (ds : List Char) : value ds = digitsValue ds := by
  induction ds using List.reverseRecOn with
  | nil => rfl
  | append_singleton ds d ih =>
    rw [value_concat, ih, digitsValue, digitsValue, List.reverse_concat, List.map_cons,
      Nat.ofDigits_cons, Nat.add_comm]
    rfl

theorem mem_digitsForm : w ∈ digitsForm.matches' ↔ w ≠ [] ∧ ∀ c ∈ w, c.isDigit = true := by
  rw [digitsForm, mem_oneOf_mul]
  simp only [mem_star_oneOf, mem_figures]
  cases w with
  | nil => simp
  | cons c w => simp

theorem mem_numeralForm :
    w ∈ numeralForm.matches'
      ↔ w ∈ digitsForm.matches' ∨ ∃ ds, w = '-' :: ds ∧ ds ∈ digitsForm.matches' := by
  rw [numeralForm, matches'_mul, matches'_add, matches'_epsilon, matches'_char, Language.mem_mul]
  constructor
  · rintro ⟨sign, hsign, ds, hds, rfl⟩
    rcases (Language.mem_add _ _ _).mp hsign with rfl | rfl
    · exact .inl hds
    · exact .inr ⟨ds, rfl, hds⟩
  · rintro (hw | ⟨ds, rfl, hds⟩)
    · exact ⟨[], .inl rfl, w, hw, rfl⟩
    · exact ⟨['-'], .inr rfl, ds, hds, rfl⟩

theorem parse?_eq_some_iff {n : ℕ} :
    parse? s = some n ↔ s.toList ∈ digitsForm.matches' ∧ digitsValue s.toList = n := by
  rw [mem_digitsForm, parse?, value_eq_digitsValue]
  simp only [List.all_eq_true]
  split
  · next h => rw [and_iff_right h, Option.some_inj]
  · next h => exact iff_of_false (by simp) fun h' => h h'.1

/-- **A text is read as the integer that it denotes**, if it is a numeral. -/
theorem parseInt?_eq_some_iff {n : ℤ} :
    parseInt? s = some n ↔ s.toList ∈ numeralForm.matches' ∧ numeralValue s.toList = n := by
  rw [mem_numeralForm, parseInt?]
  split
  · next ds hs =>
    have hdigits : '-' :: ds ∉ digitsForm.matches' := by
      rw [mem_digitsForm]
      exact fun h => absurd (h.2 '-' List.mem_cons_self) (by decide)
    rw [hs, or_iff_right hdigits, Option.map_eq_some_iff]
    simp only [Option.bind_eq_bind, Option.bind_eq_some_iff, Option.pure_def, Option.some_inj,
      parse?_eq_some_iff, String.toList_ofList, List.cons.injEq, true_and]
    constructor
    · rintro ⟨_, ⟨_, ⟨hds, rfl⟩, rfl⟩, rfl⟩
      exact ⟨⟨ds, rfl, hds⟩, rfl⟩
    · rintro ⟨⟨ds', rfl, hds⟩, rfl⟩
      exact ⟨_, ⟨_, ⟨hds, rfl⟩, rfl⟩, rfl⟩
  · next hs =>
    have hsign : ¬ ∃ ds, s.toList = '-' :: ds ∧ ds ∈ digitsForm.matches' := by
      rintro ⟨ds, h, -⟩
      exact hs ds h
    have hvalue : numeralValue s.toList = digitsValue s.toList := by
      unfold numeralValue
      split
      · next ds h => exact absurd h (hs ds)
      · rfl
    rw [or_iff_left hsign, hvalue, Option.map_eq_some_iff]
    simp only [Option.bind_eq_bind, Option.bind_eq_some_iff, Option.pure_def, Option.some_inj,
      parse?_eq_some_iff]
    constructor
    · rintro ⟨_, ⟨_, ⟨hds, rfl⟩, rfl⟩, rfl⟩
      exact ⟨hds, rfl⟩
    · rintro ⟨hds, rfl⟩
      exact ⟨_, ⟨_, ⟨hds, rfl⟩, rfl⟩, rfl⟩

end Decimal

end ProvableRecord
