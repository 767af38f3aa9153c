import Mathlib.Data.List.TakeWhile
import Mathlib.Tactic.SplitIfs
import ProvableRecord.Json.Printer
import ProvableRecord.Json.Reader
import ProvableRecord.Proofs.Text.Decimal

/-!
# Tokens are read back

Every character of a string is written in a form that reads as this character and does not begin
with a quote, so reading the written characters gives the string (`readString_writeString`).  The
numeral of an integer has no fraction and no exponent, provided that what follows it does not
continue it (`EndsValue`), so it is read as the integer that it was written for
(`readNumber_writeNumber`).
-/

namespace ProvableRecord.Json

/-! ## Blanks -/

theorem skipBlanks_cons_of_not_blank {c : Char} {s : List Char} (h : isBlank c = false) :
    skipBlanks (c :: s) = c :: s :=
  List.dropWhile_cons_of_neg (by rw [h]; exact Bool.false_ne_true)

theorem skipBlanks_append {blanks : List Char} (h : ∀ c ∈ blanks, isBlank c = true)
    (s : List Char) : skipBlanks (blanks ++ s) = skipBlanks s :=
  List.dropWhile_append_of_pos h

theorem skipBlanks_eq_nil {blanks : List Char} (h : ∀ c ∈ blanks, isBlank c = true) :
    skipBlanks blanks = [] :=
  List.dropWhile_eq_nil_iff.mpr h

/-! ## Strings -/

/-- The number of a control character from its two last digits. -/
theorem hexUnit?_control : ∀ {n : ℕ}, n < 0x20 →
    hexUnit? '0' '0' (Text.Quoted.hexDigit (n / 16)) (Text.Quoted.hexDigit (n % 16)) = some n := by
  decide

theorem readStringChar_numberedEscape {c : Char} (h : c.toNat < 0x20) (s : List Char) :
    readStringChar (numberedEscape c ++ s) = some (c, s) := by
  have hlow : isLowHalf c.toNat = false := by
    rw [isLowHalf, Bool.and_eq_false_iff, decide_eq_false_iff_not]
    exact .inl (by omega)
  have hhigh : isHighHalf c.toNat = false := by
    rw [isHighHalf, Bool.and_eq_false_iff, decide_eq_false_iff_not]
    exact .inl (by omega)
  show readNumberedEscape ('0' :: '0' :: Text.Quoted.hexDigit (c.toNat / 16) ::
    Text.Quoted.hexDigit (c.toNat % 16) :: s) = _
  simp only [readNumberedEscape, hexUnit?_control h, hlow, hhigh, Option.bind_eq_bind,
    Option.bind_some, Bool.false_eq_true, if_false, Char.ofNat_toNat]

/-- **A character is read back** from its written form. -/
theorem readStringChar_writeChar (c : Char) (s : List Char) :
    readStringChar (writeChar c ++ s) = some (c, s) := by
  rw [writeChar]
  split_ifs with hquote hslash hb hf hn hr ht hcontrol
  -- the escapes of one letter
  iterate 7
    subst_vars
    rfl
  · exact readStringChar_numberedEscape hcontrol s
  · show readStringChar (c :: s) = _
    unfold readStringChar
    split
    · next heq => exact absurd (List.cons.inj heq).1 hslash
    · next heq => exact absurd (List.cons.inj heq).1 hslash
    · next heq =>
      obtain ⟨rfl, rfl⟩ := List.cons.inj heq
      rw [if_neg (by simp only [hcontrol, hslash, hquote, or_self, not_false_eq_true])]
    · next heq => cases heq

/-- A character in front of characters that are read. -/
theorem readStringRest_succ {fuel : ℕ} {c : Char} {cs s s' rest : List Char}
    (hc : readStringChar s = some (c, s')) (hcs : readStringRest fuel s' = some (cs, rest)) :
    readStringRest (fuel + 1) s = some (c :: cs, rest) := by
  rw [readStringRest, hc]
  · show (readStringRest fuel s').bind _ = _
    rw [hcs]
    rfl
  · -- no character begins with a quote
    rintro s₀ rfl
    cases hc

theorem length_writeChar_pos (c : Char) : 0 < (writeChar c).length := by
  rw [writeChar]
  split_ifs <;> exact Nat.succ_pos _

theorem readStringRest_flatMap (cs rest : List Char) {fuel : ℕ}
    (h : (cs.flatMap writeChar).length < fuel) :
    readStringRest fuel (cs.flatMap writeChar ++ '"' :: rest) = some (cs, rest) := by
  induction cs generalizing fuel with
  | nil =>
    obtain ⟨fuel, rfl⟩ := Nat.exists_eq_succ_of_ne_zero (Nat.ne_of_gt h)
    rfl
  | cons c cs ih =>
    have hpos := length_writeChar_pos c
    rw [List.flatMap_cons, List.length_append] at h
    obtain ⟨fuel, rfl⟩ : ∃ fuel', fuel = fuel' + 1 := ⟨fuel - 1, by omega⟩
    rw [List.flatMap_cons, List.append_assoc]
    exact readStringRest_succ (readStringChar_writeChar c _) (ih (by omega))

theorem writeString_append (s : String) (rest : List Char) :
    writeString s ++ rest = '"' :: (s.toList.flatMap writeChar ++ '"' :: rest) := by
  rw [writeString, List.append_assoc]
  rfl

theorem length_writeString (s : String) :
    (writeString s).length = (s.toList.flatMap writeChar).length + 2 := by
  rw [writeString, List.length_append, List.length_cons, List.length_singleton]

/-- **A string is read back.** -/
theorem readString_writeString (s : String) (rest : List Char) {fuel : ℕ}
    (h : (writeString s).length ≤ fuel + 1) :
    readString fuel (s.toList.flatMap writeChar ++ '"' :: rest) = some (s, rest) := by
  rw [length_writeString] at h
  rw [readString, readStringRest_flatMap _ _ (by omega), Option.map_some, String.ofList_toList]

/-! ## Numbers -/

/-- A value that is followed by this text ends there: what follows is nothing, a blank, a comma or a
closing bracket. -/
def EndsValue (s : List Char) : Prop :=
  ∀ c ∈ s.head?, isBlank c = true ∨ c = ',' ∨ c = ']' ∨ c = '\x7d'

theorem endsValue_nil : EndsValue [] := by
  intro c hc
  cases hc

/-- A comma or a closing bracket ends a value. -/
theorem endsValue_cons {c : Char} {s : List Char}
    (h : (c == ',' || c == ']' || c == '\x7d') = true) : EndsValue (c :: s) := by
  intro c' hc'
  rw [List.head?_cons, Option.mem_some] at hc'
  subst hc'
  simp only [Bool.or_eq_true, beq_iff_eq, or_assoc] at h
  exact .inr h

theorem EndsValue.append {blanks s : List Char} (hblanks : ∀ c ∈ blanks, isBlank c = true)
    (h : EndsValue s) : EndsValue (blanks ++ s) := by
  cases blanks with
  | nil => exact h
  | cons b blanks =>
    intro c hc
    rw [List.cons_append, List.head?_cons, Option.mem_some] at hc
    rw [← hc]
    exact .inl (hblanks b List.mem_cons_self)

theorem endsValue_of_blank {blanks : List Char} (h : ∀ c ∈ blanks, isBlank c = true) :
    EndsValue blanks := by
  rw [← List.append_nil blanks]
  exact EndsValue.append h endsValue_nil

/-- What ends a value does not continue a number. -/
theorem EndsValue.not_numeral {c : Char} {s : List Char} (h : EndsValue (c :: s)) :
    c.isDigit = false ∧ c ≠ '.' ∧ ¬ (c = 'e' ∨ c = 'E') := by
  have hc := h c rfl
  simp only [isBlank, Bool.or_eq_true, decide_eq_true_eq] at hc
  rcases hc with ((((rfl | rfl) | rfl) | rfl) | rfl | rfl | rfl) <;> decide

theorem takeWhile_digits {n : ℕ} {rest : List Char} (h : EndsValue rest) :
    (Decimal.digits n ++ rest).takeWhile Char.isDigit = Decimal.digits n := by
  rw [List.takeWhile_append_of_pos fun _ => Decimal.isDigit_of_mem_digits]
  cases rest with
  | nil => exact List.append_nil _
  | cons c rest =>
    rw [List.takeWhile_cons_of_neg (by rw [h.not_numeral.1]; exact Bool.false_ne_true),
      List.append_nil]

theorem dropWhile_digits {n : ℕ} {rest : List Char} (h : EndsValue rest) :
    (Decimal.digits n ++ rest).dropWhile Char.isDigit = rest := by
  rw [List.dropWhile_append_of_pos fun _ => Decimal.isDigit_of_mem_digits]
  cases rest with
  | nil => rfl
  | cons c rest =>
    exact List.dropWhile_cons_of_neg (by rw [h.not_numeral.1]; exact Bool.false_ne_true)

theorem scanWhole_digits (n : ℕ) {rest : List Char} (h : EndsValue rest) :
    Numeral.scanWhole (Decimal.digits n ++ rest) = some (Decimal.digits n, rest) := by
  unfold Numeral.scanWhole
  rw [takeWhile_digits h, dropWhile_digits h]
  split
  · next heq => exact absurd heq (Decimal.digits_ne_nil n)
  · next heq =>
    rw [heq]
    rfl
  · -- only zero is written with a leading zero
    next hne heq =>
    by_cases hn : n = 0
    · subst hn
      exact absurd (List.cons.inj heq).2.symm hne
    · exact absurd (congrArg List.head? heq) (Decimal.head_digits_ne_zero hn)
  · rfl

theorem scanFraction_endsValue {rest : List Char} (h : EndsValue rest) :
    Numeral.scanFraction rest = some (none, rest) := by
  unfold Numeral.scanFraction
  split
  · exact absurd rfl h.not_numeral.2.1
  · rfl

theorem scanExponent_endsValue {rest : List Char} (h : EndsValue rest) :
    Numeral.scanExponent rest = some (none, rest) := by
  cases rest with
  | nil => rfl
  | cons c rest =>
    rw [Numeral.scanExponent, if_neg h.not_numeral.2.2]

theorem scan_digits (n : ℕ) {rest : List Char} (h : EndsValue rest) :
    Numeral.scan (Decimal.digits n ++ rest)
      = some (⟨false, Decimal.digits n, none, none⟩, rest) := by
  have hwhole := scanWhole_digits n h
  obtain ⟨c, cs, hcons, hc⟩ := Decimal.exists_digits_eq_cons n
  have hminus := Decimal.ne_minus_of_isDigit hc
  rw [hcons, List.cons_append] at hwhole ⊢
  unfold Numeral.scan
  split
  next heq =>
    split at heq
    · next hcs => exact absurd (List.cons.inj hcs).1 hminus
    · cases heq
      simp only [hwhole, scanFraction_endsValue h, scanExponent_endsValue h, Option.bind_eq_bind,
        Option.bind_some]
      rfl

theorem scan_minus_digits (n : ℕ) {rest : List Char} (h : EndsValue rest) :
    Numeral.scan ('-' :: (Decimal.digits n ++ rest))
      = some (⟨true, Decimal.digits n, none, none⟩, rest) := by
  rw [Numeral.scan]
  simp only [scanWhole_digits n h, scanFraction_endsValue h, scanExponent_endsValue h,
    Option.bind_eq_bind, Option.bind_some]
  rfl

/-- A numeral without fraction and exponent denotes its integer. -/
theorem value?_integer {negative : Bool} {whole : List Char} {n : ℤ}
    (hvalue : (if negative then -(Decimal.value whole : ℤ) else Decimal.value whole) = n)
    (fits : -9223372036854775808 ≤ n ∧ n < 18446744073709551616) (h : ¬ (negative ∧ n = 0)) :
    Numeral.value? ⟨negative, whole, none, none⟩ = some (.integer n fits) := by
  subst hvalue
  have hinteger : Numeral.integer? ⟨negative, whole, none, none⟩ = some (.integer _ fits) :=
    (dif_pos fits).trans (if_neg h)
  rw [Numeral.value?, hinteger]

theorem value?_digits {n : ℤ} (fits : -9223372036854775808 ≤ n ∧ n < 18446744073709551616)
    (h : 0 ≤ n) :
    Numeral.value? ⟨false, Decimal.digits n.toNat, none, none⟩ = some (.integer n fits) := by
  refine value?_integer ?_ fits (fun hzero => Bool.false_ne_true hzero.1)
  rw [if_neg Bool.false_ne_true, Decimal.value_digits, Int.toNat_of_nonneg h]

theorem value?_minus_digits {n : ℤ}
    (fits : -9223372036854775808 ≤ n ∧ n < 18446744073709551616) (h : n < 0) :
    Numeral.value? ⟨true, Decimal.digits n.natAbs, none, none⟩ = some (.integer n fits) := by
  refine value?_integer ?_ fits (fun hzero => Int.ne_of_lt h hzero.2)
  rw [if_pos rfl, Decimal.value_digits, Int.ofNat_natAbs_of_nonpos (Int.le_of_lt h), Int.neg_neg]

theorem readNumber_of_scan {s rest : List Char} {numeral : Numeral} {n : JsonNumber}
    (hscan : Numeral.scan s = some (numeral, rest)) (hvalue : numeral.value? = some n) :
    readNumber s = some (n, rest) := by
  rw [readNumber, hscan]
  show numeral.value?.bind _ = _
  rw [hvalue]
  rfl

/-- **The number of an integer is read back.** -/
theorem readNumber_writeNumber {n : ℤ}
    (fits : -9223372036854775808 ≤ n ∧ n < 18446744073709551616) {rest : List Char}
    (h : EndsValue rest) :
    readNumber (writeNumber (.integer n fits) ++ rest) = some (.integer n fits, rest) := by
  rw [writeNumber, Decimal.ofInt]
  split
  · next hneg =>
    rw [String.toList_ofList, List.cons_append]
    exact readNumber_of_scan (scan_minus_digits n.natAbs h) (value?_minus_digits fits hneg)
  · next hneg =>
    rw [Decimal.ofNat, String.toList_ofList]
    exact readNumber_of_scan (scan_digits n.toNat h) (value?_digits fits (Int.not_lt.mp hneg))

end ProvableRecord.Json
