import Mathlib.Data.List.Basic
import ProvableRecord.Record.Digest

/-!
# Texts in order of their bytes

Texts are compared character by character.  In UTF-8 a character of a greater code point has greater
bytes: its first byte grows with the number of bytes that it takes, and the bytes that follow are
its digits in base 64, the highest first.  So the order of texts is the order of their bytes
(`textBytes_lt_iff`).
-/

namespace ProvableRecord

/-! ## One character -/

/-- Rows of bytes are compared at their first difference. -/
theorem cons_ofNat_lt {x y : ℕ} {s t : List UInt8} (hy : y < 256) (hle : x ≤ y)
    (hrest : x = y → s < t) : UInt8.ofNat x :: s < UInt8.ofNat y :: t := by
  have hx' : (UInt8.ofNat x).toNat = x := UInt8.toNat_ofNat_of_lt (Nat.lt_of_le_of_lt hle hy)
  have hy' : (UInt8.ofNat y).toNat = y := UInt8.toNat_ofNat_of_lt hy
  rw [List.cons_lt_cons_iff, UInt8.lt_iff_toNat_lt, ← UInt8.toNat_inj, hx', hy']
  rcases Nat.lt_or_eq_of_le hle with hlt | heq
  · exact .inl hlt
  · exact .inr ⟨heq, hrest heq⟩

/-- **The bytes of a greater character are greater**, whatever follows them. -/
theorem utf8EncodeChar_append_lt {c d : Char} (h : c < d) (s t : List UInt8) :
    String.utf8EncodeChar c ++ s < String.utf8EncodeChar d ++ t := by
  have hlt : c.val.toNat < d.val.toNat := h
  have hd : d.val.toNat < 0x110000 := d.valid.elim (fun h => by omega) And.right
  unfold String.utf8EncodeChar
  generalize c.val.toNat = v at hlt ⊢
  generalize d.val.toNat = w at hlt hd ⊢
  dsimp only
  -- one case for each pair of lengths; byte after byte the greater character is not behind
  repeat' split
  all_goals try omega
  all_goals
    simp only [List.cons_append, List.nil_append]
    repeat
      refine cons_ofNat_lt (by omega) (by omega) fun hdigit => ?_
      try omega

/-! ## Texts -/

theorem utf8EncodeChar_ne_nil (c : Char) : String.utf8EncodeChar c ≠ [] := by
  unfold String.utf8EncodeChar
  dsimp only
  repeat' split
  all_goals exact List.cons_ne_nil _ _

theorem flatMap_utf8EncodeChar_lt {cs ds : List Char} (h : cs < ds) :
    cs.flatMap String.utf8EncodeChar < ds.flatMap String.utf8EncodeChar := by
  induction cs generalizing ds with
  | nil =>
    cases ds with
    | nil => exact absurd h (List.lt_irrefl _)
    | cons d ds =>
      obtain ⟨b, bs, hbytes⟩ := List.exists_cons_of_ne_nil (utf8EncodeChar_ne_nil d)
      rw [List.flatMap_cons, hbytes]
      exact List.nil_lt_cons _ _
  | cons c cs ih =>
    cases ds with
    | nil => exact absurd h (List.not_lt_nil _)
    | cons d ds =>
      rw [List.flatMap_cons, List.flatMap_cons]
      rcases List.cons_lt_cons_iff.mp h with hlt | ⟨rfl, hrest⟩
      · exact utf8EncodeChar_append_lt hlt _ _
      · exact List.append_left_lt (ih hrest)

theorem textBytes_eq (s : String) : textBytes s = s.toList.flatMap String.utf8EncodeChar := by
  rw [textBytes, String.toUTF8_eq_toByteArray, ← String.utf8Encode_toList, List.utf8Encode,
    List.data_toByteArray, List.toList_toArray]

theorem textBytes_lt {a b : String} (h : a < b) : textBytes a < textBytes b := by
  rw [textBytes_eq, textBytes_eq]
  exact flatMap_utf8EncodeChar_lt (String.lt_iff.mp h)

/-- **The order of texts is the order of their bytes.** -/
theorem textBytes_lt_iff {a b : String} : textBytes a < textBytes b ↔ a < b := by
  refine ⟨fun h => ?_, textBytes_lt⟩
  rcases Std.lt_trichotomy a b with hlt | rfl | hgt
  · exact hlt
  · exact absurd h (List.lt_irrefl _)
  · exact absurd h (List.lt_asymm (textBytes_lt hgt))

end ProvableRecord
