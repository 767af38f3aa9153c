import Mathlib.Data.Nat.Notation
import ProvableRecord.Text.Hex

/-!
# Hexadecimal text denotes bytes in one way

A text of hexadecimal digits renders the bytes whose lowercase digits it has, whatever the case of
its letters (`Hex.Renders`).  A character has the value of the lowercase digit that it is but for
its case (`digitValue?_eq_some_iff`), so reading pairs of digits accepts the renderings and nothing
else (`decode?_eq_some_iff`).
-/

namespace ProvableRecord

open Text.Quoted (hexDigit)

theorem toNat_toLower (c : Char) :
    c.toLower.toNat = if 65 ≤ c.toNat ∧ c.toNat ≤ 90 then c.toNat + 32 else c.toNat := by
  have hupper : (c.val ≥ 'A'.val ∧ c.val ≤ 'Z'.val) ↔ 65 ≤ c.toNat ∧ c.toNat ≤ 90 := by
    simp only [ge_iff_le, UInt32.le_iff_toNat_le]
    exact Iff.rfl
  unfold Char.toLower
  split
  · next h =>
    have hc := hupper.mp h
    rw [if_pos hc]
    show (c.val + 32).toNat = c.val.toNat + 32
    rw [UInt32.toNat_add]
    have hle : c.val.toNat ≤ 90 := hc.2
    show (c.val.toNat + 32) % 4294967296 = _
    omega
  · next h => rw [if_neg fun hc => h (hupper.mpr hc)]

namespace Hex

/-- The characters are the digits of the bytes, each letter in either case. -/
def Renders (cs : List Char) (bs : List UInt8) : Prop :=
  cs.map Char.toLower = bs.flatMap encodeByte

instance (cs : List Char) (bs : List UInt8) : Decidable (Renders cs bs) :=
  inferInstanceAs (Decidable (_ = _))

/-! ## One digit -/

theorem toNat_hexDigit : ∀ {d : ℕ}, d < 16 →
    (hexDigit d).toNat = if d < 10 then 48 + d else 87 + d := by
  decide

/-- **A digit has the value of the lowercase digit that it is but for its case.** -/
theorem digitValue?_eq_some_iff {c : Char} {d : ℕ} :
    digitValue? c = some d ↔ d < 16 ∧ c.toLower = hexDigit d := by
  have hlow : ∀ {a b : Char}, a ≤ b ↔ a.toNat ≤ b.toNat := UInt32.le_iff_toNat_le
  simp only [digitValue?, hlow, Char.reduceToNat]
  constructor
  · intro h
    have hd : d < 16 ∧ c.toLower.toNat = if d < 10 then 48 + d else 87 + d := by
      rw [toNat_toLower]
      grind
    exact ⟨hd.1, Char.toNat_inj.mp (hd.2.trans (toNat_hexDigit hd.1).symm)⟩
  · rintro ⟨hd, hc⟩
    have hnat := congrArg Char.toNat hc
    rw [toNat_toLower, toNat_hexDigit hd] at hnat
    grind

/-- Two digits are those of a byte if they have the values of its halves. -/
theorem toLower_pair_iff {a b : Char} {byte : UInt8} :
    [a.toLower, b.toLower] = encodeByte byte
      ↔ digitValue? a = some (byte.toNat / 16) ∧ digitValue? b = some (byte.toNat % 16) := by
  have hbyte := byte.toNat_lt
  have hhigh : byte.toNat / 16 < 16 := by omega
  have hlow : byte.toNat % 16 < 16 := by omega
  simp only [encodeByte, digitValue?_eq_some_iff, hhigh, hlow, true_and, List.cons.injEq, and_true]

/-! ## Rows of digits -/

theorem Renders.length_eq {cs : List Char} {bs : List UInt8} (h : Renders cs bs) :
    cs.length = 2 * bs.length := by
  have hlength := congrArg List.length h
  have hpair : ∀ bs : List UInt8, (bs.flatMap encodeByte).length = 2 * bs.length := by
    intro bs
    induction bs with
    | nil => rfl
    | cons b bs ih =>
      rw [List.flatMap_cons, List.length_append, ih, List.length_cons]
      show 2 + _ = _
      omega
  rwa [List.length_map, hpair] at hlength

theorem renders_nil_iff {bs : List UInt8} : Renders [] bs ↔ bs = [] := by
  constructor
  · intro h
    have hlength := h.length_eq
    rw [List.length_nil] at hlength
    exact List.eq_nil_of_length_eq_zero (by omega)
  · rintro rfl
    rfl

theorem renders_cons_cons_iff {a b : Char} {rest : List Char} {bs : List UInt8} :
    Renders (a :: b :: rest) bs
      ↔ ∃ byte bytes, bs = byte :: bytes ∧ [a.toLower, b.toLower] = encodeByte byte
        ∧ Renders rest bytes := by
  cases bs with
  | nil =>
    refine iff_of_false (fun h => ?_) (by rintro ⟨_, _, ⟨⟩, -⟩)
    have hlength := h.length_eq
    simp only [List.length_cons, List.length_nil] at hlength
    omega
  | cons byte bytes =>
    have hpair : [a.toLower, b.toLower].length = (encodeByte byte).length := rfl
    have happend : Renders (a :: b :: rest) (byte :: bytes)
        ↔ [a.toLower, b.toLower] = encodeByte byte ∧ Renders rest bytes :=
      List.append_eq_append_iff_of_size_eq_left hpair
    rw [happend]
    constructor
    · intro h
      exact ⟨byte, bytes, rfl, h⟩
    · rintro ⟨_, _, heq, h⟩
      cases heq
      exact h

theorem decode?_cons_cons_iff {a b : Char} {rest : List Char} {bs : List UInt8} :
    decode? (a :: b :: rest) = some bs
      ↔ ∃ byte bytes, bs = byte :: bytes ∧ [a.toLower, b.toLower] = encodeByte byte
        ∧ decode? rest = some bytes := by
  simp only [decode?, Option.bind_eq_bind, Option.bind_eq_some_iff, toLower_pair_iff]
  constructor
  · rintro ⟨high, hhigh, low, hlow, bytes, hrest, ⟨⟩⟩
    have hhigh16 := (digitValue?_eq_some_iff.mp hhigh).1
    have hlow16 := (digitValue?_eq_some_iff.mp hlow).1
    refine ⟨_, bytes, rfl, ?_, hrest⟩
    have hbyte : (UInt8.ofNat (16 * high + low)).toNat = 16 * high + low :=
      UInt8.toNat_ofNat_of_lt (show _ < 256 by omega)
    rw [hbyte, hhigh, hlow, Option.some_inj, Option.some_inj]
    omega
  · rintro ⟨byte, bytes, rfl, ⟨hhigh, hlow⟩, hrest⟩
    refine ⟨_, hhigh, _, hlow, bytes, hrest, ?_⟩
    rw [Nat.div_add_mod, UInt8.ofNat_toNat]
    rfl

/-- **Reading accepts the renderings of bytes and nothing else.** -/
theorem decode?_eq_some_iff {cs : List Char} {bs : List UInt8} :
    decode? cs = some bs ↔ Renders cs bs := by
  induction cs using decode?.induct generalizing bs with
  | case1 =>
    rw [decode?, Option.some_inj, renders_nil_iff]
    exact eq_comm
  | case2 c =>
    refine iff_of_false (by rintro ⟨⟩) fun h => ?_
    have hlength := h.length_eq
    rw [List.length_singleton] at hlength
    omega
  | case3 a b rest ih => simp only [decode?_cons_cons_iff, renders_cons_cons_iff, ih]

/-- A text renders one row of bytes. -/
theorem Renders.unique {cs : List Char} {bs bs' : List UInt8} (h : Renders cs bs)
    (h' : Renders cs bs') : bs = bs' :=
  Option.some_inj.mp ((decode?_eq_some_iff.mpr h).symm.trans (decode?_eq_some_iff.mpr h'))

theorem Renders.isDigit_of_mem {cs : List Char} {bs : List UInt8} (h : Renders cs bs) {c : Char}
    (hc : c ∈ cs) : isDigit c = true := by
  have hmem : c.toLower ∈ bs.flatMap encodeByte := h ▸ List.mem_map_of_mem hc
  obtain ⟨b, -, hdigit⟩ := List.mem_flatMap.mp hmem
  have hb := b.toNat_lt
  rw [isDigit, Option.isSome_iff_exists]
  simp only [encodeByte, List.mem_cons, List.not_mem_nil, or_false] at hdigit
  rcases hdigit with hhigh | hlow
  · exact ⟨_, digitValue?_eq_some_iff.mpr ⟨by omega, hhigh⟩⟩
  · exact ⟨_, digitValue?_eq_some_iff.mpr ⟨by omega, hlow⟩⟩

end Hex

end ProvableRecord
