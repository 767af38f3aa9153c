import Mathlib.Algebra.Order.Ring.Int
import Mathlib.Data.Nat.Log
import ProvableRecord.Proofs.Doubling
import ProvableRecord.Record.Capacity

/-!
# Depth and capacity form a Galois connection

As numbers, the depth for `n` entries is one more than the logarithm of `n` to base two, rounded up
(`toNat_depthFor`), and the entries for depth `d` are `2 ^ (d - 1)`, cut off at the greatest word
(`toNat_entriesFor`).  So `n ≤ entriesFor d` and `depthFor n ≤ d` both say that `n ≤ 2 ^ (d - 1)`,
and cutting off does not matter, as `n` is a word itself (`le_entriesFor_iff`).

Operations on words wrap around.  `depthFor?` and `entriesFor?` are the same formulas over
operations that stop where a number is no word (`word?`) or a shift loses its one (`shiftedOne?`),
with the digits counted from the other end, as what the zeros in front leave of the width.  They
give the same words for all arguments (`depthFor?_eq`, `entriesFor?_eq`), so nothing ever wraps.
-/

namespace ProvableRecord.Capacity

/-! ## Formulas that stop -/

/-- The word that holds exactly this number. -/
def word? (width : ℕ) (z : ℤ) : Option (BitVec width) :=
  if 0 ≤ z ∧ z < 2 ^ width then some (.ofInt width z) else none

/-- One, shifted to the left by fewer places than a word has. -/
def shiftedOne? (places : BitVec 32) : Option UInt64 :=
  if places.toNat < 64 then some (1 <<< UInt64.ofNat places.toNat) else none

/-- The depth of the tree of a number of entries. -/
def depthFor? (entries : UInt64) : Option UInt64 :=
  if entries = 0 then some 0
  else do
    let last ← word? 64 (entries.toNat - 1)
    let digits ← word? 32 (64 - last.clz.toNat)
    let depth ← word? 64 (1 + digits.toNat)
    return .ofBitVec depth

/-- The greatest number of entries for a depth.  A number of places that is too large for a shift
does not stop the formula: it is where the capacity is cut off. -/
def entriesFor? (depth : UInt64) : Option UInt64 :=
  if depth = 0 then some 0
  else do
    let last ← word? 64 (depth.toNat - 1)
    return (word? 32 last.toNat >>= shiftedOne?).getD 0xffffffffffffffff

/-! ## Words and numbers -/

theorem exists_word? {width : ℕ} {z : ℤ} (hnonneg : 0 ≤ z) (hlt : z < 2 ^ width) :
    ∃ x, word? width z = some x ∧ (x.toNat : ℤ) = z := by
  refine ⟨.ofInt width z, if_pos ⟨hnonneg, hlt⟩, ?_⟩
  obtain ⟨m, rfl⟩ := Int.eq_ofNat_of_zero_le hnonneg
  have hm : m < 2 ^ width := by exact_mod_cast hlt
  rw [BitVec.ofInt_natCast, BitVec.toNat_ofNat, Nat.mod_eq_of_lt hm]

theorem word?_eq_none {width : ℕ} {z : ℤ} (h : 2 ^ width ≤ z) : word? width z = none :=
  if_neg fun hz => absurd hz.2 (not_lt.mpr h)

/-- A number of places that does not fit into a short word is too large for a shift as well. -/
theorem bind_shiftedOne? (k : ℕ) :
    (word? 32 k).bind shiftedOne? = if k < 64 then some (1 <<< UInt64.ofNat k) else none := by
  by_cases hshort : k < 2 ^ 32
  · obtain ⟨places, hplaces, htoNat⟩ : ∃ places, word? 32 k = some places ∧ _ :=
      exists_word? (by omega) (by omega)
    rw [hplaces, Option.bind_some, shiftedOne?, Int.natCast_inj.mp htoNat]
  · rw [word?_eq_none (by omega), Option.bind_none, if_neg (by omega)]

theorem toNat_clz_le {width : ℕ} (x : BitVec width) : x.clz.toNat ≤ width := by
  have h : x.clz.toNat ≤ width % 2 ^ width := BitVec.clz_le
  rwa [Nat.mod_eq_of_lt Nat.lt_two_pow_self] at h

/-- **The digits of a number** are what the zeros in front leave of the width of a word. -/
theorem bitLength_toNat {width : ℕ} (x : BitVec width) :
    bitLength x.toNat = width - x.clz.toNat := by
  apply le_antisymm
  · exact bitLength_le_iff.mpr BitVec.toNat_lt_two_pow_sub_clz
  · by_cases hx : x = .ofNat width 0
    · have hclz : x.clz.toNat = width % 2 ^ width :=
        congrArg BitVec.toNat (BitVec.clz_eq_iff_eq_zero.mpr hx)
      rw [Nat.mod_eq_of_lt Nat.lt_two_pow_self] at hclz
      omega
    · -- the first digit after the zeros is a one
      have hwidth : 0 < width := Nat.pos_of_ne_zero fun h0 => hx (BitVec.eq_of_zero_length h0)
      have hdigit := not_lt.mpr (BitVec.two_pow_sub_clz_le_toNat_of_ne_zero hwidth hx)
      rw [← bitLength_le_iff] at hdigit
      omega

/-- The logarithm of a number, rounded up, is the number of digits of its predecessor. -/
theorem clog_eq_bitLength (n : ℕ) : Nat.clog 2 n = bitLength (n - 1) := by
  refine eq_of_forall_ge_iff fun k => ?_
  have hpos := Nat.two_pow_pos k
  rw [Nat.clog_le_iff_le_pow Nat.one_lt_two, bitLength_le_iff]
  omega

variable {n d : UInt64}

theorem toNat_pos (h : n ≠ 0) : 0 < n.toNat :=
  Nat.pos_of_ne_zero fun h0 => h (UInt64.toNat_inj.mp h0)

theorem toNat_sub_one (h : n ≠ 0) : (n - 1).toNat = n.toNat - 1 :=
  UInt64.toNat_sub_of_le n 1 (UInt64.le_iff_toNat_le.mpr (toNat_pos h))

/-! ## The formulas as numbers -/

theorem toNat_depthFor (h : n ≠ 0) : (depthFor n).toNat = 1 + Nat.clog 2 n.toNat := by
  have hle : bitLength (n - 1).toNat ≤ 64 := bitLength_le_iff.mpr (n - 1).toNat_lt
  have hdigits : (UInt64.ofNat (bitLength (n - 1).toNat)).toNat = bitLength (n - 1).toNat :=
    UInt64.toNat_ofNat_of_lt' (hle.trans_lt (by decide))
  have hone : (1 : UInt64).toNat = 1 := rfl
  rw [depthFor, if_neg h, UInt64.toNat_add, hdigits, hone, clog_eq_bitLength, ← toNat_sub_one h]
  exact Nat.mod_eq_of_lt (by omega)

theorem toNat_entriesFor (h : d ≠ 0) :
    (entriesFor d).toNat = min (2 ^ (d.toNat - 1)) (2 ^ 64 - 1) := by
  have hsub := toNat_sub_one h
  rw [entriesFor, if_neg h]
  split
  · next hlt =>
    have hplaces : d.toNat - 1 < 64 := hsub ▸ hlt
    have hpow : 2 ^ (d.toNat - 1) < 2 ^ 64 := Nat.pow_lt_pow_right Nat.one_lt_two hplaces
    have hone : (1 : UInt64).toNat = 1 := rfl
    rw [UInt64.toNat_shiftLeft, hsub, Nat.mod_eq_of_lt hplaces, hone, Nat.one_shiftLeft,
      Nat.mod_eq_of_lt hpow, Nat.min_eq_left (Nat.le_sub_one_of_lt hpow)]
  · next hge =>
    have hplaces : 64 ≤ d.toNat - 1 := hsub ▸ not_lt.mp hge
    have hpow : 2 ^ 64 ≤ 2 ^ (d.toNat - 1) := Nat.pow_le_pow_right Nat.two_pos hplaces
    rw [Nat.min_eq_right ((Nat.sub_le _ 1).trans hpow)]
    rfl

/-- **Entries fit into a depth exactly if their tree is not deeper.** -/
theorem le_entriesFor_iff : n ≤ entriesFor d ↔ depthFor n ≤ d := by
  by_cases hn : n = 0
  · rw [hn]
    exact iff_of_true UInt64.zero_le UInt64.zero_le
  · have hpos := toNat_pos hn
    rw [UInt64.le_iff_toNat_le, UInt64.le_iff_toNat_le, toNat_depthFor hn]
    by_cases hd : d = 0
    · rw [hd]
      exact iff_of_false (Nat.not_le_of_gt hpos) (by simp)
    · have hd' := toNat_pos hd
      have hroom := Nat.clog_le_iff_le_pow Nat.one_lt_two (x := n.toNat) (y := d.toNat - 1)
      -- a word is at most the greatest word
      rw [toNat_entriesFor hd, Nat.le_min, and_iff_left (Nat.le_sub_one_of_lt n.toNat_lt), ← hroom]
      omega

/-! ## Nothing wraps -/

/-- **No operation of the depth leaves the words.** -/
theorem depthFor?_eq (n : UInt64) : depthFor? n = some (depthFor n) := by
  by_cases h : n = 0
  · rw [depthFor?, if_pos h, depthFor, if_pos h]
  · have hpos := toNat_pos h
    have hlt := n.toNat_lt
    obtain ⟨last, hlast, hlastNat⟩ : ∃ last, word? 64 (n.toNat - 1) = some last ∧ _ :=
      exists_word? (by omega) (by omega)
    have hclz := toNat_clz_le last
    obtain ⟨digits, hdigits, hdigitsNat⟩ :
        ∃ digits, word? 32 (64 - last.clz.toNat) = some digits ∧ _ :=
      exists_word? (by omega) (by omega)
    obtain ⟨depth, hdepth, hdepthNat⟩ : ∃ depth, word? 64 (1 + digits.toNat) = some depth ∧ _ :=
      exists_word? (by omega) (by omega)
    have hpred : n.toNat - 1 = last.toNat := by omega
    have heq : UInt64.ofBitVec depth = depthFor n := by
      rw [← UInt64.toNat_inj, toNat_depthFor h, clog_eq_bitLength, hpred, bitLength_toNat last]
      show depth.toNat = _
      omega
    rw [depthFor?, if_neg h, hlast, Option.bind_eq_bind, Option.bind_some, hdigits,
      Option.bind_eq_bind, Option.bind_some, hdepth, Option.bind_some, heq]
    rfl

/-- **No operation of the capacity leaves the words**, and it is cut off where a shift would lose
its one. -/
theorem entriesFor?_eq (d : UInt64) : entriesFor? d = some (entriesFor d) := by
  by_cases h : d = 0
  · rw [entriesFor?, if_pos h, entriesFor, if_pos h]
  · have hpos := toNat_pos h
    have hlt := d.toNat_lt
    obtain ⟨last, hlast, hlastNat⟩ : ∃ last, word? 64 (d.toNat - 1) = some last ∧ _ :=
      exists_word? (by omega) (by omega)
    have hpred : last.toNat = (d - 1).toNat := by
      rw [toNat_sub_one h]
      omega
    have hplaces : d - 1 < 64 ↔ (d - 1).toNat < 64 := UInt64.lt_iff_toNat_lt
    rw [entriesFor?, if_neg h, hlast, Option.bind_eq_bind, Option.bind_some, Option.bind_eq_bind,
      bind_shiftedOne?, hpred, UInt64.ofNat_toNat, entriesFor, if_neg h]
    by_cases hroom : (d - 1).toNat < 64
    · rw [if_pos hroom, if_pos (hplaces.mpr hroom)]
      rfl
    · rw [if_neg hroom, if_neg (mt hplaces.mp hroom)]
      rfl

/-- **Depth and capacity form a Galois connection on words.**  Entries fit into a depth exactly if
the depth for them is at most that one.  This holds for all words, as no operation of the two
formulas wraps around or shifts too far: the depth is one more than the logarithm of the number of
entries, rounded up, and the capacity is a power of two, cut off at the greatest word. -/
theorem galois_words :
    (∀ n d : UInt64, n ≤ entriesFor d ↔ depthFor n ≤ d)
    ∧ (∀ n : UInt64, depthFor? n = some (depthFor n)
      ∧ (depthFor n).toNat = if n = 0 then 0 else 1 + Nat.clog 2 n.toNat)
    ∧ ∀ d : UInt64, entriesFor? d = some (entriesFor d)
      ∧ (entriesFor d).toNat = if d = 0 then 0 else min (2 ^ (d.toNat - 1)) (2 ^ 64 - 1) := by
  refine ⟨fun n d => le_entriesFor_iff, fun n => ⟨depthFor?_eq n, ?_⟩,
    fun d => ⟨entriesFor?_eq d, ?_⟩⟩
  · split
    · next h => rw [h, depthFor, if_pos rfl, UInt64.toNat_zero]
    · next h => exact toNat_depthFor h
  · split
    · next h => rw [h, entriesFor, if_pos rfl, UInt64.toNat_zero]
    · next h => exact toNat_entriesFor h

/-- The capacity is cut off between the depths 64 and 65. -/
example : entriesFor 64 = 0x8000000000000000 ∧ depthFor 0x8000000000000000 = 64
    ∧ entriesFor 65 = 0xffffffffffffffff ∧ depthFor 0x8000000000000001 = 65 := by
  decide

end ProvableRecord.Capacity
