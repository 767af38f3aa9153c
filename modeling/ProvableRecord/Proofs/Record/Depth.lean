import ProvableRecord.Proofs.Record.Capacity
import ProvableRecord.Proofs.Record.Leaves

/-!
# A record is as deep as the formula says

A tree gets its depth leaf by leaf, a row more whenever the old rows have no place for one more
leaf.  The formula computes a depth from the number of entries alone.  The first is the logarithm of
the number of leaves, rounded up (`depth_eq_clog`); there are two leaves for each entry, so this is
one more than the logarithm of the number of entries (`depth_eq`), and so is the second.

What the capacities say about this depth then follows from the Galois connection
(`Capacity.le_entriesFor_iff`): it has room for all entries, and the depth below it has not.
-/

namespace ProvableRecord.Record

variable {r : Record}

/-- Twice as many leaves take one row more. -/
theorem clog_two_mul {n : ℕ} (h : 0 < n) : Nat.clog 2 (2 * n) = 1 + Nat.clog 2 n := by
  have hhalf : (2 * n + 2 - 1) / 2 = n := by omega
  rw [Nat.clog_of_two_le Nat.one_lt_two (by omega), hhalf, Nat.add_comm]

theorem depth_eq (r : Record) : r.depth = 1 + Nat.clog 2 r.size := by
  have hpos : 0 < r.size := r.entries_length_pos
  rw [depth_eq_clog, clog_two_mul hpos]

theorem toNat_ofNat_size (h : r.size < 2 ^ 64) : (UInt64.ofNat r.size).toNat = r.size :=
  UInt64.toNat_ofNat_of_lt' h

theorem toNat_ofNat_depth (h : r.size < 2 ^ 64) : (UInt64.ofNat r.depth).toNat = r.depth :=
  UInt64.toNat_ofNat_of_lt' ((depth_le h).trans_lt (by decide))

/-- **The formula gives the depth of the tree.** -/
theorem depthFor_size (h : r.size < 2 ^ 64) :
    Capacity.depthFor (.ofNat r.size) = .ofNat r.depth := by
  have hsize := toNat_ofNat_size h
  have hne : UInt64.ofNat r.size ≠ 0 := by
    intro h0
    rw [h0] at hsize
    exact r.entries_length_pos.ne hsize
  rw [← UInt64.toNat_inj, Capacity.toNat_depthFor hne, hsize, toNat_ofNat_depth h, depth_eq]

/-- A depth has room for the entries of a record exactly if the tree is not deeper. -/
theorem size_le_entriesFor_iff (h : r.size < 2 ^ 64) {d : UInt64} :
    r.size ≤ (Capacity.entriesFor d).toNat ↔ r.depth ≤ d.toNat := by
  have hgalois : UInt64.ofNat r.size ≤ Capacity.entriesFor d ↔ _ := Capacity.le_entriesFor_iff
  rwa [depthFor_size h, UInt64.le_iff_toNat_le, UInt64.le_iff_toNat_le, toNat_ofNat_size h,
    toNat_ofNat_depth h] at hgalois

/-- **The depth of a record is the least one with room for its entries**, and the formula computes
it from their number, which is a word.  The depth is a positive word, so the one below it is a word
as well. -/
theorem depth_least (r : Record) (h : r.size < 2 ^ 64) :
    (r.depth = (Capacity.depthFor (.ofNat r.size)).toNat ∧ r.depth = Nat.clog 2 (2 * r.size))
      ∧ r.size ≤ (Capacity.entriesFor (.ofNat r.depth)).toNat
      ∧ (Capacity.entriesFor (.ofNat (r.depth - 1))).toNat < r.size
      ∧ 1 ≤ r.depth ∧ r.depth ≤ 65 := by
  have hdepth := toNat_ofNat_depth h
  have hpos := r.depth_pos
  have hle := depth_le h
  refine ⟨⟨?_, r.depth_eq_clog⟩, ?_, ?_, hpos, hle⟩
  · rw [depthFor_size h, hdepth]
  · exact (size_le_entriesFor_iff h).mpr hdepth.ge
  · have hbelow : (UInt64.ofNat (r.depth - 1)).toNat = r.depth - 1 :=
      UInt64.toNat_ofNat_of_lt' (((r.depth.sub_le 1).trans hle).trans_lt (by decide))
    rw [← not_le, size_le_entriesFor_iff h, hbelow]
    omega

/-- Five entries have ten leaves, with four rows above them: a depth of three has room for four
entries and a depth of four for eight. -/
theorem depth_least_five :
    let entry (name : EntryName) : Entry := ⟨name, .int 0⟩
    let r : Record := {
      entries := [entry ⟨"a", by decide⟩, entry ⟨"b", by decide⟩, entry ⟨"c", by decide⟩,
        entry ⟨"d", by decide⟩, entry ⟨"e", by decide⟩]
      sorted := by decide
      nonempty := List.cons_ne_nil _ _
      valid := by decide }
    r.size < 2 ^ 64 ∧ r.depth = 4
      ∧ ((r.depth = (Capacity.depthFor (.ofNat r.size)).toNat ∧ r.depth = Nat.clog 2 (2 * r.size))
      ∧ r.size ≤ (Capacity.entriesFor (.ofNat r.depth)).toNat
      ∧ (Capacity.entriesFor (.ofNat (r.depth - 1))).toNat < r.size
      ∧ 1 ≤ r.depth ∧ r.depth ≤ 65) := by
  intro entry r
  have hsize : r.size < 2 ^ 64 := (by decide : 5 < 2 ^ 64)
  have hdepth : r.depth = Nat.clog 2 10 := r.depth_eq_clog
  refine ⟨hsize, ?_, depth_least r hsize⟩
  rw [hdepth]
  decide

end ProvableRecord.Record
