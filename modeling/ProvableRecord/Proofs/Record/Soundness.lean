import ProvableRecord.Proofs.Merkle.Membership
import ProvableRecord.Proofs.Merkle.Pairs
import ProvableRecord.Proofs.Record.EntryProof
import ProvableRecord.Record.Evidence

/-!
# What evidence for an entry shows

A relying party checks evidence, compares the root with the content id of the record, and the two
hashes with those of the name and the value (`Evidence.Passes`).  Even if no two pairs of nodes have
the same hash, this does not show that the record has the entry: the evidence itself says on which
side the path starts, so a value can be passed off as a name and its name as the value
(`passes_turned`).  What does follow is `hasHashes_of_passes`: the record has the entry if bit 0 of
the index is off, and an entry with the two hashes exchanged if it is on, unless both hashes are
those of nodes above the leaves.
-/

namespace ProvableRecord

namespace Evidence

/-- The membership proof of the evidence. -/
def membership : Evidence → Merkle.Proof
  | proof p => p
  | signals s => s.proof

/-- The hash of the value: signals state it, and in a bare proof it is the first sibling. -/
def valueHash? : Evidence → Option ℕ
  | proof p => p.siblings.head?
  | signals s => some s.valueHash

/-- Evidence that is valid has a proof that verifies and leads from the hash of the name with the
hash of the value as first sibling. -/
theorem membership_of_isValid {ev : Evidence} (h : ev.isValid = true) :
    ev.membership.verify = true ∧ ev.membership.leaf = ev.nameHash
      ∧ ev.membership.siblings.head? = ev.valueHash? := by
  cases ev with
  | proof p => exact ⟨h, rfl, rfl⟩
  | signals s =>
    rw [isValid, Signals.isConsistent, Bool.and_eq_true, Bool.and_eq_true, Bool.and_eq_true,
      beq_iff_eq, beq_iff_eq] at h
    obtain ⟨⟨⟨hverify, hleaf⟩, hsibling⟩, -⟩ := h
    exact ⟨hverify, hleaf, hsibling⟩

end Evidence

namespace Record

variable {r : Record}

/-- The record has an entry with these hashes of its name and its value. -/
def HasHashes (r : Record) (nameHash valueHash : ℕ) : Prop :=
  ∃ e ∈ r.entries, textDigest e.name.text = nameHash ∧ e.value.hash = .ok valueHash

/-- The number is the hash of a pair of nodes of the tree. -/
def HasNode (r : Record) (hash : ℕ) : Prop :=
  ∃ left right, r.tree.IsPair left right ∧ hash = (Poseidon.hash2 left right).val

/-- A pair of leaves is the name and the value of an entry. -/
theorem hasHashes_of_leaves {i : ℕ} {x y : Fp} (hx : r.leaves[2 * i]? = some x)
    (hy : r.leaves[2 * i + 1]? = some y) : r.HasHashes x.val y.val := by
  have hi : i < r.entries.length := by
    have hlt := (List.getElem?_eq_some_iff.mp hx).1
    rw [length_leaves] at hlt
    omega
  obtain ⟨hname, hvalue⟩ := getElem?_leaves (List.getElem?_eq_getElem hi)
  rw [hname, Option.some_inj] at hx
  rw [hvalue, Option.some_inj] at hy
  have hmem := List.getElem_mem hi
  refine ⟨_, hmem, ?_, ?_⟩
  · rw [← hx, val_nameLeaf]
  · rw [← hy, Value.hash_eq_val_leaf (r.valid _ hmem)]

/-- **A pair of the tree is an entry, or both its nodes are hashes of pairs.** -/
theorem hasHashes_or_hasNode {x y : Fp} (h : r.tree.IsPair x y) :
    r.HasHashes x.val y.val ∨ r.HasNode x.val ∧ r.HasNode y.val := by
  have heven : Even r.leaves.length := by
    rw [length_leaves]
    exact even_two_mul _
  rcases r.covers_tree.leaves_or_nodes heven h with
    ⟨i, hx, hy⟩ | ⟨⟨left, right, hpair, hx⟩, left', right', hpair', hy⟩
  · exact .inl (hasHashes_of_leaves hx hy)
  · exact .inr ⟨⟨left, right, hpair, congrArg Fp.val hx⟩,
      left', right', hpair', congrArg Fp.val hy⟩

end Record

namespace Evidence

/-- The evidence passes the check for an entry of the record with the given name and value, and
folds only pairs that the tree of the record folds, so that no collision of hashes is involved. -/
structure Passes (ev : Evidence) (r : Record) (name : EntryName) (v : Value) : Prop where
  isValid : ev.isValid = true
  isFor : ev.isFor name.text = true
  value_eq : ∃ h, v.hash = .ok h ∧ ev.valueHash? = some h
  root_eq : ev.membership.root = r.contentId
  pairs : ∀ q ∈ ev.membership.foldedPairs, r.tree.IsPair q.1 q.2

/-- Signals without a number pass if their proof does. -/
theorem Passes.signals {p : Merkle.Proof} {r : Record} {name : EntryName} {v : Value} {n : ℕ}
    (h : (proof p).Passes r name v) (hn : v.hash = .ok n) :
    (signals ⟨p, p.leaf, n, none⟩).Passes r name v := by
  obtain ⟨n', hn', hsibling⟩ := h.value_eq
  rw [hn, Except.ok.injEq] at hn'
  subst hn'
  refine ⟨?_, h.isFor, ⟨n, hn, rfl⟩, h.root_eq, h.pairs⟩
  have hverify : p.verify = true := h.isValid
  have hhead : p.siblings.head? = some n := hsibling
  show (p.verify && p.leaf == p.leaf && p.siblings.head? == some n && true) = true
  rw [hverify, hhead, beq_self_eq_true, beq_self_eq_true]
  rfl

/-- The proof of a leaf passes if it leads from the hash of the name with that of the value. -/
theorem passes_of_generate {r : Record} {i : ℕ} {p : Merkle.Proof} {name : EntryName} {v : Value}
    {n : ℕ} (hi : i < r.leaves.length) (hp : Merkle.Proof.generate r.tree i = .ok p)
    (hleaf : p.leaf = textDigest name.text) (hn : v.hash = .ok n)
    (hsibling : p.siblings.head? = some n) : (proof p).Passes r name v where
  isValid := (Merkle.Proof.shows_of_generate r.covers_tree hp).verify_eq
  isFor := beq_iff_eq.mpr hleaf
  value_eq := ⟨n, hn, hsibling⟩
  root_eq := (Merkle.Proof.shows_of_generate r.covers_tree hp).root_eq
  pairs := Merkle.Proof.isPair_of_generate r.covers_tree hp hi

/-- The proof of the name of an entry passes for the entry. -/
theorem passes_of_getElem? {r : Record} {i : ℕ} {e : Entry} (he : r.entries[i]? = some e) :
    ∃ p, Merkle.Proof.generate r.tree (2 * i) = .ok p ∧ (proof p).Passes r e.name e.value := by
  have hname := (Record.getElem?_leaves he).1
  have hp := Merkle.Proof.generate_eq r.covers_tree hname
  obtain ⟨path, hpath⟩ := Record.namePath_eq he
  rw [← Record.namePath, hpath] at hp
  have hvalid := r.valid e (List.mem_of_getElem? he)
  exact ⟨_, hp, passes_of_generate (List.getElem?_eq_some_iff.mp hname).1 hp (val_nameLeaf _)
    (Value.hash_eq_val_leaf hvalid) rfl⟩

/-- **What evidence that passes shows.**  The record has the entry, or bit 0 of the index is on and
the record has an entry with the hashes of the name and the value exchanged, or both hashes are
those of nodes above the leaves. -/
theorem hasHashes_of_passes {ev : Evidence} {r : Record} {name : EntryName} {v : Value}
    (h : ev.Passes r name v) :
    ∃ valueHash, v.hash = .ok valueHash
      ∧ (ev.membership.index.testBit 0 = false ∧ r.HasHashes (textDigest name.text) valueHash
        ∨ ev.membership.index.testBit 0 = true ∧ r.HasHashes valueHash (textDigest name.text)
        ∨ r.HasNode (textDigest name.text) ∧ r.HasNode valueHash) := by
  obtain ⟨valueHash, hvalue, hstated⟩ := h.value_eq
  obtain ⟨hverify, hleaf, hsibling⟩ := membership_of_isValid h.isValid
  have hname : ev.nameHash = textDigest name.text := beq_iff_eq.mp h.isFor
  rw [hstated] at hsibling
  obtain ⟨x, y, hx, hy, hmem⟩ := Merkle.Proof.first_mem_foldedPairs hverify hsibling
  rw [hleaf, hname] at hx
  have hpair := h.pairs _ hmem
  refine ⟨valueHash, hvalue, ?_⟩
  rw [← hx, ← hy]
  -- bit 0 puts the leaf on the left or on the right of the first pair
  cases hbit : ev.membership.index.testBit 0 with
  | false =>
    rw [hbit] at hpair
    rcases Record.hasHashes_or_hasNode hpair with hentry | hnodes
    · exact .inl ⟨rfl, hentry⟩
    · exact .inr (.inr hnodes)
  | true =>
    rw [hbit] at hpair
    rcases Record.hasHashes_or_hasNode hpair with hentry | hnodes
    · exact .inr (.inl ⟨rfl, hentry⟩)
    · exact .inr (.inr hnodes.symm)

/-- The genuine evidence for the one entry of a record. -/
theorem hasHashes_of_passes_age :
    let e : Entry := ⟨⟨"age", by decide⟩, .int 30⟩
    let r := Record.single e trivial
    ∃ ev : Evidence, ev.Passes r e.name e.value
      ∧ ∃ valueHash, e.value.hash = .ok valueHash
        ∧ (ev.membership.index.testBit 0 = false ∧ r.HasHashes (textDigest e.name.text) valueHash
          ∨ ev.membership.index.testBit 0 = true ∧ r.HasHashes valueHash (textDigest e.name.text)
          ∨ r.HasNode (textDigest e.name.text) ∧ r.HasNode valueHash) := by
  intro e r
  have he : r.entries[0]? = some e := rfl
  obtain ⟨p, -, hpasses⟩ := passes_of_getElem? he
  exact ⟨.proof p, hpasses, hasHashes_of_passes hpasses⟩

/-- **An entry whose value is a text can be turned around.**  The proof of the value passes for an
entry that is named as the value and has the name as value. -/
theorem passes_turned {r : Record} {i : ℕ} {e : Entry} (he : r.entries[i]? = some e)
    {text : EntryName} (hvalue : e.value = .string text.text) :
    ∃ p, Merkle.Proof.generate r.tree (2 * i + 1) = .ok p
      ∧ (proof p).Passes r text (.string e.name.text) := by
  obtain ⟨hname, hleaf⟩ := Record.getElem?_leaves he
  obtain ⟨depth, hdepth⟩ : ∃ depth, r.tree.depth = depth + 1 :=
    ⟨r.tree.depth - 1, (Nat.succ_pred_eq_of_pos r.depth_pos).symm⟩
  have hp := Merkle.Proof.generate_eq r.covers_tree hleaf
  rw [r.covers_tree.rows_eq, hdepth, Merkle.Tree.levels, Merkle.Tree.steps_odd hname, hvalue] at hp
  refine ⟨_, hp, passes_of_generate (List.getElem?_eq_some_iff.mp hleaf).1 hp (val_nameLeaf _)
    (n := textDigest e.name.text) rfl ?_⟩
  exact congrArg some (val_nameLeaf _)

/-- The tree of two leaves. -/
theorem ofCons_pair {α : Type} (node : α → α → α) (x y : α) :
    Merkle.Tree.ofCons node x [y] = ⟨[[x, y]], node x y⟩ := rfl

/-- The proof of the right one of two leaves. -/
theorem generate_right (x y root : Fp) :
    Merkle.Proof.generate ⟨[[x, y]], root⟩ 1 = .ok ⟨root.val, y.val, 1, [x.val]⟩ := rfl

/-- A record of one text, turned around. -/
theorem passes_single_turned (name text : EntryName) :
    let r := Record.single ⟨name, .string text.text⟩ trivial
    (proof ⟨r.contentId, textDigest text.text, 1, [textDigest name.text]⟩).Passes r text
      (.string name.text) := by
  intro r
  have htree : r.tree = _ := ofCons_pair Poseidon.hash2 (nameLeaf name.text) (nameLeaf text.text)
  have he : r.entries[0]? = some ⟨name, .string text.text⟩ := rfl
  obtain ⟨p, hp, hpasses⟩ := passes_turned he rfl
  rw [htree, generate_right, val_nameLeaf, val_nameLeaf, Except.ok.injEq] at hp
  rw [Record.contentId, htree, hp]
  exact hpasses

/-- **Evidence that passes does not show that the record has the entry.**  The record of `A` with
the text `B` has the content id that this proof, with or without signals, leads to from `B` with the
first sibling `A`. -/
theorem passes_without_entry :
    let a : EntryName := ⟨"A", by decide⟩
    let b : EntryName := ⟨"B", by decide⟩
    let r := Record.single ⟨a, .string b.text⟩ trivial
    let p : Merkle.Proof := ⟨r.contentId, textDigest b.text, 1, [textDigest a.text]⟩
    let s : Signals := ⟨p, textDigest b.text, textDigest a.text, none⟩
    (proof p).Passes r b (.string a.text) ∧ (signals s).Passes r b (.string a.text)
      ∧ ¬ r.HasHashes (textDigest b.text) (textDigest a.text) := by
  intro a b r p s
  have hpasses : (proof p).Passes r b (.string a.text) := passes_single_turned a b
  refine ⟨hpasses, hpasses.signals rfl, ?_⟩
  rintro ⟨e, he, hname, -⟩
  rw [List.mem_singleton.mp he] at hname
  have hne : textDigest "A" ≠ textDigest "B" := by decide +kernel
  exact hne hname

end Evidence

end ProvableRecord
