import Mathlib.Tactic.NormNum
import ProvableRecord.Proofs.Merkle.Growth
import ProvableRecord.Record.Commitment

/-!
# The leaves of a record

A name and a value are hashed in two ways: for the tree, where the result is a field element and a
value is taken as valid, and outside, where the result is a number and a value is checked.  The two
agree (`val_nameLeaf`, `hash_eq_val_leaf`), as the hash of a text has 248 bits.

Entry `i` puts its name at position `2 i` and its value at `2 i + 1`, and the tree of a record
covers these leaves (`covers_tree`).
-/

namespace ProvableRecord

/-! ## Hashes of names and values -/

theorem Sha256.State.toNat_lt (s : State) : s.toNat < 2 ^ 256 := by
  have ha := s.a.toNat_lt
  have hb := s.b.toNat_lt
  have hc := s.c.toNat_lt
  have hd := s.d.toNat_lt
  have he := s.e.toNat_lt
  have hf := s.f.toNat_lt
  have hg := s.g.toNat_lt
  have hh := s.h.toNat_lt
  simp only [toNat, List.foldl_cons, List.foldl_nil]
  omega

/-- The hash of a byte string lacks the last byte of a digest. -/
theorem byteDigest_lt_two_pow (bytes : List UInt8) : byteDigest bytes < 2 ^ 248 := by
  have hdigest : Sha256.digest bytes < 2 ^ 256 := by
    rw [Sha256.digest]
    exact Sha256.State.toNat_lt _
  rw [byteDigest]
  omega

/-- The hash of a byte string is a field element. -/
theorem byteDigest_lt (bytes : List UInt8) : byteDigest bytes < fieldModulus := by
  have hmodulus : 2 ^ 248 < fieldModulus := by norm_num [fieldModulus]
  exact (byteDigest_lt_two_pow bytes).trans hmodulus

theorem val_nameLeaf (name : String) : (nameLeaf name).val = textDigest name :=
  Nat.mod_eq_of_lt (byteDigest_lt _)

/-- An equation of functions: applied to an argument, the two sides would be compared by evaluating
the hash. -/
theorem intHash_eq : intHash = fun n => (Poseidon.hash1 (.ofInt n.toInt)).val := by
  delta intHash
  exact Eq.refl _

/-- A number below the modulus is taken as it is, and any other one is refused. -/
theorem requireElement_eq_ok {n : ℕ} (h : n < fieldModulus) :
    requireElement n = .ok (.ofNat n) := by
  have hfield : Fp.ofNat? n = some (.ofNat n) := Fp.ofNat?_eq_some_iff.mpr (Nat.mod_eq_of_lt h)
  rw [requireElement, hfield]

theorem requireElement_eq_error {n : ℕ} (h : fieldModulus ≤ n) :
    requireElement n = .error (.primitive (.notFieldElement n)) := by
  have hfield : Fp.ofNat? n = none := dif_neg h.not_gt
  rw [requireElement, hfield]

/-- **The two hashes of a valid value agree.** -/
theorem Value.hash_eq_val_leaf {v : Value} (h : v.IsValid) : v.hash = .ok v.leaf.val := by
  cases v with
  | string s =>
    have hlt : textDigest s < fieldModulus := byteDigest_lt _
    simp only [Value.hash, Value.leaf, Fp.val_ofNat, Nat.mod_eq_of_lt hlt]
  | int n => simp only [Value.hash, Value.leaf, intHash_eq]
  | cryptographic n =>
    simp only [Value.hash, Value.leaf, elementHash, requireElement_eq_ok h]
    rfl
  | publicKey k => simp only [Value.hash, Value.leaf]

namespace Record

/-- The record of one entry. -/
def single (e : Entry) (h : e.value.IsValid) : Record where
  entries := [e]
  sorted := List.pairwise_singleton _ _
  nonempty := List.cons_ne_nil _ _
  valid := by
    intro e' he
    rw [List.mem_singleton.mp he]
    exact h

/-! ## Positions -/

theorem length_leaves (r : Record) : r.leaves.length = 2 * r.entries.length := by
  rw [leaves]
  induction r.entries with
  | nil => rfl
  | cons e es ih =>
    rw [List.flatMap_cons, List.length_append, ih, List.length_cons]
    show 2 + _ = _
    omega

theorem entries_length_pos (r : Record) : 0 < r.entries.length :=
  List.length_pos_iff.mpr r.nonempty

theorem getElem?_flatMap_entryLeaves {es : List Entry} {i : ℕ} {e : Entry}
    (h : es[i]? = some e) :
    (es.flatMap entryLeaves)[2 * i]? = some (nameLeaf e.name.text)
      ∧ (es.flatMap entryLeaves)[2 * i + 1]? = some e.value.leaf := by
  induction es generalizing i with
  | nil => cases h
  | cons e' es ih =>
    cases i with
    | zero =>
      cases h
      exact ⟨rfl, rfl⟩
    | succ i => exact ih h

/-- The leaves of entry `i` stand at the positions `2 i` and `2 i + 1`. -/
theorem getElem?_leaves {r : Record} {i : ℕ} {e : Entry} (h : r.entries[i]? = some e) :
    r.leaves[2 * i]? = some (nameLeaf e.name.text)
      ∧ r.leaves[2 * i + 1]? = some e.value.leaf :=
  getElem?_flatMap_entryLeaves h

theorem leaves_ne_nil (r : Record) : r.leaves ≠ [] := by
  have hpos := r.entries_length_pos
  rw [← List.length_pos_iff, length_leaves]
  omega

/-- **The tree of a record covers its leaves.** -/
theorem covers_tree (r : Record) : Merkle.Tree.Covers Poseidon.hash2 r.leaves r.tree := by
  obtain ⟨leaf, rest, hcons⟩ := List.exists_cons_of_ne_nil r.leaves_ne_nil
  rw [tree, hcons]
  exact Merkle.Tree.covers_ofCons _ leaf rest

/-- The depth of a tree that has two leaves for each entry. -/
theorem depth_eq_clog (r : Record) : r.depth = Nat.clog 2 (2 * r.size) := by
  rw [depth, r.covers_tree.depth_eq, r.length_leaves, size]

/-- A record has a pair of leaves, so its tree has a row above the leaves. -/
theorem depth_pos (r : Record) : 0 < r.depth := by
  have hpos := r.entries_length_pos
  rw [depth_eq_clog, size]
  exact Nat.clog_pos Nat.one_lt_two (by omega)

/-- A record of a size that a machine word holds has a tree of depth at most 65. -/
theorem depth_le {r : Record} (h : r.size < 2 ^ 64) : r.depth ≤ 65 := by
  rw [depth_eq_clog]
  exact Nat.clog_le_of_le_pow (by omega)

end Record

end ProvableRecord
