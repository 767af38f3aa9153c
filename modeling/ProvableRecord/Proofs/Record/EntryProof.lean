import ProvableRecord.Proofs.Merkle.Path
import ProvableRecord.Proofs.Record.Leaves

/-!
# Every entry of a record has a proof

Names are distinct, so the position of a name is that of its entry (`position?_of_getElem?`), and
the path of the name's leaf begins with the value's leaf as right neighbour (`namePath_eq`).
`ProvesEntry` gathers what a proof for an entry has to say, and `prove_complete` shows that the
proof of every entry says it.
-/

namespace ProvableRecord.Record

variable {r : Record} {i : ℕ} {e : Entry}

/-- **A name is found at the position of its entry.** -/
theorem position?_of_getElem? (h : r.entries[i]? = some e) :
    r.position? e.name.text = some i := by
  obtain ⟨hi, he⟩ := List.getElem?_eq_some_iff.mp h
  rw [position?, List.findIdx?_eq_some_iff_getElem]
  refine ⟨hi, by simp only [he, decide_true], ?_⟩
  intro j hj heq
  -- an earlier name is smaller
  have hlt := List.pairwise_iff_getElem.mp r.sorted j i (by omega) hi hj
  rw [decide_eq_true_eq] at heq
  rw [heq, he] at hlt
  exact String.lt_irrefl _ hlt

/-! ## The path of a name -/

/-- The path of the name of entry `i`. -/
def namePath (r : Record) (i : ℕ) : List (Merkle.Tree.Step Fp) :=
  Merkle.Tree.steps (2 * i) r.tree.rows

/-- The path of a name begins with the value. -/
theorem namePath_eq (h : r.entries[i]? = some e) :
    ∃ path, r.namePath i = ⟨false, e.value.leaf⟩ :: path := by
  obtain ⟨depth, hdepth⟩ : ∃ depth, r.tree.depth = depth + 1 :=
    ⟨r.tree.depth - 1, (Nat.succ_pred_eq_of_pos r.depth_pos).symm⟩
  rw [namePath, r.covers_tree.rows_eq, hdepth, Merkle.Tree.levels, Merkle.Tree.steps_even,
    (getElem?_leaves h).2]
  exact ⟨_, rfl⟩

theorem length_namePath_le (r : Record) (i : ℕ) : (r.namePath i).length ≤ r.depth :=
  Merkle.Tree.length_steps_le (2 * i) r.tree.rows

/-- The proof of an entry, from its path. -/
theorem prove_eq (h : r.entries[i]? = some e) : r.prove e.name.text
    = .ok (.ofPath r.tree.root (nameLeaf e.name.text) (r.namePath i)) := by
  rw [prove, position, position?_of_getElem? h]
  show (Merkle.Proof.generate r.tree (2 * i)).mapError RecordError.primitive = _
  rw [Merkle.Proof.generate_eq r.covers_tree (getElem?_leaves h).1]
  rfl

/-! ## What the proof says -/

/-- What a membership proof says about an entry of a record. -/
structure ProvesEntry (r : Record) (e : Entry) (p : Merkle.Proof) : Prop where
  leaf_eq : p.leaf = textDigest e.name.text
  /-- The first sibling is the hash of the value. -/
  sibling_eq : ∃ h, e.value.hash = .ok h ∧ p.siblings.head? = some h
  /-- The first step comes from the left. -/
  bit_eq : p.index.testBit 0 = false
  root_eq : p.root = r.contentId
  length_pos : 1 ≤ p.siblings.length
  length_le : p.siblings.length ≤ r.depth
  /-- The index has no digits beyond the steps. -/
  index_lt : p.index < 2 ^ p.siblings.length
  index_lt_modulus : r.size < 2 ^ 64 → p.index < fieldModulus
  root_lt : p.root < fieldModulus
  leaf_lt : p.leaf < fieldModulus
  siblings_lt : ∀ s ∈ p.siblings, s < fieldModulus
  verify_eq : p.verify = true

/-- A path from the name that begins with the value and ends at the root proves an entry. -/
theorem provesEntry_ofPath {path : List (Merkle.Tree.Step Fp)} (hvalid : e.value.IsValid)
    (hlength : (⟨false, e.value.leaf⟩ :: path : List (Merkle.Tree.Step Fp)).length ≤ r.depth)
    (hroot : Merkle.Tree.foldSteps Poseidon.hash2 (nameLeaf e.name.text)
      (⟨false, e.value.leaf⟩ :: path) = r.tree.root) :
    ProvesEntry r e
      (.ofPath r.tree.root (nameLeaf e.name.text) (⟨false, e.value.leaf⟩ :: path)) := by
  have hindex := Merkle.Proof.ofPath_index_lt r.tree.root (nameLeaf e.name.text)
    (⟨false, e.value.leaf⟩ :: path)
  exact {
    leaf_eq := val_nameLeaf _
    sibling_eq := ⟨_, Value.hash_eq_val_leaf hvalid, rfl⟩
    bit_eq := by
      rw [Nat.testBit_zero]
      exact Merkle.Proof.ofDirections_cons_mod _ _
    root_eq := rfl
    length_pos := Nat.succ_pos _
    length_le := by
      rw [Merkle.Proof.ofPath, List.length_map]
      exact hlength
    index_lt := by
      rw [Merkle.Proof.ofPath, List.length_map]
      exact hindex
    index_lt_modulus := by
      intro hsize
      have hpow := Nat.pow_le_pow_right Nat.two_pos (hlength.trans (depth_le hsize))
      have hmodulus : 2 ^ 65 < fieldModulus := by norm_num [fieldModulus]
      exact (hindex.trans_le hpow).trans hmodulus
    root_lt := r.tree.root.val_lt
    leaf_lt := (nameLeaf e.name.text).val_lt
    siblings_lt := by
      intro s hs
      obtain ⟨step, -, rfl⟩ := List.mem_map.mp hs
      exact step.sibling.val_lt
    verify_eq := Merkle.Proof.verify_ofPath hroot }

/-- The path of the name of an entry proves the entry. -/
theorem provesEntry_namePath (h : r.entries[i]? = some e) :
    ProvesEntry r e (.ofPath r.tree.root (nameLeaf e.name.text) (r.namePath i)) := by
  obtain ⟨path, hpath⟩ := namePath_eq h
  have hlength := r.length_namePath_le i
  have hroot := r.covers_tree.foldSteps_eq (getElem?_leaves h).1
  rw [← namePath, hpath] at hroot
  rw [hpath] at hlength ⊢
  exact provesEntry_ofPath (r.valid e (List.mem_of_getElem? h)) hlength hroot

/-- **Every entry of a record has a proof**, which names the hashes of its name and its value and
verifies. -/
theorem prove_complete (r : Record) (e : Entry) (he : e ∈ r.entries) :
    ∃ p, r.prove e.name.text = .ok p ∧ ProvesEntry r e p := by
  obtain ⟨i, hi⟩ := List.getElem?_of_mem he
  exact ⟨_, prove_eq hi, provesEntry_namePath hi⟩

/-- The last of three entries has a proof.  The node above its leaves moves up once without a
partner, so the proof has fewer siblings than the tree is deep. -/
theorem prove_complete_three :
    let a : Entry := ⟨⟨"a", by decide⟩, .int (-1)⟩
    let b : Entry := ⟨⟨"b", by decide⟩, .string "z"⟩
    let c : Entry := ⟨⟨"c", by decide⟩, .cryptographic 7⟩
    let r : Record := {
      entries := [a, b, c]
      sorted := by decide
      nonempty := List.cons_ne_nil _ _
      valid := by decide }
    c ∈ r.entries ∧ r.depth = 3
      ∧ ∃ p, r.prove c.name.text = .ok p ∧ p.siblings.length = 2 ∧ ProvesEntry r c p := by
  intro a b c r
  have hentry : r.entries[2]? = some c := rfl
  have hc : c ∈ r.entries := List.mem_of_getElem? hentry
  have hdepth : r.tree.depth = 3 := r.depth_eq_clog.trans (by decide)
  obtain ⟨p, hp, hproves⟩ := prove_complete r c hc
  -- the value, and then the node over the leaves of the other entries
  have hpath : r.namePath 2 = [⟨false, c.value.leaf⟩,
      ⟨true, Poseidon.hash2 (Poseidon.hash2 (nameLeaf a.name.text) a.value.leaf)
        (Poseidon.hash2 (nameLeaf b.name.text) b.value.leaf)⟩] := by
    rw [namePath, r.covers_tree.rows_eq, hdepth]
    rfl
  have hmade := prove_eq hentry
  rw [hp, Except.ok.injEq, hpath] at hmade
  refine ⟨hc, hdepth, p, hp, ?_, hproves⟩
  rw [hmade]
  rfl

end ProvableRecord.Record
