import ProvableRecord.Proofs.Record.Leaves

/-!
# The hash computations of a record

Every leaf and every node of the tree of a record is the result of a hash computation, except that
a node without a partner is taken over from the row below.  A `Derivation` is a node together with
the computations it is made of.  The tree of derivations is built by the same insertions as the tree
of the record, over leaves that know how they were hashed, and forgetting the computations gives the
tree of the record (`tree_eq_map_value`).  The computations of the record are those of the root.
Each makes a node of the tree (`exists_mem_allRows_of_mem_hashCalls`); nodes that were computed on
the way and later replaced are left out.

`Spans es d` says that a derivation is that of a subtree over the entries `es`.  The root spans all
entries (`spans_root`), whatever their number: the leaves of an entry are a pair, so no subtree
above the leaves is cut through an entry.
-/

namespace ProvableRecord

/-- A hash computation: a hash function and its input. -/
inductive HashCall where
  /-- SHA-256 of bytes, cut to a field element. -/
  | fold (bytes : List UInt8)
  /-- Poseidon of one field element. -/
  | one (x : Fp)
  /-- Poseidon of the coordinates of a point or of two nodes. -/
  | two (x y : Fp)
deriving DecidableEq

/-- What a computation results in. -/
def HashCall.result : HashCall → Fp
  | fold bytes => .ofNat (byteDigest bytes)
  | one x => Poseidon.hash1 x
  | two x y => Poseidon.hash2 x y

/-- The computation of the leaf of a name. -/
def EntryName.call (n : EntryName) : HashCall := .fold (textBytes n.text)

/-- The computation of the leaf of a value. -/
def Value.call : Value → HashCall
  | string s => .fold (textBytes s)
  | int n => .one (.ofInt n.toInt)
  | cryptographic n => .one (.ofNat n)
  | publicKey k => .two k.point.x k.point.y

theorem EntryName.result_call (n : EntryName) : n.call.result = nameLeaf n.text := rfl

theorem Value.result_call (v : Value) : v.call.result = v.leaf := by
  cases v <;> rfl

/-- A node of a tree with the computations that it is made of. -/
inductive Derivation where
  | leaf (c : HashCall)
  | node (left right : Derivation)

namespace Derivation

/-- The field element that is derived. -/
def value : Derivation → Fp
  | leaf c => c.result
  | node l r => (HashCall.two l.value r.value).result

/-- The computations of a derivation. -/
def calls : Derivation → List HashCall
  | leaf c => [c]
  | node l r => .two l.value r.value :: (l.calls ++ r.calls)

theorem value_node (l r : Derivation) : (node l r).value = Poseidon.hash2 l.value r.value := by
  rw [value, HashCall.result]

end Derivation

/-- The derivations of the two leaves of an entry. -/
def Entry.leafDerivations (e : Entry) : List Derivation := [.leaf e.name.call, .leaf e.value.call]

/-- The derivation of the node above the two leaves of an entry. -/
def Entry.derivation (e : Entry) : Derivation := .node (.leaf e.name.call) (.leaf e.value.call)

namespace Record

/-- The derivations of the leaves of a record. -/
def leafDerivations (r : Record) : List Derivation := r.entries.flatMap Entry.leafDerivations

theorem map_value_leafDerivations (r : Record) :
    r.leafDerivations.map Derivation.value = r.leaves := by
  rw [leafDerivations, leaves, List.map_flatMap]
  congr 1
  funext e
  show [e.name.call.result, e.value.call.result] = [nameLeaf e.name.text, e.value.leaf]
  rw [e.name.result_call, e.value.result_call]

/-- The tree of a record with the derivations of its nodes. -/
def derivations (r : Record) : Merkle.Tree Derivation :=
  match r.leafDerivations with
  | [] => .singleton (.leaf (.one 0))
  | d :: ds => .ofCons .node d ds

/-- The hash computations that the content id of a record is made of. -/
def hashCalls (r : Record) : List HashCall := r.derivations.root.calls

theorem covers_derivations (r : Record) :
    Merkle.Tree.Covers Derivation.node r.leafDerivations r.derivations := by
  have hne : r.leafDerivations ≠ [] := by
    intro hnil
    apply r.leaves_ne_nil
    rw [← r.map_value_leafDerivations, hnil, List.map_nil]
  obtain ⟨d, ds, hcons⟩ := List.exists_cons_of_ne_nil hne
  rw [derivations, hcons]
  exact Merkle.Tree.covers_ofCons _ d ds

/-- **The tree of a record is the tree of its derivations** without the computations. -/
theorem tree_eq_map_value (r : Record) : r.tree = r.derivations.map Derivation.value := by
  have hmap := r.covers_derivations.map Derivation.value_node
  rw [map_value_leafDerivations] at hmap
  exact r.covers_tree.unique hmap

/-- The computations of a node result in nodes of its row or of a row below. -/
theorem exists_value_eq_result (r : Record) (k : ℕ) {d : Derivation} {c : HashCall}
    (hd : d ∈ (Merkle.Tree.parents .node)^[k] r.leafDerivations) (hc : c ∈ d.calls) :
    ∃ j ≤ k, ∃ d' ∈ (Merkle.Tree.parents .node)^[j] r.leafDerivations, d'.value = c.result := by
  induction k generalizing d with
  | zero =>
    obtain ⟨e, -, he⟩ := List.mem_flatMap.mp hd
    -- a leaf is made by one computation
    have hleaf : d.value = c.result := by
      simp only [Entry.leafDerivations, List.mem_cons, List.not_mem_nil, or_false] at he
      rcases he with rfl | rfl <;> rw [List.mem_singleton.mp hc, Derivation.value]
    exact ⟨0, Nat.le_refl 0, d, hd, hleaf⟩
  | succ k ih =>
    have hbelow : ∀ {d}, d ∈ (Merkle.Tree.parents .node)^[k] r.leafDerivations → c ∈ d.calls →
        ∃ j ≤ k + 1, ∃ d' ∈ (Merkle.Tree.parents .node)^[j] r.leafDerivations,
          d'.value = c.result := by
      intro d hd hc
      obtain ⟨j, hj, hfound⟩ := ih hd hc
      exact ⟨j, Nat.le_succ_of_le hj, hfound⟩
    have hrow := hd
    rw [Function.iterate_succ_apply'] at hrow
    rcases Merkle.Tree.eq_of_mem_parents _ hrow with hd' | ⟨left, hleft, right, hright, rfl⟩
    · exact hbelow hd' hc
    · rcases List.mem_cons.mp hc with rfl | hc
      · exact ⟨k + 1, Nat.le_refl _, _, hd, rfl⟩
      · rcases List.mem_append.mp hc with hc | hc
        · exact hbelow hleft hc
        · exact hbelow hright hc

/-- **Every computation of a record makes a node of its tree.** -/
theorem exists_mem_allRows_of_mem_hashCalls (r : Record) {c : HashCall} (hc : c ∈ r.hashCalls) :
    ∃ row ∈ r.tree.allRows, c.result ∈ row := by
  have hroot : r.derivations.root
      ∈ (Merkle.Tree.parents .node)^[r.derivations.depth] r.leafDerivations := by
    rw [r.covers_derivations.root_eq]
    exact List.mem_singleton_self _
  obtain ⟨j, hj, d, hd, hvalue⟩ := r.exists_value_eq_result _ hroot hc
  rw [r.covers_derivations.depth_eq] at hj
  have hrow := Merkle.Tree.mem_levels Derivation.node r.leafDerivations (Nat.lt_succ_of_le hj)
  rw [← r.covers_derivations] at hrow
  refine ⟨_, ?_, List.mem_map.mpr ⟨d, hd, hvalue⟩⟩
  rw [tree_eq_map_value, Merkle.Tree.allRows_map]
  exact List.mem_map_of_mem hrow

theorem contentId_eq (r : Record) : r.contentId = r.derivations.root.value.val := by
  rw [contentId, tree_eq_map_value, Merkle.Tree.map]

end Record

/-! ## Subtrees -/

/-- The derivation is that of a subtree over the entries. -/
inductive Spans : List Entry → Derivation → Prop
  | entry (e : Entry) : Spans [e] e.derivation
  | node {es fs : List Entry} {l r : Derivation} (left : Spans es l) (right : Spans fs r) :
    Spans (es ++ fs) (.node l r)

/-- The derivations of a row span the entries, one after the other. -/
inductive RowSpans : List Entry → List Derivation → Prop
  | nil : RowSpans [] []
  | cons {es fs : List Entry} {d : Derivation} {row : List Derivation} (first : Spans es d)
    (rest : RowSpans fs row) : RowSpans (es ++ fs) (d :: row)

namespace RowSpans

/-- The row above spans the same entries. -/
theorem parents {es : List Entry} {row : List Derivation} (h : RowSpans es row) :
    RowSpans es (Merkle.Tree.parents .node row) := by
  induction row using Merkle.Tree.parents.induct generalizing es with
  | case1 => exact h
  | case2 d => exact h
  | case3 l r row ih =>
    obtain ⟨⟩ | ⟨hl, ⟨⟩ | ⟨hr, hrow⟩⟩ := h
    rw [← List.append_assoc]
    exact .cons (.node hl hr) (ih hrow)

theorem iterate_parents {es : List Entry} {row : List Derivation} (h : RowSpans es row) (k : ℕ) :
    RowSpans es ((Merkle.Tree.parents .node)^[k] row) := by
  induction k generalizing row with
  | zero => exact h
  | succ k ih =>
    rw [Function.iterate_succ_apply]
    exact ih h.parents

/-- The row above the leaves spans the entries. -/
theorem entries (es : List Entry) :
    RowSpans es (Merkle.Tree.parents .node (es.flatMap Entry.leafDerivations)) := by
  induction es with
  | nil => exact .nil
  | cons e es ih => exact .cons (.entry e) ih

end RowSpans

/-- **The root spans all entries of a record.** -/
theorem Record.spans_root (r : Record) : Spans r.entries r.derivations.root := by
  have hdepth : r.derivations.depth = r.depth := by
    rw [depth, tree_eq_map_value]
    exact (List.length_map _).symm
  obtain ⟨k, hk⟩ : ∃ k, r.derivations.depth = k + 1 :=
    ⟨r.derivations.depth - 1, by have := r.depth_pos; omega⟩
  have hrow := (RowSpans.entries r.entries).iterate_parents k
  have hroot := r.covers_derivations.root_eq
  rw [hk, Function.iterate_succ_apply] at hroot
  rw [← leafDerivations, hroot] at hrow
  -- a row of one node
  generalize r.entries = es at hrow
  obtain ⟨⟩ | ⟨hspans, ⟨⟩⟩ := hrow
  rw [List.append_nil]
  exact hspans

end ProvableRecord
