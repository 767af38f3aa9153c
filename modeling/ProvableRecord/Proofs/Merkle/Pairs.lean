import Mathlib.Algebra.Group.Even
import ProvableRecord.Proofs.Merkle.Path

/-!
# Pairs of nodes

A tree combines neighbours of its rows (`Tree.IsPair`), and the check of a proof combines pairs on
the way up (`Proof.foldedPairs`), which are pairs of the tree if the proof was generated
(`Proof.isPair_of_generate`).

If the number of leaves is even, every leaf has a partner, so every node above the leaves is made of
a pair (`Tree.Covers.exists_isPair`).  A pair of the tree is then a pair of leaves, or both its
nodes are made of pairs (`Tree.Covers.leaves_or_nodes`).
-/

namespace ProvableRecord.Merkle

namespace Tree

variable {α : Type} {node : α → α → α} {leaves : List α} {t : Tree α}

/-- The two nodes are neighbours that a tree combines, in this order. -/
def IsPair (t : Tree α) (left right : α) : Prop :=
  ∃ row ∈ t.rows, ∃ i, row[2 * i]? = some left ∧ row[2 * i + 1]? = some right

/-- A node of the row above a row is made of a pair, or it is a last node without a partner. -/
theorem pair_or_lone {row : List α} {i : ℕ} {x : α} (h : (parents node row)[i]? = some x) :
    (∃ left right, row[2 * i]? = some left ∧ row[2 * i + 1]? = some right ∧ x = node left right)
      ∨ row[2 * i]? = some x ∧ row[2 * i + 1]? = none := by
  have hi : 2 * i < row.length := by
    have hlt := (List.getElem?_eq_some_iff.mp h).1
    rw [length_parents] at hlt
    omega
  have hleft : row[2 * i]? = some row[2 * i] := List.getElem?_eq_getElem hi
  cases hright : row[2 * i + 1]? with
  | some right =>
    rw [getElem?_parents_pair node hleft hright, Option.some_inj] at h
    exact .inl ⟨_, right, hleft, rfl, h.symm⟩
  | none =>
    rw [getElem?_parents_lone node hleft hright] at h
    exact .inr ⟨hleft.trans h, rfl⟩

/-- A row below the root is as many steps above the leaves as its position says. -/
theorem Covers.mem_rows_iff (h : Covers node leaves t) {row : List α} :
    row ∈ t.rows ↔ ∃ k < t.depth, row = (parents node)^[k] leaves := by
  rw [h.rows_eq]
  constructor
  · intro hrow
    obtain ⟨k, hk⟩ := List.getElem?_of_mem hrow
    have hlt := (List.getElem?_eq_some_iff.mp hk).1
    rw [length_levels] at hlt
    rw [getElem?_levels node leaves hlt, Option.some_inj] at hk
    exact ⟨k, hlt, hk.symm⟩
  · rintro ⟨k, hk, rfl⟩
    exact mem_levels node leaves hk

/-- **Every node above an even number of leaves is made of a pair** of the tree. -/
theorem Covers.exists_isPair (h : Covers node leaves t) (heven : Even leaves.length) {k : ℕ}
    (hk : k < t.depth) {x : α} (hx : x ∈ (parents node)^[k + 1] leaves) :
    ∃ left right, t.IsPair left right ∧ x = node left right := by
  induction k generalizing x with
  | zero =>
    obtain ⟨i, hi⟩ := List.getElem?_of_mem hx
    rcases pair_or_lone hi with ⟨left, right, hleft, hright, rfl⟩ | ⟨hleft, hright⟩
    · exact ⟨left, right, ⟨leaves, h.mem_rows_iff.mpr ⟨0, hk, rfl⟩, i, hleft, hright⟩, rfl⟩
    · -- a last leaf without a partner would make the number odd
      have hlt := (List.getElem?_eq_some_iff.mp hleft).1
      have hge := List.getElem?_eq_none_iff.mp hright
      obtain ⟨m, hm⟩ := heven
      omega
  | succ k ih =>
    have hrow := h.mem_rows_iff.mpr ⟨k + 1, hk, rfl⟩
    rw [Function.iterate_succ_apply'] at hx
    obtain ⟨i, hi⟩ := List.getElem?_of_mem hx
    rcases pair_or_lone hi with ⟨left, right, hleft, hright, rfl⟩ | ⟨hleft, -⟩
    · exact ⟨left, right, ⟨_, hrow, i, hleft, hright⟩, rfl⟩
    · exact ih (by omega) (List.mem_of_getElem? hleft)

/-- **A pair of a tree is a pair of leaves, or two nodes that are made of pairs.** -/
theorem Covers.leaves_or_nodes (h : Covers node leaves t) (heven : Even leaves.length) {x y : α}
    (hpair : t.IsPair x y) :
    (∃ i, leaves[2 * i]? = some x ∧ leaves[2 * i + 1]? = some y)
      ∨ (∃ left right, t.IsPair left right ∧ x = node left right)
        ∧ ∃ left right, t.IsPair left right ∧ y = node left right := by
  obtain ⟨row, hrow, i, hx, hy⟩ := hpair
  obtain ⟨k, hk, rfl⟩ := h.mem_rows_iff.mp hrow
  cases k with
  | zero => exact .inl ⟨i, hx, hy⟩
  | succ k =>
    have hk' : k < t.depth := by omega
    exact .inr ⟨h.exists_isPair heven hk' (List.mem_of_getElem? hx),
      h.exists_isPair heven hk' (List.mem_of_getElem? hy)⟩

/-- The pairs that the steps from `x` combine, one after the other. -/
def foldedPairs (node : α → α → α) : α → List (Step α) → List (α × α)
  | _, [] => []
  | x, s :: path => s.pair x :: foldedPairs node (s.apply node x) path

/-- A path through the levels combines neighbours of their rows. -/
theorem neighbours_of_mem_foldedPairs (node : α → α → α) (k : ℕ) {row : List α} {i : ℕ} {x : α}
    (hx : row[i]? = some x) {q : α × α}
    (hq : q ∈ foldedPairs node x (steps i (levels node k row))) :
    ∃ r ∈ levels node k row, ∃ j, r[2 * j]? = some q.1 ∧ r[2 * j + 1]? = some q.2 := by
  induction k generalizing row i x with
  | zero => cases hq
  | succ k ih =>
    rw [levels] at hq ⊢
    rcases steps_cons (levels node k (parents node row)) hx with
      ⟨s, hs, hleft, hright⟩ | ⟨hs, hleft, hright⟩
    · rw [hs] at hq
      rcases List.mem_cons.mp hq with rfl | hq
      · exact ⟨row, List.mem_cons_self, i / 2, hleft, hright⟩
      · rw [Step.apply_eq] at hq
        obtain ⟨r, hr, hpair⟩ := ih (getElem?_parents_pair node hleft hright) hq
        exact ⟨r, List.mem_cons_of_mem _ hr, hpair⟩
    · rw [hs] at hq
      obtain ⟨r, hr, hpair⟩ := ih (getElem?_parents_lone node hleft hright) hq
      exact ⟨r, List.mem_cons_of_mem _ hr, hpair⟩

/-- **The path of a leaf combines pairs of the tree.** -/
theorem Covers.isPair_of_mem_foldedPairs (h : Covers node leaves t) {i : ℕ} {x : α}
    (hx : leaves[i]? = some x) {q : α × α} (hq : q ∈ foldedPairs node x (steps i t.rows)) :
    t.IsPair q.1 q.2 := by
  rw [h.rows_eq] at hq
  rw [IsPair, h.rows_eq]
  exact neighbours_of_mem_foldedPairs node t.depth hx hq

end Tree

namespace Proof

/-- The pairs that the check of a proof combines, or none if its leaf or a sibling is no field
element. -/
def foldedPairs (p : Proof) : List (Fp × Fp) :=
  match Fp.ofNat? p.leaf, steps? p.index 0 p.siblings with
  | some leaf, some path => Tree.foldedPairs Poseidon.hash2 leaf path
  | _, _ => []

theorem foldedPairs_ofPath (root leaf : Fp) (path : List (Tree.Step Fp)) :
    (ofPath root leaf path).foldedPairs = Tree.foldedPairs Poseidon.hash2 leaf path := by
  have hleaf : Fp.ofNat? (ofPath root leaf path).leaf = some leaf := Fp.ofNat?_eq_some_iff.mpr rfl
  simp only [foldedPairs, hleaf, steps?_ofPath]

/-- The proof of a leaf folds pairs of the tree. -/
theorem isPair_of_generate {leaves : List Fp} {t : Tree Fp}
    (h : Tree.Covers Poseidon.hash2 leaves t) {i : ℕ} {p : Proof} (hp : generate t i = .ok p)
    (hi : i < leaves.length) : ∀ q ∈ p.foldedPairs, t.IsPair q.1 q.2 := by
  intro q hq
  have hx : leaves[i]? = some leaves[i] := List.getElem?_eq_getElem hi
  rw [generate_eq h hx, Except.ok.injEq] at hp
  rw [← hp, foldedPairs_ofPath] at hq
  exact h.isPair_of_mem_foldedPairs hx hq

/-- The first pair of a proof that verifies is its leaf and its first sibling, and bit 0 of the
index is their order. -/
theorem first_mem_foldedPairs {p : Proof} {n : ℕ} (h : p.verify = true)
    (hn : p.siblings.head? = some n) :
    ∃ leaf sibling : Fp, leaf.val = p.leaf ∧ sibling.val = n
      ∧ (if p.index.testBit 0 then (sibling, leaf) else (leaf, sibling)) ∈ p.foldedPairs := by
  obtain ⟨siblings, hsiblings⟩ : ∃ siblings, p.siblings = n :: siblings :=
    List.head?_eq_some_iff.mp hn
  unfold verify reached? at h
  rw [hsiblings] at h
  rw [foldedPairs, hsiblings]
  cases hleaf : Fp.ofNat? p.leaf with
  | none => simp [hleaf] at h
  | some leaf =>
    cases hsibling : Fp.ofNat? n with
    | none => simp [hleaf, steps?, hsibling] at h
    | some sibling =>
      cases hrest : steps? p.index (0 + 1) siblings with
      | none => simp [hleaf, steps?, hsibling, hrest] at h
      | some path =>
        have hpath : steps? p.index 0 (n :: siblings)
            = some (⟨p.index.testBit 0, sibling⟩ :: path) := by
          simp only [steps?, hsibling, hrest]
          rfl
        rw [hpath]
        exact ⟨leaf, sibling, Fp.ofNat?_eq_some_iff.mp hleaf, Fp.ofNat?_eq_some_iff.mp hsibling,
          List.mem_cons_self⟩

end Proof

end ProvableRecord.Merkle
