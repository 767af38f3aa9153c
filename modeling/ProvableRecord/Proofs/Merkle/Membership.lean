import ProvableRecord.Proofs.Merkle.Path

/-!
# Exactly the leaves have proofs

A position without a leaf has no proof, and the error names the position and the number of leaves
(`generate_eq_error`).  The proof for the position of a leaf describes the path from there to the
root (`shows_of_generate`).

A tree of any size has such paths: its rows are the levels over its leaves, however it grew, and
folding a path climbs these.  So every proof that is generated is accepted (`generate_complete`).
-/

namespace ProvableRecord.Merkle.Proof

/-- What the proof for position `i` of a tree says, and that it is accepted. -/
structure Shows (t : Tree Fp) (i : ℕ) (p : Proof) : Prop where
  leaf_eq : ∃ x, t.leaves[i]? = some x ∧ p.leaf = x.val
  root_eq : p.root = t.root.val
  /-- The siblings are the partners that exist on the way up, and the digits of the index are the
  sides of the path. -/
  path_eq : steps? p.index 0 p.siblings = some (Tree.steps i t.rows)
  length_le : p.siblings.length ≤ t.depth
  /-- The index has no digits beyond the steps. -/
  index_lt : p.index < 2 ^ p.siblings.length
  verify_eq : p.verify = true

variable {leaves : List Fp} {t : Tree Fp} {i : ℕ} {p : Proof}

/-- A position without a leaf has no proof. -/
theorem generate_eq_error (h : t.size ≤ i) :
    generate t i = .error (.leafOutOfRange i t.size) := by
  have hnone : t.leaves[i]? = none := List.getElem?_eq_none_iff.mpr h
  have hpath : t.path? i = none := by rw [Tree.path?, hnone, Option.map_none]
  rw [generate, hpath]

theorem lt_size_of_generate (h : generate t i = .ok p) : i < t.size := by
  by_contra hi
  rw [generate_eq_error (not_lt.mp hi)] at h
  cases h

/-- The path from a leaf makes a proof. -/
theorem shows_ofPath (h : Tree.Covers Poseidon.hash2 leaves t) {x : Fp} (hx : leaves[i]? = some x) :
    Shows t i (ofPath t.root x (Tree.steps i t.rows)) where
  leaf_eq := ⟨x, by rw [h.leaves_eq, hx], rfl⟩
  root_eq := rfl
  path_eq := steps?_ofPath _ _ _
  length_le := by
    rw [ofPath, List.length_map]
    exact Tree.length_steps_le i t.rows
  index_lt := by
    have hlt := ofPath_index_lt t.root x (Tree.steps i t.rows)
    rw [ofPath, List.length_map]
    exact hlt
  verify_eq := verify_ofPath (h.foldSteps_eq hx)

/-- Every position of a leaf has a proof. -/
theorem exists_generate (h : Tree.Covers Poseidon.hash2 leaves t) (hi : i < t.size) :
    ∃ p, generate t i = .ok p ∧ Shows t i p := by
  rw [h.size_eq] at hi
  have hx : leaves[i]? = some leaves[i] := List.getElem?_eq_getElem hi
  exact ⟨_, generate_eq h hx, shows_ofPath h hx⟩

/-- **A proof that is generated is accepted** and shows the leaf at its position. -/
theorem shows_of_generate (h : Tree.Covers Poseidon.hash2 leaves t) (hp : generate t i = .ok p) :
    Shows t i p := by
  obtain ⟨q, hq, hshows⟩ := exists_generate h (lt_size_of_generate hp)
  rw [hp, Except.ok.injEq] at hq
  exact hq ▸ hshows

/-- **Exactly the positions of leaves have proofs, and these are accepted**: in every tree, whatever
leaves it was made of at first and one by one later. -/
theorem generate_complete (leaf : Fp) (rest later : List Fp) :
    ∃ t, Tree.grow Poseidon.hash2 (leaf :: rest) later = some t
      ∧ t.leaves = leaf :: rest ++ later
      ∧ ∀ i, ((∃ p, generate t i = .ok p) ↔ i < t.size)
        ∧ (t.size ≤ i → generate t i = .error (.leafOutOfRange i t.size))
        ∧ ∀ p, generate t i = .ok p → Shows t i p := by
  obtain ⟨t, ht, hcovers⟩ := Tree.grow_cons Poseidon.hash2 leaf rest later
  refine ⟨t, ht, hcovers.leaves_eq, fun i => ⟨⟨?_, ?_⟩, generate_eq_error, fun p hp => ?_⟩⟩
  · rintro ⟨p, hp⟩
    exact lt_size_of_generate hp
  · intro hi
    obtain ⟨p, hp, -⟩ := exists_generate hcovers hi
    exact ⟨p, hp⟩
  · exact shows_of_generate hcovers hp

end ProvableRecord.Merkle.Proof
