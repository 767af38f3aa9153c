import ProvableRecord.Proofs.Merkle.Membership
import ProvableRecord.Proofs.Merkle.PositionBinding

/-!
# Directions tell leaves apart

Read from the root down, the digits of an index are the way to a leaf: `false` for the left child
and `true` for the right one (`Proof.directions`).  Levels at which a node moves up without a
partner take no step, so a leaf that moves up has a shorter way than its position suggests.  Still
no way begins with the way of another leaf (`Proof.directions_prefixFree`), so the number of
siblings and the index tell which leaf a proof is for.

A path stores its sides from the leaf up, so it is shown that the sides of one leaf are not the end
of those of another (`Tree.eq_of_sides_suffix`).  A row puts at most one side in front of those of
the rows above (`Tree.sides_suffix`), and two nodes that meet there put different ones.
-/

namespace ProvableRecord.Merkle

namespace Tree

variable {α : Type} {node : α → α → α}

/-- The sides that a path comes from, from the leaf up. -/
def sides (i : ℕ) (rows : List (List α)) : List Bool := (steps i rows).map (·.fromRight)

/-! ## One row -/

/-- A node with a partner adds its side. -/
theorem sides_cons {row : List α} (rows : List (List α)) {i : ℕ}
    (h : 2 * (i / 2) + 1 < row.length) :
    sides i (row :: rows) = (i % 2 == 1) :: sides (i / 2) rows := by
  have hpartner : (if (i % 2 == 1) = true then i - 1 else i + 1) < row.length := by
    simp only [beq_iff_eq]
    split <;> omega
  simp only [sides, steps, List.getElem?_eq_getElem hpartner]
  rfl

/-- The sides further up are the end of the sides of a path. -/
theorem sides_suffix (i : ℕ) (row : List α) (rows : List (List α)) :
    sides (i / 2) rows <:+ sides i (row :: rows) := by
  simp only [sides, steps]
  split
  · exact List.suffix_cons _ _
  · exact List.suffix_refl _

/-- Two nodes under one node have different sides, so the path of one is not the end of the path of
the other. -/
theorem eq_of_sides_suffix_of_half_eq {row : List α} {rows : List (List α)} {i j : ℕ}
    (hi : i < row.length) (hj : j < row.length) (hhalf : i / 2 = j / 2)
    (h : sides i (row :: rows) <:+ sides j (row :: rows)) : i = j := by
  by_contra hne
  have hpair : 2 * (j / 2) + 1 < row.length := by omega
  rw [sides_cons rows (hhalf ▸ hpair), sides_cons rows hpair, hhalf] at h
  have hsides := h.eq_of_length (by rw [List.length_cons, List.length_cons])
  have hside := (List.cons.inj hsides).1
  rw [beq_eq_beq] at hside
  omega

/-! ## All rows -/

/-- **No path is the end of another** on the way from the nodes of a row to one node. -/
theorem eq_of_sides_suffix (node : α → α → α) (k : ℕ) {row : List α} (hrow : row.length ≤ 2 ^ k)
    {i j : ℕ} (hi : i < row.length) (hj : j < row.length)
    (h : sides i (levels node k row) <:+ sides j (levels node k row)) : i = j := by
  induction k generalizing row i j with
  | zero =>
    rw [Nat.pow_zero] at hrow
    omega
  | succ k ih =>
    rw [levels] at h
    have hlength := length_parents node row
    have hroom : (parents node row).length ≤ 2 ^ k := by
      rw [Nat.pow_succ] at hrow
      omega
    have hi' : i / 2 < (parents node row).length := by omega
    have hj' : j / 2 < (parents node row).length := by omega
    -- the ways further up are both ends of the longer path, so one is the end of the other
    have hi_end := (sides_suffix i row (levels node k (parents node row))).trans h
    have hj_end := sides_suffix j row (levels node k (parents node row))
    have hhalf : i / 2 = j / 2 := by
      rcases List.suffix_or_suffix_of_suffix hi_end hj_end with hend | hend
      · exact ih hroom hi' hj' hend
      · exact (ih hroom hj' hi' hend).symm
    exact eq_of_sides_suffix_of_half_eq hi hj hhalf h

/-- Of five leaves, the last one moves up twice and takes a single step. -/
example (a b c d e : α) :
    (List.range 5).map (fun i => (sides i (levels node 3 [a, b, c, d, e])).reverse)
      = [[false, false, false], [false, false, true], [false, true, false], [false, true, true],
        [true]] := rfl

/-- In a tree no path is the end of another. -/
theorem Covers.eq_of_sides_suffix {leaves : List α} {t : Tree α} (h : Covers node leaves t)
    {i j : ℕ} (hi : i < t.size) (hj : j < t.size)
    (hsuffix : sides i t.rows <:+ sides j t.rows) : i = j := by
  rw [h.size_eq] at hi hj
  rw [h.rows_eq] at hsuffix
  have hroom : leaves.length ≤ 2 ^ t.depth := by
    rw [h.depth_eq]
    exact Nat.le_pow_clog Nat.one_lt_two _
  exact Tree.eq_of_sides_suffix node t.depth hroom hi hj hsuffix

end Tree

namespace Proof

/-! ## Proofs -/

/-- The way from the root to the leaf: `true` where it takes the right child. -/
def directions (p : Proof) : List Bool :=
  ((List.range p.siblings.length).map p.index.testBit).reverse

/-- The number of siblings and the index determine the way. -/
theorem directions_congr {p q : Proof} (hlength : p.siblings.length = q.siblings.length)
    (hindex : p.index = q.index) : p.directions = q.directions := by
  rw [directions, directions, hlength, hindex]

/-- The way of a generated proof is that of the path at its position. -/
theorem Shows.directions_eq {t : Tree Fp} {i : ℕ} {p : Proof} (h : Shows t i p) :
    p.directions = (Tree.sides i t.rows).reverse := by
  rw [directions, Tree.sides, (of_steps? h.path_eq).2, List.range_eq_range']

/-- A way that begins with the way to a leaf leads to this leaf. -/
theorem eq_of_directions_begin {leaves : List Fp} {t : Tree Fp}
    (h : Tree.Covers Poseidon.hash2 leaves t) {i j : ℕ} {p q : Proof}
    (hp : generate t i = .ok p) (hq : generate t j = .ok q)
    (hbegin : p.directions <+: q.directions) : i = j := by
  rw [(shows_of_generate h hp).directions_eq, (shows_of_generate h hq).directions_eq,
    List.reverse_prefix] at hbegin
  exact h.eq_of_sides_suffix (lt_size_of_generate hp) (lt_size_of_generate hq) hbegin

/-- **Directions tell leaves apart.**  In every tree, however it grew, the proofs for two positions
differ in the number of siblings or in the index, and neither leaf is on the way to the other. -/
theorem directions_prefixFree {start later : List Fp} {t : Tree Fp}
    (ht : Tree.grow Poseidon.hash2 start later = some t) {i j : ℕ} (hi : i < t.size)
    (hj : j < t.size) (hne : i ≠ j) :
    ∃ p q, generate t i = .ok p ∧ generate t j = .ok q
      ∧ (p.siblings.length, p.index) ≠ (q.siblings.length, q.index)
      ∧ ¬ p.directions <+: q.directions ∧ ¬ q.directions <+: p.directions := by
  have hcovers := Tree.covers_of_grow ht
  obtain ⟨p, hp, -⟩ := exists_generate hcovers hi
  obtain ⟨q, hq, -⟩ := exists_generate hcovers hj
  have hpq : ¬ p.directions <+: q.directions := fun h =>
    hne (eq_of_directions_begin hcovers hp hq h)
  have hqp : ¬ q.directions <+: p.directions := fun h =>
    hne (eq_of_directions_begin hcovers hq hp h).symm
  refine ⟨p, q, hp, hq, ?_, hpq, hqp⟩
  intro hsame
  obtain ⟨hlength, hindex⟩ := Prod.mk.inj hsame
  exact hpq (directions_congr hlength hindex ▸ List.prefix_refl _)

/-- Of five leaves, the last one and the second one, whose way is longer by two steps. -/
theorem directions_prefixFree_five :
    ∃ t, Tree.grow Poseidon.hash2 [1, 2, 3] [4, 5] = some t ∧ 4 < t.size ∧ 1 < t.size ∧ 4 ≠ 1
      ∧ ∃ p q, generate t 4 = .ok p ∧ generate t 1 = .ok q
        ∧ (p.siblings.length, p.index) ≠ (q.siblings.length, q.index)
        ∧ ¬ p.directions <+: q.directions ∧ ¬ q.directions <+: p.directions := by
  obtain ⟨t, ht, hcovers⟩ := Tree.grow_cons Poseidon.hash2 1 [2, 3] [4, 5]
  have hsize : t.size = 5 := hcovers.size_eq
  have hlast : 4 < t.size := by omega
  have hsecond : 1 < t.size := by omega
  have hne : 4 ≠ 1 := by decide
  exact ⟨t, ht, hlast, hsecond, hne, directions_prefixFree ht hlast hsecond hne⟩

end Proof

end ProvableRecord.Merkle
