import ProvableRecord.Merkle.Proof
import ProvableRecord.Proofs.Merkle.Growth

/-!
# Paths lead to the root

The path from a position collects the partners that exist on the way up (`steps_cons`), and folding
it climbs the levels: after `k` rows it has reached the node at position `i / 2 ^ k`
(`foldSteps_steps`).  A proof writes the sides of the path into the digits of a number, from which
they are read back (`steps?_ofDirections`), so a proof that was made from the path of a leaf verifies
(`verify_ofPath`).
-/

namespace ProvableRecord.Merkle

namespace Tree

variable {α : Type} {node : α → α → α}

/-! ## Steps -/

/-- A right node takes one step, from the right. -/
theorem steps_odd {row : List α} {rows : List (List α)} {j : ℕ} {left : α}
    (hleft : row[2 * j]? = some left) :
    steps (2 * j + 1) (row :: rows) = ⟨true, left⟩ :: steps j rows := by
  have hhalf : (2 * j + 1) / 2 = j := by omega
  have hodd : ((2 * j + 1) % 2 == 1) = true := by
    rw [beq_iff_eq]
    omega
  simp only [steps, hodd, if_true, Nat.add_sub_cancel, hleft, hhalf]

/-- A left node takes a step if it has a partner. -/
theorem steps_even (row : List α) (rows : List (List α)) (j : ℕ) :
    steps (2 * j) (row :: rows) = match row[2 * j + 1]? with
      | some right => ⟨false, right⟩ :: steps j rows
      | none => steps j rows := by
  have hhalf : 2 * j / 2 = j := by omega
  have heven : (2 * j % 2 == 1) = false := by
    rw [beq_eq_false_iff_ne]
    omega
  cases hright : row[2 * j + 1]? <;>
    simp only [steps, heven, Bool.false_eq_true, if_false, hright, hhalf]

/-- A row gives at most one step. -/
theorem length_steps_le (i : ℕ) (rows : List (List α)) : (steps i rows).length ≤ rows.length := by
  induction rows generalizing i with
  | nil => exact Nat.le_refl 0
  | cons row rows ih =>
    have hrest := ih (i / 2)
    simp only [steps]
    split
    · rw [List.length_cons, List.length_cons]
      omega
    · rw [List.length_cons]
      omega

/-- The pair that a step from `x` combines. -/
def Step.pair (x : α) (s : Step α) : α × α :=
  if s.fromRight then (s.sibling, x) else (x, s.sibling)

theorem Step.apply_eq (node : α → α → α) (x : α) (s : Step α) :
    s.apply node x = node (s.pair x).1 (s.pair x).2 := by
  rw [apply, pair]
  split <;> rfl

/-- A path goes on with a step that combines the pair at its position, or it has a left node without
a partner there and takes no step. -/
theorem steps_cons {row : List α} (rows : List (List α)) {i : ℕ} {x : α} (hx : row[i]? = some x) :
    (∃ s, steps i (row :: rows) = s :: steps (i / 2) rows
        ∧ row[2 * (i / 2)]? = some (s.pair x).1 ∧ row[2 * (i / 2) + 1]? = some (s.pair x).2)
      ∨ steps i (row :: rows) = steps (i / 2) rows
        ∧ row[2 * (i / 2)]? = some x ∧ row[2 * (i / 2) + 1]? = none := by
  obtain ⟨j, rfl | rfl⟩ : ∃ j, i = 2 * j ∨ i = 2 * j + 1 := ⟨i / 2, by omega⟩
  · have hhalf : 2 * j / 2 = j := by omega
    rw [hhalf, steps_even]
    cases hright : row[2 * j + 1]? with
    | some right => exact .inl ⟨⟨false, right⟩, rfl, hx, rfl⟩
    | none => exact .inr ⟨rfl, hx, rfl⟩
  · have hhalf : (2 * j + 1) / 2 = j := by omega
    obtain ⟨left, hleft⟩ : ∃ left, row[2 * j]? = some left := by
      have hlt := (List.getElem?_eq_some_iff.mp hx).1
      exact ⟨row[2 * j], List.getElem?_eq_getElem (by omega)⟩
    rw [hhalf, steps_odd hleft]
    exact .inl ⟨⟨true, left⟩, rfl, hleft, hx⟩

/-- **A path climbs the levels.** -/
theorem foldSteps_steps (node : α → α → α) (k : ℕ) {row : List α} {i : ℕ} {x : α}
    (hx : row[i]? = some x) :
    ((parents node)^[k] row)[i / 2 ^ k]?
      = some (foldSteps node x (steps i (levels node k row))) := by
  induction k generalizing row i x with
  | zero =>
    rw [Nat.pow_zero, Nat.div_one]
    exact hx
  | succ k ih =>
    rw [Function.iterate_succ_apply, Nat.pow_succ', ← Nat.div_div_eq_div_mul, levels]
    rcases steps_cons (levels node k (parents node row)) hx with
      ⟨s, hs, hleft, hright⟩ | ⟨hs, hleft, hright⟩
    · rw [hs, ih (getElem?_parents_pair node hleft hright), ← Step.apply_eq node x s]
      rfl
    · rw [hs, ih (getElem?_parents_lone node hleft hright)]

/-- The path of a leaf ends at the root. -/
theorem Covers.foldSteps_eq {leaves : List α} {t : Tree α} (h : Covers node leaves t) {i : ℕ}
    {x : α} (hx : leaves[i]? = some x) : foldSteps node x (steps i t.rows) = t.root := by
  have hi : i < leaves.length := (List.getElem?_eq_some_iff.mp hx).1
  have hroom : i < 2 ^ t.depth := by
    rw [h.depth_eq]
    exact hi.trans_le (Nat.le_pow_clog Nat.one_lt_two _)
  have hpath := foldSteps_steps node t.depth hx
  rw [h.root_eq, Nat.div_eq_of_lt hroom, ← h.rows_eq] at hpath
  exact (Option.some_inj.mp hpath).symm

end Tree

namespace Proof

/-! ## Proofs -/

theorem ofDirections_lt (bs : List Bool) : ofDirections bs < 2 ^ bs.length := by
  induction bs with
  | nil => exact Nat.one_pos
  | cons b bs ih =>
    have hb : b.toNat ≤ 1 := Bool.toNat_le b
    rw [ofDirections, List.length_cons, Nat.pow_succ]
    omega

/-- The digits of a number that was written from directions are the directions. -/
theorem ofDirections_cons_mod (b : Bool) (bs : List Bool) :
    (decide (ofDirections (b :: bs) % 2 = 1)) = b := by
  rw [ofDirections, Nat.add_mul_mod_self_left]
  cases b <;> rfl

/-- **The steps of a proof are read back** from the digits of its index and its siblings. -/
theorem steps?_ofDirections (path : List (Tree.Step Fp)) {index k : ℕ}
    (h : index / 2 ^ k = ofDirections (path.map (·.fromRight))) :
    steps? index k (path.map (·.sibling.val)) = some path := by
  induction path generalizing k with
  | nil => rfl
  | cons s path ih =>
    have hbit : index.testBit k = s.fromRight := by
      rw [Nat.testBit_eq_decide_div_mod_eq, h, List.map_cons, ofDirections_cons_mod]
    have hnext : index / 2 ^ (k + 1) = ofDirections (path.map (·.fromRight)) := by
      have hb : s.fromRight.toNat ≤ 1 := Bool.toNat_le _
      rw [Nat.pow_succ, ← Nat.div_div_eq_div_mul, h, List.map_cons, ofDirections]
      omega
    have hsibling : Fp.ofNat? s.sibling.val = some s.sibling := Fp.ofNat?_eq_some_iff.mpr rfl
    simp only [List.map_cons, steps?, hsibling, ih hnext, hbit]
    rfl

/-- The proof that a path makes. -/
def ofPath (root leaf : Fp) (path : List (Tree.Step Fp)) : Proof :=
  ⟨root.val, leaf.val, ofDirections (path.map (·.fromRight)), path.map (·.sibling.val)⟩

/-- A proof describes the path that made it. -/
theorem steps?_ofPath (root leaf : Fp) (path : List (Tree.Step Fp)) :
    steps? (ofPath root leaf path).index 0 (ofPath root leaf path).siblings = some path :=
  steps?_ofDirections path (by rw [ofPath, Nat.pow_zero, Nat.div_one])

/-- The index has no digits beyond the steps. -/
theorem ofPath_index_lt (root leaf : Fp) (path : List (Tree.Step Fp)) :
    (ofPath root leaf path).index < 2 ^ path.length := by
  have hlt := ofDirections_lt (path.map (·.fromRight))
  rwa [List.length_map] at hlt

/-- The path of a proof leads where it led before it was written down. -/
theorem verify_ofPath {root leaf : Fp} {path : List (Tree.Step Fp)}
    (h : Tree.foldSteps Poseidon.hash2 leaf path = root) :
    (ofPath root leaf path).verify = true := by
  have hleaf : Fp.ofNat? (ofPath root leaf path).leaf = some leaf := Fp.ofNat?_eq_some_iff.mpr rfl
  have hreached : (ofPath root leaf path).reached? = some root := by
    simp only [reached?, hleaf, steps?_ofPath]
    exact congrArg some h
  rw [verify, hreached]
  exact beq_self_eq_true _

theorem generate_eq {leaves : List Fp} {t : Tree Fp} {node : Fp → Fp → Fp}
    (h : Tree.Covers node leaves t) {i : ℕ} {x : Fp} (hx : leaves[i]? = some x) :
    generate t i = .ok (ofPath t.root x (Tree.steps i t.rows)) := by
  have hpath : t.path? i = some (x, Tree.steps i t.rows) := by
    rw [Tree.path?, h.leaves_eq, hx]
    rfl
  rw [generate, hpath]
  rfl

end Proof

end ProvableRecord.Merkle
