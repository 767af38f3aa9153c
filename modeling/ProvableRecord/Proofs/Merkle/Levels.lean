import Mathlib.Algebra.Group.Nat.Defs
import Mathlib.Data.Nat.Log
import Mathlib.Logic.Function.Iterate
import ProvableRecord.Merkle.Tree

/-!
# A grown tree is the tree built level by level

`parents node row` is the row above `row`, computed from the whole row at once, and `levels` stacks
such rows.  The invariant of a tree that holds `leaves` is one equation between all its rows and the
levels over its leaves (`Covers`).

A new leaf reaches one position of each row.  The position is the last one of the row or the one
after it, so what is written there either replaces the last node or extends the row
(`write_eq_take`), and the row above changes in the same way (`parents_take_append`).  Hence `climb`
takes the levels over a row to the levels over the longer row (`climb_levels`), and `insert`
preserves the invariant (`Covers.insert`).

`LevelByLevel` spells the levels out, node by node.
-/

namespace ProvableRecord.Merkle.Tree

variable {α : Type} (node : α → α → α)

/-- The row above a row: one node for each pair, and a last node without a partner as it is. -/
def parents : List α → List α
  | [] => []
  | [x] => [x]
  | left :: right :: row => node left right :: parents row

/-- The first `k` rows over a row, beginning with the row itself. -/
def levels : ℕ → List α → List (List α)
  | 0, _ => []
  | k + 1, row => row :: levels k (parents node row)

/-! ## One row -/

theorem length_parents (row : List α) : (parents node row).length = (row.length + 1) / 2 := by
  induction row using parents.induct with
  | case1 => simp [parents]
  | case2 x => simp [parents]
  | case3 left right row ih =>
    simp only [parents, List.length_cons, ih]
    omega

/-- The node above a pair. -/
theorem getElem?_parents_pair {row : List α} {i : ℕ} {left right : α}
    (hleft : row[2 * i]? = some left) (hright : row[2 * i + 1]? = some right) :
    (parents node row)[i]? = some (node left right) := by
  induction row using parents.induct generalizing i with
  | case1 => cases hleft
  | case2 x => cases hright
  | case3 a b row ih =>
    cases i with
    | zero =>
      cases hleft
      cases hright
      rfl
    | succ i => exact ih hleft hright

/-- The node above a node without a partner. -/
theorem getElem?_parents_lone {row : List α} {i : ℕ} {x : α}
    (hleft : row[2 * i]? = some x) (hright : row[2 * i + 1]? = none) :
    (parents node row)[i]? = some x := by
  induction row using parents.induct generalizing i with
  | case1 => cases hleft
  | case2 y =>
    cases i with
    | zero => exact hleft
    | succ i => cases hleft
  | case3 a b row ih =>
    cases i with
    | zero => cases hright
    | succ i => exact ih hleft hright

/-- A node of the row above is a node of the row, or made of two of them. -/
theorem eq_of_mem_parents {row : List α} {x : α} (h : x ∈ parents node row) :
    x ∈ row ∨ ∃ left ∈ row, ∃ right ∈ row, x = node left right := by
  induction row using parents.induct with
  | case1 => exact .inl h
  | case2 y => exact .inl h
  | case3 a b row ih =>
    rcases List.mem_cons.mp h with rfl | h
    · exact .inr ⟨a, List.mem_cons_self, b, List.mem_cons_of_mem a List.mem_cons_self, rfl⟩
    · have hsub : ∀ {y}, y ∈ row → y ∈ a :: b :: row := fun hy =>
        List.mem_cons_of_mem a (List.mem_cons_of_mem b hy)
      rcases ih h with hx | ⟨left, hleft, right, hright, rfl⟩
      · exact .inl (hsub hx)
      · exact .inr ⟨left, hsub hleft, right, hsub hright, rfl⟩

/-- Nothing is written before the last node of a row, so writing is cutting and appending. -/
theorem write_eq_take {row : List α} {i : ℕ} (hi : i ≤ row.length) (hlast : row.length ≤ i + 1)
    (x : α) : write row i x = row.take i ++ [x] := by
  rw [write]
  by_cases h : i < row.length
  · rw [if_pos h, List.set_eq_take_append_cons_drop, if_pos h, List.drop_of_length_le hlast]
  · rw [if_neg h, List.take_of_length_le (by omega)]

/-- **A row changes as the row below it does.** -/
theorem parents_take_append {row : List α} {i : ℕ} (hi : i ≤ row.length) (x : α) :
    parents node (row.take i ++ [x])
      = (parents node row).take (i / 2) ++ [carry node row i x] := by
  induction row using parents.induct generalizing i with
  | case1 =>
    obtain rfl : i = 0 := by simpa using hi
    rfl
  | case2 y =>
    match i with
    | 0 => rfl
    | 1 => rfl
    | i + 2 => exact absurd hi (by simp)
  | case3 a b row ih =>
    match i with
    | 0 => rfl
    | 1 => rfl
    | i + 2 =>
      have hi' : i ≤ row.length := by
        simp only [List.length_cons] at hi
        omega
      have hhalf : (i + 2) / 2 = i / 2 + 1 := by omega
      -- the left partner is further on in the row than the first pair
      have hcarry : carry node (a :: b :: row) (i + 2) x = carry node row i x := by
        simp only [carry, Nat.add_mod_right]
        split
        · next hodd =>
          have hpos : i + 2 - 1 = i - 1 + 1 + 1 := by omega
          rw [hpos, List.getElem?_cons_succ, List.getElem?_cons_succ]
        · rfl
      show node a b :: parents node (row.take i ++ [x]) = _
      rw [ih hi', hhalf, hcarry]
      rfl

/-- A map that respects `node` respects rows. -/
theorem map_parents {β : Type} {node : α → α → α} {node' : β → β → β} {f : α → β}
    (hf : ∀ a b, f (node a b) = node' (f a) (f b)) (row : List α) :
    (parents node row).map f = parents node' (row.map f) := by
  induction row using parents.induct with
  | case1 => rfl
  | case2 x => rfl
  | case3 a b row ih => simp only [parents, List.map_cons, hf, ih]

/-! ## All rows -/

theorem length_levels (k : ℕ) (row : List α) : (levels node k row).length = k := by
  induction k generalizing row with
  | zero => rfl
  | succ k ih => rw [levels, List.length_cons, ih]

theorem map_levels {β : Type} {node : α → α → α} {node' : β → β → β} {f : α → β}
    (hf : ∀ a b, f (node a b) = node' (f a) (f b)) (k : ℕ) (row : List α) :
    (levels node k row).map (List.map f) = levels node' k (row.map f) := by
  induction k generalizing row with
  | zero => rfl
  | succ k ih => rw [levels, List.map_cons, ih, map_parents hf, levels]

theorem levels_succ (k : ℕ) (row : List α) :
    levels node (k + 1) row = levels node k row ++ [(parents node)^[k] row] := by
  induction k generalizing row with
  | zero => rfl
  | succ k ih =>
    rw [levels, ih (parents node row), levels, List.cons_append, Function.iterate_succ_apply]

theorem getElem?_levels {k j : ℕ} (row : List α) (hj : j < k) :
    (levels node k row)[j]? = some ((parents node)^[j] row) := by
  induction k generalizing j row with
  | zero => omega
  | succ k ih =>
    cases j with
    | zero => rfl
    | succ j =>
      rw [levels, List.getElem?_cons_succ, ih _ (by omega), Function.iterate_succ_apply]

theorem mem_levels {k j : ℕ} (row : List α) (hj : j < k) :
    (parents node)^[j] row ∈ levels node k row :=
  List.mem_of_getElem? (getElem?_levels node row hj)

/-- Each row is half as long as the row below it, rounded up. -/
theorem length_iterate_parents (k : ℕ) (row : List α) :
    ((parents node)^[k] row).length = (row.length + 2 ^ k - 1) / 2 ^ k := by
  induction k generalizing row with
  | zero => rw [Function.iterate_zero_apply, Nat.pow_zero, Nat.div_one, Nat.add_sub_cancel]
  | succ k ih =>
    have hpos : 0 < 2 ^ k := Nat.two_pow_pos k
    have hhalf : (row.length + 1) / 2 + 2 ^ k - 1 = (row.length + 2 ^ (k + 1) - 1) / 2 := by
      rw [Nat.pow_succ]
      omega
    rw [Function.iterate_succ_apply, ih, length_parents, hhalf, Nat.div_div_eq_div_mul,
      Nat.pow_succ']

/-- **Climbing takes the levels over a row to the levels over the changed row**, and ends with the
node that the change adds above them. -/
theorem climb_levels (k : ℕ) {row : List α} {i : ℕ} (hi : i ≤ row.length)
    (hlast : row.length ≤ i + 1) (x : α) :
    (climb node i x (levels node k row)).1 = levels node k (row.take i ++ [x])
      ∧ (parents node)^[k] (row.take i ++ [x])
        = ((parents node)^[k] row).take (i / 2 ^ k)
          ++ [(climb node i x (levels node k row)).2] := by
  induction k generalizing row i x with
  | zero =>
    refine ⟨rfl, ?_⟩
    rw [Nat.pow_zero, Nat.div_one]
    rfl
  | succ k ih =>
    have hlength := length_parents node row
    -- the position in the row above is the last one or the one after it, too
    have hi' : i / 2 ≤ (parents node row).length := by omega
    have hlast' : (parents node row).length ≤ i / 2 + 1 := by omega
    obtain ⟨hrows, htop⟩ := ih hi' hlast' (carry node row i x)
    rw [← parents_take_append node hi] at hrows htop
    constructor
    · show write row i x :: (climb node (i / 2) _ (levels node k (parents node row))).1 = _
      rw [hrows, write_eq_take hi hlast, levels]
    · rw [Function.iterate_succ_apply, htop, Nat.div_div_eq_div_mul, ← Nat.pow_succ']
      rfl

end ProvableRecord.Merkle.Tree
