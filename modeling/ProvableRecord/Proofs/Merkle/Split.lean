import Mathlib.Data.Option.NAry
import Mathlib.Order.Bounds.Defs
import ProvableRecord.Proofs.Merkle.Growth

/-!
# The root by halves

A tree that grew leaf by leaf has the root that halving gives: the leaves are cut after the largest
power of two below their number (`leftCount`), and the root is the node of the roots of the two
parts (`splitRoot`).

The row above a row is computed pair by pair, so a cut after an even number of nodes is a cut of the
row above (`parents_append`), and a cut after `2 ^ k` leaves stays one for `k` rows
(`iterate_parents_append`).  At that height the left part has come down to its root, and so has the
right part: a tree that is lower keeps its root as a lone node in every further row
(`Covers.iterate_parents_eq`).  One more row joins the two (`Covers.root_append`).
-/

namespace ProvableRecord.Merkle.Tree

variable {α : Type} {node : α → α → α}

/-! ## Where to cut -/

/-- The largest power of two below a number of at least two. -/
def leftCount (n : ℕ) : ℕ := 2 ^ Nat.log 2 (n - 1)

theorem leftCount_pos (n : ℕ) : 0 < leftCount n := Nat.two_pow_pos _

theorem leftCount_lt {n : ℕ} (h : 2 ≤ n) : leftCount n < n := by
  have hle : leftCount n ≤ n - 1 := Nat.pow_log_le_self 2 (by omega)
  omega

/-- The right part is not longer than the left one. -/
theorem le_two_mul_leftCount (n : ℕ) : n ≤ 2 * leftCount n := by
  have hlt := Nat.lt_pow_succ_log_self Nat.one_lt_two (n - 1)
  rw [Nat.pow_succ'] at hlt
  rw [leftCount]
  omega

theorem isGreatest_leftCount {n : ℕ} (h : 2 ≤ n) :
    IsGreatest {m | m < n ∧ ∃ k, m = 2 ^ k} (leftCount n) := by
  refine ⟨⟨leftCount_lt h, _, rfl⟩, ?_⟩
  rintro m ⟨hm, k, rfl⟩
  have hpred : 2 ^ k ≤ n - 1 := by omega
  have hk : k ≤ Nat.log 2 (n - 1) := (Nat.le_log_iff_pow_le Nat.one_lt_two (by omega)).mpr hpred
  exact Nat.pow_le_pow_right Nat.two_pos hk

/-- The root of some leaves by halves: of one leaf the leaf, of more the node of the roots of the
first `leftCount` leaves and of the others. -/
def splitRoot (node : α → α → α) : List α → Option α
  | [] => none
  | [leaf] => some leaf
  | a :: b :: rest =>
    Option.map₂ node
      (splitRoot node ((a :: b :: rest).take (leftCount (a :: b :: rest).length)))
      (splitRoot node ((a :: b :: rest).drop (leftCount (a :: b :: rest).length)))
termination_by leaves => leaves.length
decreasing_by
  · have hlt : leftCount (a :: b :: rest).length < _ := leftCount_lt (Nat.le_add_left 2 rest.length)
    rw [List.length_take_of_le hlt.le]
    exact hlt
  · rw [List.length_drop]
    exact Nat.sub_lt (Nat.succ_pos _) (leftCount_pos _)

/-! ## Rows of two parts -/

/-- A cut between two pairs is a cut of the row above. -/
theorem parents_append {left : List α} (h : 2 ∣ left.length) (right : List α) :
    parents node (left ++ right) = parents node left ++ parents node right := by
  induction left using parents.induct with
  | case1 => rfl
  | case2 x =>
    rw [List.length_singleton] at h
    omega
  | case3 a b left ih =>
    have hleft : 2 ∣ left.length := by
      simp only [List.length_cons] at h
      omega
    simp only [List.cons_append, parents, ih hleft]

/-- **A cut after a multiple of `2 ^ k` nodes stays a cut for `k` rows.** -/
theorem iterate_parents_append (k : ℕ) {left : List α} (h : 2 ^ k ∣ left.length)
    (right : List α) :
    (parents node)^[k] (left ++ right)
      = (parents node)^[k] left ++ (parents node)^[k] right := by
  induction k generalizing left right with
  | zero => rfl
  | succ k ih =>
    rw [Nat.pow_succ'] at h
    have heven : 2 ∣ left.length := Nat.dvd_trans (Nat.dvd_mul_right 2 (2 ^ k)) h
    have habove : 2 ^ k ∣ (parents node left).length := by
      obtain ⟨c, hc⟩ := h
      refine ⟨c, ?_⟩
      rw [length_parents, hc, Nat.mul_assoc]
      omega
    simp only [Function.iterate_succ_apply, parents_append heven, ih habove]

/-! ## Trees of two parts -/

variable {leaves left right : List α} {t l r : Tree α}

/-- From the height of a tree on, a row is its root alone. -/
theorem Covers.iterate_parents_eq (h : Covers node leaves t) {k : ℕ}
    (hk : leaves.length ≤ 2 ^ k) : (parents node)^[k] leaves = [t.root] := by
  have hdepth : t.depth ≤ k := by
    rw [h.depth_eq]
    exact Nat.clog_le_of_le_pow hk
  obtain ⟨j, rfl⟩ := Nat.exists_eq_add_of_le' hdepth
  rw [Function.iterate_add_apply, h.root_eq]
  exact Function.iterate_fixed rfl j

/-- **The root of two parts** of which the left one is full and not lower than the right one. -/
theorem Covers.root_append (h : Covers node (left ++ right) t) (hl : Covers node left l)
    (hr : Covers node right r) {k : ℕ} (hleft : left.length = 2 ^ k)
    (hright : right.length ≤ 2 ^ k) : t.root = node l.root r.root := by
  have hrow : (parents node)^[k] (left ++ right) = [l.root, r.root] := by
    rw [iterate_parents_append k (hleft ▸ Nat.dvd_refl _), hl.iterate_parents_eq hleft.le,
      hr.iterate_parents_eq hright]
    rfl
  have htop : (parents node)^[k + 1] (left ++ right) = [t.root] := by
    refine h.iterate_parents_eq ?_
    rw [List.length_append, Nat.pow_succ]
    omega
  rw [Function.iterate_succ_apply', hrow] at htop
  exact (List.singleton_inj.mp htop).symm

theorem exists_covers (node : α → α → α) (hne : leaves ≠ []) :
    ∃ t, ofLeaves? node leaves = some t ∧ Covers node leaves t := by
  obtain ⟨leaf, rest, rfl⟩ := List.exists_cons_of_ne_nil hne
  exact ⟨_, rfl, covers_ofCons node leaf rest⟩

/-- A tree of two leaves or more has the trees of its two parts below its root. -/
theorem exists_root_eq_node (node : α → α → α) (h : 2 ≤ leaves.length) :
    ∃ t l r, ofLeaves? node leaves = some t
      ∧ ofLeaves? node (leaves.take (leftCount leaves.length)) = some l
      ∧ ofLeaves? node (leaves.drop (leftCount leaves.length)) = some r
      ∧ t.root = node l.root r.root := by
  have hpos := leftCount_pos leaves.length
  have hlt := leftCount_lt h
  have hhalf := le_two_mul_leftCount leaves.length
  have hleft : (leaves.take (leftCount leaves.length)).length = leftCount leaves.length :=
    List.length_take_of_le hlt.le
  have hright : (leaves.drop (leftCount leaves.length)).length
      = leaves.length - leftCount leaves.length := List.length_drop
  have hne : leaves ≠ [] := List.ne_nil_of_length_pos (by omega)
  obtain ⟨t, ht, hcovers⟩ := exists_covers node hne
  obtain ⟨l, hl, hl'⟩ := exists_covers node (List.ne_nil_of_length_pos (hleft ▸ hpos))
  obtain ⟨r, hr, hr'⟩ := exists_covers node
    (List.ne_nil_of_length_pos (hright ▸ Nat.sub_pos_of_lt hlt))
  rw [← List.take_append_drop (leftCount leaves.length) leaves] at hcovers
  exact ⟨t, l, r, ht, hl, hr, hcovers.root_append hl' hr' hleft
    (show _ ≤ leftCount leaves.length by omega)⟩

theorem root_eq_splitRoot (node : α → α → α) (leaves : List α) :
    (ofLeaves? node leaves).map root = splitRoot node leaves := by
  induction leaves using splitRoot.induct with
  | case1 =>
    rw [splitRoot]
    rfl
  | case2 leaf =>
    rw [splitRoot]
    rfl
  | case3 a b rest ihl ihr =>
    have htwo : 2 ≤ (a :: b :: rest).length := Nat.le_add_left 2 rest.length
    obtain ⟨t, l, r, ht, hl, hr, hroot⟩ := exists_root_eq_node node htwo
    rw [splitRoot, ← ihl, ← ihr, ht]
    rw [hl, hr]
    exact congrArg some hroot

/-- **The root of a grown tree is the root by halves.**  One leaf is its own root.  Two leaves or
more are cut after the largest power of two below their number; both parts have trees, and the root
is the node of the roots of these. -/
theorem root_split (node : α → α → α) :
    (∀ leaf, (ofLeaves? node [leaf]).map root = some leaf)
    ∧ (∀ a b rest, ∃ m t l r,
        IsGreatest {m | m < (a :: b :: rest).length ∧ ∃ k, m = 2 ^ k} m
        ∧ ofLeaves? node (a :: b :: rest) = some t
        ∧ ofLeaves? node ((a :: b :: rest).take m) = some l
        ∧ ofLeaves? node ((a :: b :: rest).drop m) = some r
        ∧ t.root = node l.root r.root)
    ∧ ∀ leaves, (ofLeaves? node leaves).map root = splitRoot node leaves := by
  refine ⟨fun leaf => rfl, ?_, root_eq_splitRoot node⟩
  intro a b rest
  have htwo : 2 ≤ (a :: b :: rest).length := Nat.le_add_left 2 rest.length
  obtain ⟨t, l, r, ht, hl, hr, hroot⟩ := exists_root_eq_node node htwo
  exact ⟨_, t, l, r, isGreatest_leftCount htwo, ht, hl, hr, hroot⟩

end ProvableRecord.Merkle.Tree
