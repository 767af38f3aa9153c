import ProvableRecord.Proofs.Merkle.Levels

/-!
# Trees that grow leaf by leaf

The rows of a tree are the levels over its leaves (`Covers`).  The first tree has one leaf, and
`insert` keeps the equation: the rows that `climb` walks through are the levels over the old leaves,
one more of them if a power of two was reached.

* `Covers.insert`, `Covers.foldl_insert` — one insertion and a run of insertions
* `Covers.unique` — a tree is a function of its leaves
* `LevelByLevel` — what the levels are, node by node
-/

namespace ProvableRecord.Merkle.Tree

variable {α : Type} {node : α → α → α} {leaves : List α} {t : Tree α}

/-- The rows of a tree from the leaves to the root. -/
def allRows (t : Tree α) : List (List α) := t.rows ++ [[t.root]]

theorem length_allRows (t : Tree α) : t.allRows.length = t.depth + 1 := by
  rw [allRows, List.length_append, List.length_singleton, depth]

theorem allRows_injective : Function.Injective (allRows : Tree α → List (List α)) := by
  rintro ⟨rows, root⟩ ⟨rows', root'⟩ h
  obtain ⟨rfl, hroot⟩ := List.append_inj' h rfl
  cases hroot
  rfl

/-- The rows of a tree are the levels over the leaves. -/
def Covers (node : α → α → α) (leaves : List α) (t : Tree α) : Prop :=
  t.allRows = levels node (Nat.clog 2 leaves.length + 1) leaves

/-! ## What the invariant says -/

theorem Covers.depth_eq (h : Covers node leaves t) : t.depth = Nat.clog 2 leaves.length := by
  have hlength := congrArg List.length h
  rw [length_allRows, length_levels] at hlength
  exact Nat.succ.inj hlength

theorem Covers.rows_append (h : Covers node leaves t) : t.rows ++ [[t.root]]
    = levels node t.depth leaves ++ [(parents node)^[t.depth] leaves] := by
  rw [← levels_succ, h.depth_eq]
  exact h

theorem Covers.rows_eq (h : Covers node leaves t) : t.rows = levels node t.depth leaves :=
  (List.append_inj' h.rows_append rfl).1

/-- The row above all others is the root. -/
theorem Covers.root_eq (h : Covers node leaves t) :
    (parents node)^[t.depth] leaves = [t.root] := by
  have htop := (List.append_inj' h.rows_append rfl).2
  exact (List.singleton_inj.mp htop).symm

theorem Covers.leaves_eq (h : Covers node leaves t) : t.leaves = leaves := by
  have hroot := h.root_eq
  rw [Tree.leaves, h.rows_eq]
  cases hdepth : t.depth with
  | zero =>
    rw [hdepth] at hroot
    exact hroot.symm
  | succ k => rfl

theorem Covers.size_eq (h : Covers node leaves t) : t.size = leaves.length :=
  congrArg List.length h.leaves_eq

/-- **A tree is a function of its leaves.** -/
theorem Covers.unique {t' : Tree α} (h : Covers node leaves t) (h' : Covers node leaves t') :
    t = t' :=
  allRows_injective (Eq.trans h (Eq.symm h'))

/-- The tree with every node replaced. -/
def map {β : Type} (f : α → β) (t : Tree α) : Tree β := ⟨t.rows.map (List.map f), f t.root⟩

theorem allRows_map {β : Type} (f : α → β) (t : Tree α) :
    (t.map f).allRows = t.allRows.map (List.map f) := by
  rw [allRows, allRows, List.map_append]
  rfl

/-- A map that respects `node` takes the tree over some leaves to the tree over their images. -/
theorem Covers.map {β : Type} {node' : β → β → β} {f : α → β}
    (hf : ∀ a b, f (node a b) = node' (f a) (f b)) (h : Covers node leaves t) :
    Covers node' (leaves.map f) (t.map f) := by
  rw [Covers, allRows_map, h, map_levels hf, List.length_map]

/-! ## Insertion -/

theorem covers_singleton (node : α → α → α) (leaf : α) : Covers node [leaf] (singleton leaf) := by
  rw [Covers, List.length_singleton, Nat.clog_one_right]
  rfl

/-- The depth of a tree grows when the old depth has no place for one more leaf. -/
theorem clog_succ {n : ℕ} (hn : 0 < n) : Nat.clog 2 (n + 1)
    = if 1 <<< Nat.clog 2 n < n + 1 then Nat.clog 2 n + 1 else Nat.clog 2 n := by
  have hle := Nat.le_pow_clog Nat.one_lt_two n
  have hmono := Nat.clog_mono_right 2 (Nat.le_succ n)
  rw [Nat.one_shiftLeft]
  split
  · next hfull =>
    -- one more level doubles the room
    have hlt := (Nat.lt_clog_iff_pow_lt Nat.one_lt_two).mpr hfull
    have hroom : n + 1 ≤ 2 ^ (Nat.clog 2 n + 1) := by
      rw [Nat.pow_succ]
      omega
    have hupper := Nat.clog_le_of_le_pow hroom
    omega
  · next hroom =>
    have hupper := Nat.clog_le_of_le_pow (not_lt.mp hroom)
    exact le_antisymm hupper hmono

/-- The rows that an insertion walks through. -/
theorem Covers.grown_rows (h : Covers node leaves t) (hne : 0 < leaves.length) :
    (if 1 <<< t.depth < t.size + 1 then t.rows ++ [[t.root]] else t.rows)
      = levels node (Nat.clog 2 (leaves.length + 1)) leaves := by
  rw [h.size_eq, h.depth_eq, clog_succ hne]
  split
  · exact h
  · rw [← h.depth_eq]
    exact h.rows_eq

/-- **An insertion keeps the rows the levels over the leaves.** -/
theorem Covers.insert (h : Covers node leaves t) (hne : 0 < leaves.length) (x : α) :
    Covers node (leaves ++ [x]) (t.insert node x) := by
  have hinsert : (t.insert node x).allRows
      = (climb node leaves.length x (levels node (Nat.clog 2 (leaves.length + 1)) leaves)).1
        ++ [[(climb node leaves.length x
          (levels node (Nat.clog 2 (leaves.length + 1)) leaves)).2]] := by
    rw [← h.grown_rows hne]
    simp only [Tree.insert, Tree.size, h.leaves_eq]
    rfl
  obtain ⟨hrows, htop⟩ := climb_levels node (Nat.clog 2 (leaves.length + 1))
    (Nat.le_refl leaves.length) (Nat.le_succ _) x
  -- the new leaf is the only one whose path leads above the walked rows
  have hroom : leaves.length < 2 ^ Nat.clog 2 (leaves.length + 1) :=
    Nat.le_pow_clog Nat.one_lt_two (leaves.length + 1)
  rw [List.take_length] at hrows htop
  rw [Nat.div_eq_of_lt hroom, List.take_zero, List.nil_append] at htop
  rw [Covers, hinsert, hrows, ← htop, ← levels_succ, List.length_append, List.length_singleton]

/-- A run of insertions adds the leaves in order. -/
theorem Covers.foldl_insert (h : Covers node leaves t) (hne : 0 < leaves.length)
    (later : List α) : Covers node (leaves ++ later) (later.foldl (Tree.insert node) t) := by
  induction later generalizing leaves t with
  | nil =>
    rw [List.append_nil]
    exact h
  | cons x later ih =>
    have hrest := ih (h.insert hne x) (by rw [List.length_append]; omega)
    rwa [List.append_assoc] at hrest

theorem covers_ofCons (node : α → α → α) (leaf : α) (rest : List α) :
    Covers node (leaf :: rest) (ofCons node leaf rest) :=
  (covers_singleton node leaf).foldl_insert Nat.one_pos rest

/-! ## The rows, node by node -/

/-- The rows of a tree are those of the construction level by level over the leaves. -/
structure LevelByLevel (node : α → α → α) (leaves : List α) (t : Tree α) : Prop where
  depth_eq : t.depth = Nat.clog 2 leaves.length
  length_eq : t.allRows.length = t.depth + 1
  leaves_eq : t.allRows[0]? = some leaves
  /-- A row has half the length of the row below it, rounded up. -/
  row_length : ∀ {k row}, t.allRows[k]? = some row →
    row.length = (leaves.length + 2 ^ k - 1) / 2 ^ k
  /-- Above a pair is its node. -/
  pair : ∀ {k row above i left right}, t.allRows[k]? = some row →
    t.allRows[k + 1]? = some above → row[2 * i]? = some left → row[2 * i + 1]? = some right →
    above[i]? = some (node left right)
  /-- Above a last node without a partner is the node itself. -/
  lone : ∀ {k row above i x}, t.allRows[k]? = some row → t.allRows[k + 1]? = some above →
    row[2 * i]? = some x → row[2 * i + 1]? = none → above[i]? = some x
  root_eq : t.allRows.getLast? = some [t.root]

/-- A row of a tree is as many steps above the leaves as its position says. -/
theorem Covers.row_eq (h : Covers node leaves t) {k : ℕ} {row : List α}
    (hrow : t.allRows[k]? = some row) : row = (parents node)^[k] leaves := by
  have hk : k < Nat.clog 2 leaves.length + 1 := by
    rw [← h.depth_eq, ← length_allRows]
    exact (List.getElem?_eq_some_iff.mp hrow).1
  rw [h, getElem?_levels node leaves hk, Option.some_inj] at hrow
  exact hrow.symm

theorem Covers.levelByLevel (h : Covers node leaves t) : LevelByLevel node leaves t where
  depth_eq := h.depth_eq
  length_eq := length_allRows t
  leaves_eq := by
    rw [h]
    rfl
  row_length hrow := by rw [h.row_eq hrow, length_iterate_parents]
  pair hrow habove hleft hright := by
    rw [h.row_eq habove, Function.iterate_succ_apply', ← h.row_eq hrow]
    exact getElem?_parents_pair node hleft hright
  lone hrow habove hx hnone := by
    rw [h.row_eq habove, Function.iterate_succ_apply', ← h.row_eq hrow]
    exact getElem?_parents_lone node hx hnone
  root_eq := List.getLast?_concat

/-- The tree of some leaves after the insertion of further ones. -/
def grow (node : α → α → α) (start later : List α) : Option (Tree α) :=
  (ofLeaves? node start).map fun t => later.foldl (insert node) t

theorem grow_cons (node : α → α → α) (leaf : α) (rest later : List α) :
    ∃ t, grow node (leaf :: rest) later = some t ∧ Covers node (leaf :: rest ++ later) t :=
  ⟨_, rfl, (covers_ofCons node leaf rest).foldl_insert (Nat.succ_pos _) later⟩

/-- A tree that grew covers all its leaves in order. -/
theorem covers_of_grow {start later : List α} (h : grow node start later = some t) :
    Covers node (start ++ later) t := by
  cases start with
  | nil => cases h
  | cons leaf rest =>
    obtain ⟨t', ht', hcovers⟩ := grow_cons node leaf rest later
    obtain rfl : t = t' := Option.some_inj.mp (h.symm.trans ht')
    exact hcovers

/-- **Every tree is the tree built level by level** over its leaves in order of insertion, whatever
leaves it was made of at first and one by one later, and equal leaves give equal trees. -/
theorem grow_levelByLevel (node : α → α → α) :
    (∀ leaf rest later, ∃ t, grow node (leaf :: rest) later = some t
      ∧ LevelByLevel node (leaf :: rest ++ later) t)
    ∧ ∀ leaf rest later leaf' rest' later',
      grow node (leaf :: rest) later = grow node (leaf' :: rest') later'
        ↔ leaf :: rest ++ later = leaf' :: rest' ++ later' := by
  constructor
  · intro leaf rest later
    obtain ⟨t, ht, hcovers⟩ := grow_cons node leaf rest later
    exact ⟨t, ht, hcovers.levelByLevel⟩
  · intro leaf rest later leaf' rest' later'
    obtain ⟨t, ht, hcovers⟩ := grow_cons node leaf rest later
    obtain ⟨t', ht', hcovers'⟩ := grow_cons node leaf' rest' later'
    rw [ht, ht', Option.some_inj]
    constructor
    · intro heq
      rw [← hcovers.leaves_eq, ← hcovers'.leaves_eq, heq]
    · intro heq
      rw [heq] at hcovers
      exact hcovers.unique hcovers'

end ProvableRecord.Merkle.Tree
