/-!
# Merkle trees that grow by one leaf

A tree over any type of nodes with a binary `node` function.  Row 0 holds the leaves, and each later
row holds one node for every pair below it; a last node without a partner moves up unchanged.

```text
root               n(n(a, b), c)
row 1         n(a, b)          c
row 0       a        b         c
```

The rows below the root are stored.  A new leaf changes the last node of each row only: `climb`
writes it, combines it with its left partner if it has one, and goes on with the next row.
-/

namespace ProvableRecord.Merkle

/-- A tree with at least one leaf: the rows below the root, leaves first, and the root. -/
structure Tree (α : Type) where
  rows : List (List α)
  root : α
deriving DecidableEq

namespace Tree

variable {α : Type} (node : α → α → α)

/-- The tree of one leaf, which is its root. -/
def singleton (leaf : α) : Tree α := ⟨[], leaf⟩

/-- The number of rows below the root. -/
def depth (t : Tree α) : Nat := t.rows.length

/-- The leaves in order. -/
def leaves (t : Tree α) : List α := t.rows.headD [t.root]

/-- The number of leaves. -/
def size (t : Tree α) : Nat := t.leaves.length

/-- Writes a node at position `i` of a row: over the node there, or at the end if there is none. -/
def write (row : List α) (i : Nat) (x : α) : List α :=
  if i < row.length then row.set i x else row ++ [x]

/-- What a node at position `i` of a row contributes to the row above: itself combined with its left
partner, if it is a right node. -/
def carry (row : List α) (i : Nat) (x : α) : α :=
  if i % 2 = 1 then
    match row[i - 1]? with
    | some left => node left x
    | none => x
  else x

/-- Writes `x` at position `i` of a row, and what it contributes into the rows above.  The second
part is what arrives above the last row. -/
def climb : (i : Nat) → (x : α) → (rows : List (List α)) → List (List α) × α
  | _, x, [] => ([], x)
  | i, x, row :: rows =>
    let (above, top) := climb (i / 2) (carry node row i x) rows
    (write row i x :: above, top)

/-- Adds a leaf at the end.  A full tree first gets a row that holds its root. -/
def insert (t : Tree α) (leaf : α) : Tree α :=
  let rows := if 1 <<< t.depth < t.size + 1 then t.rows ++ [[t.root]] else t.rows
  let (rows, root) := climb node t.size leaf rows
  ⟨rows, root⟩

/-- The tree of a first leaf and further leaves. -/
def ofCons (leaf : α) (leaves : List α) : Tree α := leaves.foldl (insert node) (singleton leaf)

/-- The tree of a list of leaves, which must not be empty. -/
def ofLeaves? : List α → Option (Tree α)
  | [] => none
  | leaf :: leaves => some (ofCons node leaf leaves)

/-- One step of a path from a leaf to the root: a node and the side of it that the path is on. -/
structure Step (α : Type) where
  /-- Whether the path comes from the right, so that `sibling` is the left child. -/
  fromRight : Bool
  sibling : α
deriving DecidableEq

/-- The steps from position `i` of the first row given.  A row in which the node has no partner
gives none. -/
def steps : (i : Nat) → (rows : List (List α)) → List (Step α)
  | _, [] => []
  | i, row :: rows =>
    let fromRight := i % 2 == 1
    match row[if fromRight then i - 1 else i + 1]? with
    | some sibling => ⟨fromRight, sibling⟩ :: steps (i / 2) rows
    | none => steps (i / 2) rows

/-- The leaf at a position and the steps from it to the root. -/
def path? (t : Tree α) (i : Nat) : Option (α × List (Step α)) :=
  t.leaves[i]?.map fun leaf => (leaf, steps i t.rows)

/-- The node reached from `x` by one step. -/
def Step.apply (x : α) (s : Step α) : α :=
  if s.fromRight then node s.sibling x else node x s.sibling

/-- The node reached from `x` by all steps. -/
def foldSteps (x : α) (path : List (Step α)) : α := path.foldl (Step.apply node) x

end Tree

end ProvableRecord.Merkle
