import ProvableRecord.Hash.Poseidon
import ProvableRecord.Merkle.Tree
import ProvableRecord.PrimitiveError

/-!
# Membership proofs

A proof gives a root, a leaf and the siblings on the path between them.  Bit `k` of `index` says
that at step `k` the path comes from the right; levels at which the path has no sibling take no step
and no bit.  A proof that was received may hold any numbers, so they are plain naturals, and
checking it includes checking that each is a field element.
-/

namespace ProvableRecord.Merkle

/-- A claim that a leaf belongs to the tree with the given root. -/
structure Proof where
  root : Nat
  leaf : Nat
  index : Nat
  siblings : List Nat
deriving DecidableEq

namespace Proof

/-- The number whose binary digits from the low end are given. -/
def ofDirections : List Bool → Nat
  | [] => 0
  | b :: bs => b.toNat + 2 * ofDirections bs

/-- The proof for the leaf at position `i` of a tree. -/
def generate (t : Tree Fp) (i : Nat) : Except PrimitiveError Proof :=
  match t.path? i with
  | some (leaf, path) =>
    .ok ⟨t.root.val, leaf.val, ofDirections (path.map (·.fromRight)), path.map (·.sibling.val)⟩
  | none => .error (.leafOutOfRange i t.size)

/-- The steps that a proof describes from step `k` on; `none` if a sibling is no field element. -/
def steps? (index : Nat) : (k : Nat) → List Nat → Option (List (Tree.Step Fp))
  | _, [] => some []
  | k, sibling :: siblings => do
    let s ← Fp.ofNat? sibling
    let rest ← steps? index (k + 1) siblings
    return ⟨index.testBit k, s⟩ :: rest

/-- The node at which the path of a proof ends; `none` if its leaf or a sibling is no field
element. -/
def reached? (p : Proof) : Option Fp := do
  let leaf ← Fp.ofNat? p.leaf
  let path ← steps? p.index 0 p.siblings
  return Tree.foldSteps Poseidon.hash2 leaf path

/-- Whether the path of a proof leads to its root. -/
def verify (p : Proof) : Bool :=
  match p.reached? with
  | some top => top.val == p.root
  | none => false

end Proof

end ProvableRecord.Merkle
