import ProvableRecord.Merkle.Proof
import ProvableRecord.Record.Basic
import ProvableRecord.Record.Digest

/-!
# The commitment to a record

The tree of a record has two leaves for each entry in order, its name and its value, so a name
stands at an even position with its value as right neighbour.  The root of the tree is the content
id of the record.
-/

namespace ProvableRecord.Record

/-- The two leaves of an entry. -/
def entryLeaves (e : Entry) : List Fp := [nameLeaf e.name.text, e.value.leaf]

/-- The leaves of the tree of a record. -/
def leaves (r : Record) : List Fp := r.entries.flatMap entryLeaves

/-- The tree of a record. -/
def tree (r : Record) : Merkle.Tree Fp :=
  match r.leaves with
  | [] => .singleton 0
  | leaf :: leaves => .ofCons Poseidon.hash2 leaf leaves

/-- The root of the tree of a record. -/
def contentId (r : Record) : Nat := r.tree.root.val

/-- The depth of the tree of a record. -/
def depth (r : Record) : Nat := r.tree.depth

/-- The position of an entry, or the error that there is none. -/
def position (r : Record) (name : String) : Except RecordError Nat :=
  match r.position? name with
  | some i => .ok i
  | none => .error (.entryNotFound name)

/-- The proof that an entry belongs to a record: the path of the leaf of its name. -/
def prove (r : Record) (name : String) : Except RecordError Merkle.Proof := do
  let i ← r.position name
  (Merkle.Proof.generate r.tree (2 * i)).mapError .primitive

end ProvableRecord.Record
