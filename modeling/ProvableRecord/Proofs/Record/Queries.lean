import ProvableRecord.Proofs.Except
import ProvableRecord.Proofs.Record.Signals

/-!
# Queries fail for unknown names only

The tree of a record is built by total functions: a hash of two nodes is always there, a number is
reduced to a leaf whatever its size, a right node without a left partner is taken over, and a record
without leaves would have a tree of a zero.  `Checked` is the same construction with a check at each
of these places, and one more for the number of leaves at the end.  No check ever fails for a
record, and the tree is the same (`Checked.tree_eq`).  Each check passes for a reason of its own:

* there are Poseidon parameters for one and two elements (`hash_one`, `hash_two`);
* the hash of a text has 248 bits, and a valid value is a field element (`valueLeaf_eq`);
* the rows of a tree are the levels over its leaves, and these have no gaps (`carry_eq`, carried
  through `climb_levels`, `insert_eq` and `foldlM_insert`);
* a record has an entry, and an entry has two leaves (`tree_eq`).

So `queries` says that the content id and the depth are there for every record, and that a proof and
signals are there exactly for the names of its entries.
-/

namespace ProvableRecord

/-- Where the construction of the tree of a record could stop. -/
inductive BuildFault where
  /-- There are no parameters to hash this many elements. -/
  | arity (count : ℕ)
  /-- The number would be reduced to make a field element of it. -/
  | reduced (n : ℕ)
  /-- The right node at this position of a row has no left partner. -/
  | noPartner (i : ℕ)
  | noLeaves
  /-- The tree has another number of leaves than two for each entry. -/
  | leafCount (size : ℕ)
deriving DecidableEq

namespace Checked

/-! ## The checked construction -/

/-- A number as the field element that it is. -/
def element (n : ℕ) : Except BuildFault Fp :=
  match Fp.ofNat? n with
  | some x => .ok x
  | none => .error (.reduced n)

/-- The hash of some elements. -/
def hash (xs : List Fp) : Except BuildFault Fp :=
  match Poseidon.hash? xs with
  | some x => .ok x
  | none => .error (.arity xs.length)

/-- The leaf of a value. -/
def valueLeaf : Value → Except BuildFault Fp
  | .string s => element (textDigest s)
  | .int n => hash [.ofInt n.toInt]
  | .cryptographic n => element n >>= fun x => hash [x]
  | .publicKey k => hash [k.point.x, k.point.y]

/-- The two leaves of an entry. -/
def entryLeaves (e : Entry) : Except BuildFault (List Fp) := do
  let name ← element (textDigest e.name.text)
  let value ← valueLeaf e.value
  return [name, value]

/-- What a node at position `i` of a row contributes to the row above. -/
def carry (row : List Fp) (i : ℕ) (x : Fp) : Except BuildFault Fp :=
  if i % 2 = 1 then
    match row[i - 1]? with
    | some left => hash [left, x]
    | none => .error (.noPartner i)
  else .ok x

/-- Writes `x` at position `i` of a row, and what it contributes into the rows above. -/
def climb : (i : ℕ) → (x : Fp) → (rows : List (List Fp)) →
    Except BuildFault (List (List Fp) × Fp)
  | _, x, [] => .ok ([], x)
  | i, x, row :: rows => do
    let next ← carry row i x
    let (above, top) ← climb (i / 2) next rows
    return (Merkle.Tree.write row i x :: above, top)

/-- Adds a leaf at the end of a tree. -/
def insert (t : Merkle.Tree Fp) (leaf : Fp) : Except BuildFault (Merkle.Tree Fp) := do
  let rows := if 1 <<< t.depth < t.size + 1 then t.rows ++ [[t.root]] else t.rows
  let (rows, root) ← climb t.size leaf rows
  return ⟨rows, root⟩

/-- The tree of a list of leaves. -/
def ofLeaves : List Fp → Except BuildFault (Merkle.Tree Fp)
  | [] => .error .noLeaves
  | leaf :: leaves => leaves.foldlM insert (.singleton leaf)

/-- The tree of a record. -/
def tree (r : Record) : Except BuildFault (Merkle.Tree Fp) := do
  let leaves ← r.entries.mapM entryLeaves
  let t ← ofLeaves leaves.flatten
  if t.size = 2 * r.size then return t else throw (.leafCount t.size)

/-! ## Leaves -/

theorem element_eq {n : ℕ} (h : n < fieldModulus) : element n = .ok (.ofNat n) := by
  have hfield : Fp.ofNat? n = some (.ofNat n) := Fp.ofNat?_eq_some_iff.mpr (Nat.mod_eq_of_lt h)
  simp only [element, hfield]

theorem hash_one (x : Fp) : hash [x] = .ok (Poseidon.hash1 x) := by
  simp only [hash, Poseidon.hash?_one]

theorem hash_two (x y : Fp) : hash [x, y] = .ok (Poseidon.hash2 x y) := by
  simp only [hash, Poseidon.hash?_two]

/-- **The leaf of a valid value is not reduced.** -/
theorem valueLeaf_eq {v : Value} (h : v.IsValid) : valueLeaf v = .ok v.leaf := by
  cases v with
  | string s => exact element_eq (byteDigest_lt _)
  | int n => exact hash_one _
  | cryptographic n =>
    rw [valueLeaf, element_eq h]
    exact hash_one _
  | publicKey k => exact hash_two _ _

theorem entryLeaves_eq {e : Entry} (h : e.value.IsValid) :
    entryLeaves e = .ok (Record.entryLeaves e) := by
  have hname : element (textDigest e.name.text) = .ok (nameLeaf e.name.text) :=
    element_eq (byteDigest_lt _)
  rw [entryLeaves, hname, valueLeaf_eq h]
  rfl

/-! ## Insertion -/

/-- A right node has a left partner in every row that reaches up to it. -/
theorem carry_eq {row : List Fp} {i : ℕ} (hi : i ≤ row.length) (x : Fp) :
    carry row i x = .ok (Merkle.Tree.carry Poseidon.hash2 row i x) := by
  rw [carry, Merkle.Tree.carry]
  by_cases hodd : i % 2 = 1
  · have hleft : row[i - 1]? = some row[i - 1] := List.getElem?_eq_getElem (by omega)
    simp only [if_pos hodd, hleft, hash_two]
  · rw [if_neg hodd, if_neg hodd]

/-- Climbing through levels passes: the position in each row is at most one past its end. -/
theorem climb_levels (k : ℕ) {row : List Fp} {i : ℕ} (hi : i ≤ row.length) (x : Fp) :
    climb i x (Merkle.Tree.levels Poseidon.hash2 k row)
      = .ok (Merkle.Tree.climb Poseidon.hash2 i x
        (Merkle.Tree.levels Poseidon.hash2 k row)) := by
  induction k generalizing row i x with
  | zero => rfl
  | succ k ih =>
    have hi' : i / 2 ≤ (Merkle.Tree.parents Poseidon.hash2 row).length := by
      rw [Merkle.Tree.length_parents]
      omega
    rw [Merkle.Tree.levels, climb, carry_eq hi]
    simp only [bind, Except.bind, ih hi']
    rfl

variable {leaves : List Fp} {t : Merkle.Tree Fp}

/-- **An insertion passes every check.** -/
theorem insert_eq (h : Merkle.Tree.Covers Poseidon.hash2 leaves t) (hne : 0 < leaves.length)
    (x : Fp) : insert t x = .ok (t.insert Poseidon.hash2 x) := by
  have hsize : t.size = leaves.length := by rw [Merkle.Tree.size, h.leaves_eq]
  have hclimb := climb_levels (Nat.clog 2 (leaves.length + 1)) (Nat.le_refl leaves.length) x
  rw [← h.grown_rows hne, ← hsize] at hclimb
  simp only [insert, hclimb, bind, Except.bind]
  rfl

/-- A run of insertions passes every check. -/
theorem foldlM_insert (h : Merkle.Tree.Covers Poseidon.hash2 leaves t)
    (hne : 0 < leaves.length) (later : List Fp) :
    later.foldlM insert t = .ok (later.foldl (Merkle.Tree.insert Poseidon.hash2) t) := by
  induction later generalizing leaves t with
  | nil => rfl
  | cons x later ih =>
    rw [List.foldlM_cons, insert_eq h hne]
    exact ih (h.insert hne x) (by rw [List.length_append]; omega)

theorem ofLeaves_cons (leaf : Fp) (rest : List Fp) :
    ofLeaves (leaf :: rest) = .ok (.ofCons Poseidon.hash2 leaf rest) :=
  foldlM_insert (Merkle.Tree.covers_singleton _ leaf) Nat.one_pos rest

/-- **The tree of a record is built without any check failing.** -/
theorem tree_eq (r : Record) : tree r = .ok r.tree := by
  have hleaves : r.entries.mapM entryLeaves = .ok (r.entries.map Record.entryLeaves) :=
    Except.mapM_eq_ok fun e he => entryLeaves_eq (r.valid e he)
  have hflat : (r.entries.map Record.entryLeaves).flatten = r.leaves := rfl
  have htree : ofLeaves r.leaves = .ok r.tree := by
    obtain ⟨leaf, rest, hcons⟩ := List.exists_cons_of_ne_nil r.leaves_ne_nil
    rw [Record.tree, hcons]
    exact ofLeaves_cons leaf rest
  have hsize : r.tree.size = 2 * r.size := by
    rw [Merkle.Tree.size, r.covers_tree.leaves_eq, r.length_leaves, Record.size]
  simp only [tree, hleaves, hflat, htree, bind, Except.bind, if_pos hsize]
  rfl

end Checked

namespace Record

/-- **Queries fail for unknown names only.**  The tree of a record is built without any check
failing, so its content id and depth are there.  A name of an entry has a proof and signals, and for
any other name both are refused with the name. -/
theorem queries (r : Record) :
    Checked.tree r = .ok r.tree
      ∧ (Checked.tree r).map (fun t => t.root.val) = .ok r.contentId
      ∧ (Checked.tree r).map Merkle.Tree.depth = .ok r.depth
      ∧ ∀ name,
        ((∃ p, r.prove name = .ok p) ↔ ∃ e ∈ r.entries, e.name.text = name)
        ∧ ((∃ s, r.signals name = .ok s) ↔ ∃ e ∈ r.entries, e.name.text = name)
        ∧ (∀ fault, r.prove name = .error fault → fault = .entryNotFound name)
        ∧ ∀ fault, r.signals name = .error fault → fault = .entryNotFound name := by
  rw [Checked.tree_eq]
  refine ⟨rfl, rfl, rfl, ?_⟩
  intro name
  by_cases hname : ∃ e ∈ r.entries, e.name.text = name
  · obtain ⟨e, he, rfl⟩ := hname
    obtain ⟨p, n, hprove, -, -, hsignals, -⟩ := signals_complete he
    have hentry : ∃ e' ∈ r.entries, e'.name.text = e.name.text := ⟨e, he, rfl⟩
    rw [hprove, hsignals]
    refine ⟨iff_of_true ⟨p, rfl⟩ hentry, iff_of_true ⟨_, rfl⟩ hentry, ?_, ?_⟩ <;>
      rintro fault ⟨⟩
  · have hne : ∀ e ∈ r.entries, e.name.text ≠ name := fun e he heq => hname ⟨e, he, heq⟩
    rw [prove_eq_error hne, signals_eq_error hne]
    refine ⟨iff_of_false ?_ hname, iff_of_false ?_ hname, ?_, ?_⟩
    · rintro ⟨p, ⟨⟩⟩
    · rintro ⟨s, ⟨⟩⟩
    · rintro fault ⟨⟩
      rfl
    · rintro fault ⟨⟩
      rfl

/-- A record of one entry, asked for its name and for another one. -/
theorem queries_single :
    let r := single ⟨⟨"age", by decide⟩, .int 30⟩ trivial
    (∃ p, r.prove "age" = .ok p) ∧ r.prove "name" = .error (.entryNotFound "name") := by
  intro r
  obtain ⟨-, -, -, hqueries⟩ := queries r
  have hage := (hqueries "age").1.mpr ⟨_, List.mem_singleton_self _, rfl⟩
  obtain ⟨hname, -, herror, -⟩ := hqueries "name"
  refine ⟨hage, ?_⟩
  cases hprove : r.prove "name" with
  | ok p =>
    obtain ⟨e, he, htext⟩ := hname.mp ⟨p, hprove⟩
    rw [List.mem_singleton.mp he] at htext
    exact absurd htext (by decide)
  | error fault => rw [herror fault hprove]

end Record

end ProvableRecord
