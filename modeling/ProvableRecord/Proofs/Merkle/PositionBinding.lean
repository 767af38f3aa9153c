import ProvableRecord.Proofs.Merkle.Pairs

/-!
# Proofs bind positions

Two paths with the same sides that lead to one node begin at the same node and have the same
siblings, or at some step they combine different pairs into the same node
(`Tree.eq_or_pairsCollide`).  The digits of an index are the sides of a path, so the same holds of
two proofs for one root that verify and agree on length and digits
(`Proof.eq_or_pairsCollide_of_verify`).  If one of them was generated for a position of a tree, the
other says the same of this position (`Proof.position_binding`).
-/

namespace ProvableRecord.Merkle

namespace Tree

variable {α : Type} {node : α → α → α}

/-- At some step the two lists have different pairs of which `node` makes the same. -/
def PairsCollide (node : α → α → α) (ps qs : List (α × α)) : Prop :=
  ∃ (k : ℕ) (p q : α × α), ps[k]? = some p ∧ qs[k]? = some q ∧ p ≠ q
    ∧ node p.1 p.2 = node q.1 q.2

theorem PairsCollide.cons {ps qs : List (α × α)} (h : PairsCollide node ps qs) (p q : α × α) :
    PairsCollide node (p :: ps) (q :: qs) := by
  obtain ⟨k, p', q', hp, hq, hne, hnode⟩ := h
  exact ⟨k + 1, p', q', hp, hq, hne, hnode⟩

/-- A pair tells what it was made of, if the side is known. -/
theorem Step.eq_of_pair_eq {x y : α} {s t : Step α} (hside : s.fromRight = t.fromRight)
    (h : s.pair x = t.pair y) : x = y ∧ s = t := by
  obtain ⟨right, sibling⟩ := s
  obtain ⟨right', sibling'⟩ := t
  obtain rfl : right = right' := hside
  cases right
  · obtain ⟨rfl, rfl⟩ := Prod.mk.inj h
    exact ⟨rfl, rfl⟩
  · obtain ⟨rfl, rfl⟩ := Prod.mk.inj h
    exact ⟨rfl, rfl⟩

/-- **Two paths with the same sides to one node** are equal, or their pairs collide. -/
theorem eq_or_pairsCollide {x y : α} {path path' : List (Step α)}
    (hsides : path.map (·.fromRight) = path'.map (·.fromRight))
    (h : foldSteps node x path = foldSteps node y path') :
    (x = y ∧ path = path')
      ∨ PairsCollide node (foldedPairs node x path) (foldedPairs node y path') := by
  induction path generalizing x y path' with
  | nil =>
    obtain rfl : path' = [] := List.map_eq_nil_iff.mp hsides.symm
    exact .inl ⟨h, rfl⟩
  | cons s path ih =>
    cases path' with
    | nil => cases hsides
    | cons t path' =>
      obtain ⟨hside, hrest⟩ := List.cons.inj hsides
      -- the paths are compared from the top, so the nodes after the first step come first
      rcases ih hrest h with ⟨hnode, rfl⟩ | hcollide
      · rw [Step.apply_eq, Step.apply_eq] at hnode
        by_cases hpair : s.pair x = t.pair y
        · obtain ⟨rfl, rfl⟩ := Step.eq_of_pair_eq hside hpair
          exact .inl ⟨rfl, rfl⟩
        · exact .inr ⟨0, s.pair x, t.pair y, rfl, rfl, hpair, hnode⟩
      · exact .inr (hcollide.cons _ _)

end Tree

namespace Proof

/-- The steps of a proof have its siblings, and their sides are the digits of its index. -/
theorem of_steps? {index k : ℕ} {siblings : List ℕ} {path : List (Tree.Step Fp)}
    (h : steps? index k siblings = some path) :
    path.map (·.sibling.val) = siblings
      ∧ path.map (·.fromRight) = (List.range' k siblings.length).map index.testBit := by
  induction siblings generalizing k path with
  | nil =>
    cases h
    exact ⟨rfl, rfl⟩
  | cons n siblings ih =>
    obtain ⟨sibling, hsibling, h⟩ := Option.bind_eq_some_iff.mp h
    obtain ⟨rest, hrest, h⟩ := Option.bind_eq_some_iff.mp h
    cases h
    obtain ⟨hvalues, hsides⟩ := ih hrest
    have hn : sibling.val = n := Fp.ofNat?_eq_some_iff.mp hsibling
    constructor
    · rw [List.map_cons, hvalues, hn]
    · rw [List.map_cons, hsides]
      rfl

/-- What the check of a proof goes through: a leaf and a path that lead to the root. -/
theorem exists_path_of_verify {p : Proof} (h : p.verify = true) :
    ∃ (leaf : Fp) (path : List (Tree.Step Fp)), leaf.val = p.leaf
      ∧ path.map (·.sibling.val) = p.siblings
      ∧ path.map (·.fromRight) = (List.range' 0 p.siblings.length).map p.index.testBit
      ∧ (Tree.foldSteps Poseidon.hash2 leaf path).val = p.root
      ∧ p.foldedPairs = Tree.foldedPairs Poseidon.hash2 leaf path := by
  rw [verify] at h
  split at h
  case h_2 => cases h
  case h_1 top htop =>
    obtain ⟨leaf, hleaf, htop⟩ := Option.bind_eq_some_iff.mp htop
    obtain ⟨path, hpath, htop⟩ := Option.bind_eq_some_iff.mp htop
    cases htop
    obtain ⟨hvalues, hsides⟩ := of_steps? hpath
    refine ⟨leaf, path, Fp.ofNat?_eq_some_iff.mp hleaf, hvalues, hsides, beq_iff_eq.mp h, ?_⟩
    simp only [foldedPairs, hleaf, hpath]

/-- **Two proofs for one root that verify** and agree on length and digits have the same leaf and
the same siblings, or their pairs collide. -/
theorem eq_or_pairsCollide_of_verify {p q : Proof} (hp : p.verify = true) (hq : q.verify = true)
    (hroot : p.root = q.root) (hlength : p.siblings.length = q.siblings.length)
    (hdigits : ∀ k < q.siblings.length, p.index.testBit k = q.index.testBit k) :
    (p.leaf = q.leaf ∧ p.siblings = q.siblings)
      ∨ Tree.PairsCollide Poseidon.hash2 p.foldedPairs q.foldedPairs := by
  obtain ⟨x, path, hx, hsiblings, hsides, htop, hpairs⟩ := exists_path_of_verify hp
  obtain ⟨y, path', hy, hsiblings', hsides', htop', hpairs'⟩ := exists_path_of_verify hq
  have hsame : path.map (·.fromRight) = path'.map (·.fromRight) := by
    rw [hsides, hsides', hlength]
    refine List.map_congr_left fun k hk => hdigits k ?_
    have hlt := (List.mem_range'_1.mp hk).2
    rwa [Nat.zero_add] at hlt
  have hnode : Tree.foldSteps Poseidon.hash2 x path = Tree.foldSteps Poseidon.hash2 y path' :=
    Fp.ext (htop.trans (hroot.trans htop'.symm))
  rw [hpairs, hpairs']
  refine (Tree.eq_or_pairsCollide hsame hnode).imp_left ?_
  rintro ⟨rfl, rfl⟩
  exact ⟨hx.symm.trans hy, hsiblings.symm.trans hsiblings'⟩

/-- The proof with another digit in front of its index. -/
def lengthen (p : Proof) : Proof := { p with index := 2 ^ p.siblings.length + p.index }

theorem testBit_lengthen (p : Proof) :
    ∀ k < p.siblings.length, p.lengthen.index.testBit k = p.index.testBit k :=
  fun _ hk => Nat.testBit_two_pow_add_gt hk p.index

/-- The steps of a proof depend on no other digits than theirs. -/
theorem steps?_congr {index index' k : ℕ} {siblings : List ℕ}
    (h : ∀ j < k + siblings.length, index.testBit j = index'.testBit j) :
    steps? index k siblings = steps? index' k siblings := by
  induction siblings generalizing k with
  | nil => rfl
  | cons n siblings ih =>
    rw [List.length_cons] at h
    have hbit := h k (by omega)
    have hrest : steps? index (k + 1) siblings = steps? index' (k + 1) siblings :=
      ih fun j hj => h j (by omega)
    simp only [steps?, hbit, hrest]

/-- A digit in front of the index changes nothing about a proof. -/
theorem verify_lengthen (p : Proof) : p.lengthen.verify = p.verify := by
  have hsteps : steps? p.lengthen.index 0 p.siblings = steps? p.index 0 p.siblings :=
    steps?_congr fun j hj => p.testBit_lengthen j (by omega)
  have hreached : p.lengthen.reached? = p.reached? := by
    rw [reached?, reached?, ← hsteps]
    rfl
  rw [verify, verify, hreached]
  rfl

/-- **A proof binds its position.**  Every leaf of a tree, however the tree grew, has a proof.
Another proof for the same root that verifies, with as many siblings and the same digits, is for the
same leaf and has the same siblings, or at some step the two combine different pairs into the same
node. -/
theorem position_binding {start later : List Fp} {t : Tree Fp}
    (ht : Tree.grow Poseidon.hash2 start later = some t) {i : ℕ}
    (hi : i < (start ++ later).length) :
    ∃ g, generate t i = .ok g ∧ ∀ p : Proof, p.verify = true → p.root = t.root.val →
      p.siblings.length = g.siblings.length →
      (∀ k < g.siblings.length, p.index.testBit k = g.index.testBit k) →
      (p.leaf = (start ++ later)[i].val ∧ p.siblings = g.siblings)
        ∨ Tree.PairsCollide Poseidon.hash2 p.foldedPairs g.foldedPairs := by
  cases start with
  | nil => cases ht
  | cons leaf rest =>
    obtain ⟨t', ht', hcovers⟩ := Tree.grow_cons Poseidon.hash2 leaf rest later
    obtain rfl : t = t' := Option.some_inj.mp (ht.symm.trans ht')
    have hx : (leaf :: rest ++ later)[i]? = some (leaf :: rest ++ later)[i] :=
      List.getElem?_eq_getElem hi
    refine ⟨_, generate_eq hcovers hx, ?_⟩
    intro p hp hroot hlength hdigits
    exact eq_or_pairsCollide_of_verify hp (verify_ofPath (hcovers.foldSteps_eq hx)) hroot hlength
      hdigits

/-- The last of three leaves, which moves up without a partner: its proof with one more digit is a
proof for the same position. -/
theorem position_binding_three :
    ∃ t, Tree.grow Poseidon.hash2 [1, 2] [3] = some t ∧ 2 < ([1, 2] ++ [3] : List Fp).length
      ∧ ∃ g, generate t 2 = .ok g ∧ g.lengthen.verify = true ∧ g.lengthen.root = t.root.val
        ∧ (∀ k < g.siblings.length, g.lengthen.index.testBit k = g.index.testBit k)
        ∧ ((g.lengthen.leaf = (3 : Fp).val ∧ g.lengthen.siblings = g.siblings)
          ∨ Tree.PairsCollide Poseidon.hash2 g.lengthen.foldedPairs g.foldedPairs) := by
  obtain ⟨t, ht, hcovers⟩ := Tree.grow_cons Poseidon.hash2 1 [2] [3]
  have hi : 2 < ([1, 2] ++ [3] : List Fp).length := by decide
  have hx : ([1, 2] ++ [3] : List Fp)[2]? = some 3 := rfl
  obtain ⟨g, hg, hbinds⟩ := position_binding ht hi
  have hproof := hg
  rw [generate_eq hcovers hx, Except.ok.injEq] at hproof
  have hverify : g.lengthen.verify = true := by
    rw [verify_lengthen, ← hproof]
    exact verify_ofPath (hcovers.foldSteps_eq hx)
  have hroot : g.lengthen.root = t.root.val := by rw [lengthen, ← hproof, ofPath]
  have hdigits := g.testBit_lengthen
  exact ⟨t, ht, hi, g, hg, hverify, hroot, hdigits,
    hbinds g.lengthen hverify hroot rfl hdigits⟩

end Proof

end ProvableRecord.Merkle
