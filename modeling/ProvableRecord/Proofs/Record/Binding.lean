import ProvableRecord.Proofs.Field.Residue
import ProvableRecord.Proofs.Record.Derivation

/-!
# The content id binds the record

Two records with one content id agree, or their hash computations collide: two computations, one of
each record, differ and have one result.  Nothing is assumed about the hash functions.

The proof walks both trees from the root (`Spans.agree_or_collide`).  Equal nodes have equal
children or collide, so the walk goes on until one tree is at an entry.  If the other is not, a name
is an inner node, which collides, as names and nodes are hashed by different functions.  So the
trees have one shape, and at each entry the computations of name and value are the same
(`Value.agree_of_call_eq`).

An integer is hashed as the field element that it stands for, so it is not told apart from that
field element as a value (`Value.Alias`).
-/

namespace ProvableRecord

/-- One value is an integer and the other is the field element that it stands for. -/
def Value.Alias (v w : Value) : Prop :=
  ∃ n : Int64, v = .int n ∧ w = .cryptographic (Fp.ofInt n.toInt).val
    ∨ v = .cryptographic (Fp.ofInt n.toInt).val ∧ w = .int n

/-- Two entries have one name, and values that are equal or aliases. -/
def Entry.Agree (a b : Entry) : Prop :=
  a.name = b.name ∧ (a.value = b.value ∨ a.value.Alias b.value)

/-- Two different computations, one of each list, have one result. -/
def Collide (cs ds : List HashCall) : Prop :=
  ∃ c ∈ cs, ∃ d ∈ ds, c ≠ d ∧ c.result = d.result

theorem Collide.mono {cs cs' ds ds' : List HashCall} (h : Collide cs ds) (hcs : cs ⊆ cs')
    (hds : ds ⊆ ds') : Collide cs' ds' := by
  obtain ⟨c, hc, d, hd, hne, heq⟩ := h
  exact ⟨c, hcs hc, d, hds hd, hne, heq⟩

/-- Computations with one result are the same or collide. -/
theorem eq_or_collide {cs ds : List HashCall} {c d : HashCall} (hc : c ∈ cs) (hd : d ∈ ds)
    (h : c.result = d.result) : c = d ∨ Collide cs ds := by
  by_cases hcd : c = d
  · exact .inl hcd
  · exact .inr ⟨c, hc, d, hd, hcd, h⟩

/-! ## Entries -/

theorem textBytes_injective : Function.Injective textBytes := by
  intro s t h
  rw [textBytes, textBytes, Array.toList_inj, String.toUTF8_eq_toByteArray,
    String.toUTF8_eq_toByteArray] at h
  exact String.toByteArray_inj.mp (ByteArray.ext h)

theorem EntryName.eq_of_call_eq {m n : EntryName} (h : m.call = n.call) : m = n := by
  injection h with hbytes
  exact EntryName.ext (textBytes_injective hbytes)

/-- A field element is hashed as an integer only if the integer stands for it. -/
theorem eq_val_of_ofNat_eq {n : ℕ} (hn : n < fieldModulus) {x : Fp} (h : Fp.ofNat n = x) :
    n = x.val := by
  rw [← h, Fp.val_ofNat, Nat.mod_eq_of_lt hn]

/-- **The computation of a valid value determines the value** up to aliases. -/
theorem Value.agree_of_call_eq {v w : Value} (hv : v.IsValid) (hw : w.IsValid)
    (h : v.call = w.call) : v = w ∨ v.Alias w := by
  cases v with
  | string s =>
    cases w with
    | string t =>
      injection h with hbytes
      exact .inl (congrArg Value.string (textBytes_injective hbytes))
    | int | cryptographic | publicKey => cases h
  | int m =>
    cases w with
    | int n =>
      injection h with hfield
      exact .inl (congrArg Value.int (Fp.ofInt_toInt_injective hfield))
    | cryptographic n =>
      injection h with hfield
      rw [eq_val_of_ofNat_eq hw hfield.symm]
      exact .inr ⟨m, .inl ⟨rfl, rfl⟩⟩
    | string | publicKey => cases h
  | cryptographic m =>
    cases w with
    | int n =>
      injection h with hfield
      rw [eq_val_of_ofNat_eq hv hfield]
      exact .inr ⟨n, .inr ⟨rfl, rfl⟩⟩
    | cryptographic n =>
      injection h with hfield
      rw [eq_val_of_ofNat_eq hv hfield, Fp.val_ofNat, Nat.mod_eq_of_lt hw]
      exact .inl rfl
    | string | publicKey => cases h
  | publicKey j =>
    cases w with
    | publicKey k =>
      injection h with hx hy
      obtain ⟨⟨x, y⟩⟩ := j
      obtain ⟨⟨x', y'⟩⟩ := k
      cases hx
      cases hy
      exact .inl rfl
    | string | int | cryptographic => cases h

/-! ## The walk -/

/-- Nodes with one value have children with equal values, or collide. -/
theorem Derivation.children_eq_or_collide {l r l' r' : Derivation}
    (h : (node l r).value = (node l' r').value) :
    (l.value = l'.value ∧ r.value = r'.value) ∨ Collide (node l r).calls (node l' r').calls := by
  rcases eq_or_collide (List.mem_cons_self ..) (List.mem_cons_self ..) h with hcall | hcollide
  · injection hcall with hl hr
    exact .inl ⟨hl, hr⟩
  · exact .inr hcollide

/-- A collision below the left children is one below the nodes. -/
theorem Collide.left {l r l' r' : Derivation} (h : Collide l.calls l'.calls) :
    Collide (Derivation.node l r).calls (Derivation.node l' r').calls :=
  h.mono (fun _ hc => List.mem_cons_of_mem _ (List.mem_append_left _ hc))
    fun _ hd => List.mem_cons_of_mem _ (List.mem_append_left _ hd)

theorem Collide.right {l r l' r' : Derivation} (h : Collide r.calls r'.calls) :
    Collide (Derivation.node l r).calls (Derivation.node l' r').calls :=
  h.mono (fun _ hc => List.mem_cons_of_mem _ (List.mem_append_right _ hc))
    fun _ hd => List.mem_cons_of_mem _ (List.mem_append_right _ hd)

theorem Collide.symm {cs ds : List HashCall} (h : Collide cs ds) : Collide ds cs := by
  obtain ⟨c, hc, d, hd, hne, heq⟩ := h
  exact ⟨d, hd, c, hc, hne.symm, heq.symm⟩

/-- A subtree ends with a hash of two nodes. -/
theorem Spans.exists_two {es : List Entry} {d : Derivation} (h : Spans es d) :
    ∃ x y, HashCall.two x y ∈ d.calls ∧ d.value = (HashCall.two x y).result := by
  cases h with
  | entry e => exact ⟨_, _, List.mem_cons_self .., rfl⟩
  | node left right => exact ⟨_, _, List.mem_cons_self .., rfl⟩

/-- An entry is not taken for a larger subtree: its name would be a node. -/
theorem Entry.collide_of_value_eq {e : Entry} {es : List Entry} {l r : Derivation}
    (hl : Spans es l) (h : e.derivation.value = (Derivation.node l r).value) :
    Collide e.derivation.calls (Derivation.node l r).calls := by
  rcases Derivation.children_eq_or_collide h with ⟨hname, -⟩ | hcollide
  · obtain ⟨x, y, hcall, hvalue⟩ := hl.exists_two
    refine Collide.left ⟨e.name.call, List.mem_singleton_self _, .two x y, hcall, ?_, ?_⟩
    · exact fun heq => HashCall.noConfusion heq
    · exact hname.trans hvalue
  · exact hcollide

/-- Entries with one value of their nodes agree, or collide. -/
theorem Entry.agree_or_collide {a b : Entry} (ha : a.value.IsValid) (hb : b.value.IsValid)
    (h : a.derivation.value = b.derivation.value) :
    a.Agree b ∨ Collide a.derivation.calls b.derivation.calls := by
  rcases Derivation.children_eq_or_collide h with ⟨hname, hvalue⟩ | hcollide
  · rcases eq_or_collide (List.mem_singleton_self _) (List.mem_singleton_self _) hname
      with hname | hcollide
    · rcases eq_or_collide (List.mem_singleton_self _) (List.mem_singleton_self _) hvalue
        with hvalue | hcollide
      · exact .inl ⟨EntryName.eq_of_call_eq hname, Value.agree_of_call_eq ha hb hvalue⟩
      · exact .inr (Collide.right hcollide)
    · exact .inr (Collide.left hcollide)
  · exact .inr hcollide

/-- **Subtrees with one value agree entry by entry, or collide.** -/
theorem Spans.agree_or_collide {es fs : List Entry} {d d' : Derivation} (hd : Spans es d)
    (hd' : Spans fs d') (hes : ∀ e ∈ es, e.value.IsValid) (hfs : ∀ e ∈ fs, e.value.IsValid)
    (h : d.value = d'.value) :
    List.Forall₂ Entry.Agree es fs ∨ Collide d.calls d'.calls := by
  -- both derivations are taken apart at once, and each case ends at a node of both
  induction hd generalizing fs d' with
  | entry a =>
    cases hd' with
    | entry b =>
      have ha := hes a (List.mem_singleton_self a)
      have hb := hfs b (List.mem_singleton_self b)
      exact (Entry.agree_or_collide ha hb h).imp_left fun hab => .cons hab .nil
    | node hl hr =>
      -- the second tree goes on below the node where the first is at an entry
      exact .inr (Entry.collide_of_value_eq hl h)
  | node hl hr ihl ihr =>
    cases hd' with
    | entry b => exact .inr (Entry.collide_of_value_eq hl h.symm).symm
    | node hl' hr' =>
      -- both trees go on, with equal nodes on the left and on the right
      rw [List.forall_mem_append] at hes hfs
      rcases Derivation.children_eq_or_collide h with ⟨hleft, hright⟩ | hcollide
      · rcases ihl hl' hes.1 hfs.1 hleft with hagree | hcollide
        · rcases ihr hr' hes.2 hfs.2 hright with hagree' | hcollide
          · exact .inl (List.rel_append hagree hagree')
          · exact .inr (Collide.right hcollide)
        · exact .inr (Collide.left hcollide)
      · exact .inr hcollide

/-! ## Content ids -/

/-- Aliases have one leaf. -/
theorem Value.Alias.leaf_eq {v w : Value} (h : v.Alias w) : v.leaf = w.leaf := by
  obtain ⟨n, ⟨rfl, rfl⟩ | ⟨rfl, rfl⟩⟩ := h <;> rw [Value.leaf, Value.leaf, Fp.ofNat_val]

theorem Entry.Agree.entryLeaves_eq {a b : Entry} (h : a.Agree b) :
    Record.entryLeaves a = Record.entryLeaves b := by
  obtain ⟨hname, hvalue⟩ := h
  rw [Record.entryLeaves, Record.entryLeaves, hname]
  rcases hvalue with hvalue | halias
  · rw [hvalue]
  · rw [halias.leaf_eq]

namespace Record

/-- Records that agree have one content id, so aliases are not told apart by it. -/
theorem contentId_eq_of_agree {r s : Record} (h : List.Forall₂ Entry.Agree r.entries s.entries) :
    r.contentId = s.contentId := by
  have hleaves : r.leaves = s.leaves := by
    rw [leaves, leaves]
    generalize r.entries = es at h
    generalize s.entries = fs at h
    induction h with
    | nil => rfl
    | cons hab _ ih => rw [List.flatMap_cons, List.flatMap_cons, hab.entryLeaves_eq, ih]
  have hcovers := r.covers_tree
  rw [hleaves] at hcovers
  rw [contentId, contentId, hcovers.unique s.covers_tree]

/-- **The content id binds the record.**  Records with one content id agree entry by entry, or two
of their hash computations collide. -/
theorem agree_or_collide_of_contentId_eq (r s : Record) (h : r.contentId = s.contentId) :
    List.Forall₂ Entry.Agree r.entries s.entries ∨ Collide r.hashCalls s.hashCalls := by
  rw [contentId_eq, contentId_eq] at h
  exact r.spans_root.agree_or_collide s.spans_root r.valid s.valid (Fp.ext h)

/-- An integer and the field element that it stands for, under one name. -/
theorem agree_or_collide_of_contentId_eq_single :
    let r := single ⟨⟨"age", by decide⟩, .int (-1)⟩ trivial
    let s := single ⟨⟨"age", by decide⟩, .cryptographic (Fp.ofInt (-1)).val⟩ (Fp.val_lt _)
    r.contentId = s.contentId
      ∧ (List.Forall₂ Entry.Agree r.entries s.entries ∨ Collide r.hashCalls s.hashCalls) := by
  intro r s
  have h : r.contentId = s.contentId :=
    contentId_eq_of_agree (.cons ⟨rfl, .inr ⟨-1, .inl ⟨rfl, rfl⟩⟩⟩ .nil)
  exact ⟨h, agree_or_collide_of_contentId_eq r s h⟩

end Record

end ProvableRecord
