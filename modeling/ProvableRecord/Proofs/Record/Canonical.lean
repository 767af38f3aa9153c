import Mathlib.Data.List.Nodup
import ProvableRecord.Record.Entries
import ProvableRecord.Record.Signals

/-!
# A record is a set of entries

`ofEntries` sorts by name and looks for a repeated name among neighbours.  Sorting brings equal
names together, so none is missed, and distinct names have one sorted order.  So some entries make a
record exactly if they are the entries of the record in any order (`ofEntries_eq_ok_iff`), and a
record does not depend on the order in which its entries were given (`ofEntries_perm`).
-/

namespace ProvableRecord.Record

variable {r : Record} {es es' : List Entry}

theorem nodup_names (r : Record) : (r.entries.map (·.name)).Nodup := by
  rw [List.Nodup, List.pairwise_map]
  refine r.sorted.imp ?_
  intro a b hlt heq
  rw [heq] at hlt
  exact String.lt_irrefl _ hlt

/-- A record has one entry of a name. -/
theorem eq_of_name_eq {a b : Entry} (ha : a ∈ r.entries) (hb : b ∈ r.entries)
    (h : a.name = b.name) : a = b :=
  List.inj_on_of_nodup_map r.nodup_names ha hb h

/-- Strictly ascending entries have no equal neighbours. -/
theorem firstRepeated_eq_none (h : es.Pairwise fun a b => a.name.text < b.name.text) :
    firstRepeated es = none := by
  induction es with
  | nil => rfl
  | cons a es ih =>
    obtain ⟨hfirst, hrest⟩ := List.pairwise_cons.mp h
    cases es with
    | nil => rfl
    | cons b es =>
      have hne : a.name ≠ b.name := by
        intro heq
        have hlt := hfirst b List.mem_cons_self
        rw [heq] at hlt
        exact String.lt_irrefl _ hlt
      rw [firstRepeated, if_neg hne]
      exact ih hrest

/-- **Sorting the entries of a record restores their order.** -/
theorem mergeSort_of_perm (h : r.entries.Perm es) : es.mergeSort entryLe = r.entries := by
  have hperm : (es.mergeSort entryLe).Perm r.entries :=
    (List.mergeSort_perm es entryLe).trans h.symm
  refine hperm.eq_of_pairwise ?_ (pairwise_entryLe_mergeSort es)
    (r.sorted.imp fun hlt => String.not_lt.mp (String.lt_asymm hlt))
  intro a b ha hb hab hba
  exact eq_of_name_eq (hperm.subset ha) hb (EntryName.ext (String.le_antisymm hab hba))

/-- **Entries make a record exactly if they are its entries in some order.** -/
theorem ofEntries_eq_ok_iff : ofEntries es = .ok r ↔ r.entries.Perm es := by
  constructor
  · intro h
    unfold ofEntries at h
    split at h
    · cases h
    · split at h
      · cases h
      · split at h
        · cases h
        · cases h
          exact List.mergeSort_perm es entryLe
  · intro h
    have hsort := mergeSort_of_perm h
    have hdistinct : firstRepeated (es.mergeSort entryLe) = none := by
      rw [hsort]
      exact firstRepeated_eq_none r.sorted
    have hvalid : ∀ e ∈ es, e.value.IsValid := fun e he => r.valid e (h.symm.subset he)
    unfold ofEntries
    split
    · next hnil =>
      rw [hnil] at h
      exact absurd h.eq_nil r.nonempty
    · split
      · next e hfind =>
        have hinvalid := List.find?_some hfind
        rw [decide_eq_true_eq] at hinvalid
        exact absurd (hvalid e (List.mem_of_find?_eq_some hfind)) hinvalid
      · split
        · next name hrepeated =>
          rw [hdistinct] at hrepeated
          cases hrepeated
        · exact congrArg Except.ok (Record.ext hsort)

/-- The entries of a record make the record. -/
theorem ofEntries_entries (r : Record) : ofEntries r.entries = .ok r :=
  ofEntries_eq_ok_iff.mpr (List.Perm.refl _)

/-- **The order of entries does not matter.**  Entries in two orders make a record or not together,
and then it is one record: with one content id, depth and text, the same names and entries in the
same order, and the same proof and signals for every name. -/
theorem ofEntries_perm (h : es.Perm es') :
    ((∃ r, ofEntries es = .ok r) ↔ ∃ r, ofEntries es' = .ok r)
      ∧ ∀ r r', ofEntries es = .ok r → ofEntries es' = .ok r' →
        r = r' ∧ r.contentId = r'.contentId ∧ r.depth = r'.depth ∧ r.toText = r'.toText
          ∧ r.names = r'.names ∧ r.entries = r'.entries
          ∧ ∀ name, r.prove name = r'.prove name ∧ r.signals name = r'.signals name := by
  have hiff : ∀ r, ofEntries es = .ok r ↔ ofEntries es' = .ok r := by
    intro r
    rw [ofEntries_eq_ok_iff, ofEntries_eq_ok_iff, h.congr_right]
  constructor
  · exact exists_congr hiff
  · intro r r' hr hr'
    obtain rfl : r = r' := Except.ok.inj (((hiff r).mp hr).symm.trans hr')
    exact ⟨rfl, rfl, rfl, rfl, rfl, rfl, fun name => ⟨rfl, rfl⟩⟩

/-- Two entries in either order. -/
theorem ofEntries_perm_pair :
    let a : Entry := ⟨⟨"age", by decide⟩, .int (-7)⟩
    let b : Entry := ⟨⟨"name", by decide⟩, .string "Zoë"⟩
    [b, a].Perm [a, b] ∧ ∃ r, ofEntries [b, a] = .ok r ∧ ofEntries [a, b] = .ok r := by
  intro a b
  have hperm : [b, a].Perm [a, b] := List.Perm.swap a b []
  let r : Record := {
    entries := [a, b]
    sorted := List.pairwise_pair.mpr (by decide)
    nonempty := List.cons_ne_nil _ _
    valid := by decide }
  have hr : ofEntries [a, b] = .ok r := r.ofEntries_entries
  obtain ⟨hiff, hsame⟩ := ofEntries_perm hperm
  obtain ⟨r', hr'⟩ := hiff.mpr ⟨r, hr⟩
  obtain ⟨rfl, -⟩ := hsame r' r hr' hr
  exact ⟨hperm, r, hr', hr⟩

end ProvableRecord.Record
