import Mathlib.Data.List.Duplicate
import ProvableRecord.Proofs.Record.Signals
import ProvableRecord.Proofs.Text.ByteOrder

/-!
# Which entries make a record, and how it finds them

Entries make a record if there are some, no two have one name and no cryptographic value is too
large (`exists_ofEntries_iff`).  Otherwise the first of three causes in this order is reported: that
there are none, a value out of range, and a name that occurs twice (`ofEntries_eq_error`).

A record that keeps its positions in a map by name finds its entries through that map.
`Record.index` is the map, and it inverts the row of entries exactly (`getElem?_index_eq_some_iff`):
sorting left no two positions for one name.  So what a search along the row finds is what the map
says, for a position (`position?_eq_index`) and for a value (`get?_eq_index`).
-/

namespace ProvableRecord

/-- A value is valid unless it is a number that is no field element. -/
theorem Value.isValid_iff {v : Value} :
    v.IsValid ↔ ∀ n, v = .cryptographic n → n < fieldModulus := by
  cases v <;> simp [IsValid]

namespace Record

variable {r : Record} {es : List Entry} {s : String} {i : ℕ} {v : Value} {fault : RecordError}

/-! ## Which entries make a record -/

/-- A name that two neighbours share occurs twice. -/
theorem duplicate_of_firstRepeated {name : EntryName} (h : firstRepeated es = some name) :
    List.Duplicate name (es.map (·.name)) := by
  induction es with
  | nil => cases h
  | cons a es ih =>
    cases es with
    | nil => cases h
    | cons b es =>
      rw [firstRepeated] at h
      split at h
      · next heq =>
        cases h
        exact .cons_mem (heq ▸ List.mem_cons_self)
      · exact .cons_duplicate (ih h)

/-- **Why entries make no record.**  A value out of range is reported before a name that occurs
twice. -/
theorem ofEntries_eq_error (h : ofEntries es = .error fault) :
    es = [] ∧ fault = .noEntries
    ∨ (∃ e ∈ es, ¬ e.value.IsValid ∧ fault = .entry e.name.text .outsideField)
    ∨ (∀ e ∈ es, e.value.IsValid) ∧ ∃ name, List.Duplicate name (es.map (·.name))
      ∧ fault = .duplicateName name := by
  unfold ofEntries at h
  split at h
  · next hnil =>
    cases h
    exact .inl ⟨hnil, rfl⟩
  · next hnil =>
    split at h
    · next e hfind =>
      cases h
      have hinvalid := List.find?_some hfind
      rw [decide_eq_true_eq] at hinvalid
      exact .inr (.inl ⟨e, List.mem_of_find?_eq_some hfind, hinvalid, rfl⟩)
    · next hfind =>
      split at h
      · next name hrepeated =>
        cases h
        refine .inr (.inr ⟨?_, name, ?_, rfl⟩)
        · intro e he
          simpa using List.find?_eq_none.mp hfind e he
        · have hperm := (List.mergeSort_perm es entryLe).map Entry.name
          have hsorted := duplicate_of_firstRepeated hrepeated
          rw [List.duplicate_iff_two_le_count, hperm.count_eq] at hsorted
          exact List.duplicate_iff_two_le_count.mpr hsorted
      · cases h

/-- **Entries make a record** if there are some, their names are distinct and their values valid. -/
theorem exists_ofEntries_iff : (∃ r, ofEntries es = .ok r)
    ↔ es ≠ [] ∧ (es.map (·.name)).Nodup ∧ ∀ e ∈ es, e.value.IsValid := by
  constructor
  · rintro ⟨r, hr⟩
    have hperm := ofEntries_eq_ok_iff.mp hr
    refine ⟨?_, (hperm.map Entry.name).nodup_iff.mp r.nodup_names, ?_⟩
    · rintro rfl
      exact r.nonempty hperm.eq_nil
    · intro e he
      exact r.valid e (hperm.mem_iff.mpr he)
  · rintro ⟨hne, hnodup, hvalid⟩
    cases h : ofEntries es with
    | ok r => exact ⟨r, rfl⟩
    | error fault =>
      rcases ofEntries_eq_error h with ⟨hnil, -⟩ | ⟨e, he, hinvalid, -⟩ | ⟨-, name, hrepeated, -⟩
      · exact absurd hnil hne
      · exact absurd (hvalid e he) hinvalid
      · exact absurd hnodup hrepeated.not_nodup

/-- **The class of the error** says whether a value is out of range. -/
theorem errorClass_of_ofEntries (h : ofEntries es = .error fault) :
    fault.errorClass = if ∀ e ∈ es, e.value.IsValid then .shape else .range := by
  rcases ofEntries_eq_error h with ⟨rfl, rfl⟩ | ⟨e, he, hinvalid, rfl⟩ | ⟨hvalid, name, -, rfl⟩
  · rw [if_pos (List.forall_mem_nil _)]
    rfl
  · rw [if_neg fun hvalid => hinvalid (hvalid e he)]
    rfl
  · rw [if_pos hvalid]
    rfl

/-! ## Finding an entry -/

/-- The map from the names of the entries to their positions. -/
def index (r : Record) : Std.TreeMap String ℕ :=
  .ofList (r.entries.zipIdx.map fun p => (p.1.name.text, p.2))

/-- No two positions are entered for one name. -/
theorem pairwise_index (r : Record) :
    (r.entries.zipIdx.map fun p => (p.1.name.text, p.2)).Pairwise
      fun a b => ¬ compare a.1 b.1 = .eq := by
  have hnames : ((r.entries.zipIdx.map Prod.fst).map (·.name)).Nodup := by
    rw [List.zipIdx_map_fst]
    exact r.nodup_names
  rw [List.map_map, List.Nodup, List.pairwise_map] at hnames
  rw [List.pairwise_map]
  refine hnames.imp ?_
  intro p q hne heq
  exact hne (EntryName.ext (Std.LawfulEqOrd.eq_of_compare heq))

/-- **The map inverts the row of entries.** -/
theorem getElem?_index_eq_some_iff :
    r.index[s]? = some i ↔ ∃ e, r.entries[i]? = some e ∧ e.name.text = s := by
  have hentered : ∀ {e : Entry} {j : ℕ}, r.entries[j]? = some e →
      r.index[e.name.text]? = some j := by
    intro e j he
    refine Std.TreeMap.getElem?_ofList_of_mem Std.ReflCmp.compare_self r.pairwise_index ?_
    exact List.mem_map.mpr ⟨(e, j), List.mem_zipIdx_iff_getElem?.mpr he, rfl⟩
  constructor
  · intro h
    have hmem : s ∈ (r.entries.zipIdx.map fun p => (p.1.name.text, p.2)).map Prod.fst := by
      by_contra hnone
      rw [index, Std.TreeMap.getElem?_ofList_of_contains_eq_false (by simpa using hnone)] at h
      cases h
    simp only [List.map_map, List.mem_map, Function.comp_apply] at hmem
    obtain ⟨⟨e, j⟩, hej, rfl⟩ := hmem
    have he := List.mem_zipIdx_iff_getElem?.mp hej
    rw [hentered he, Option.some_inj] at h
    exact ⟨e, h ▸ he, rfl⟩
  · rintro ⟨e, he, rfl⟩
    exact hentered he

/-- **The position of a name is the one in the map.** -/
theorem position?_eq_index (r : Record) (s : String) : r.position? s = r.index[s]? := by
  by_cases h : ∃ e ∈ r.entries, e.name.text = s
  · obtain ⟨e, he, rfl⟩ := h
    obtain ⟨i, hi⟩ := List.getElem?_of_mem he
    rw [position?_of_getElem? hi, getElem?_index_eq_some_iff.mpr ⟨e, hi, rfl⟩]
  · have hnone : r.index[s]? = none := by
      rw [Option.eq_none_iff_forall_ne_some]
      intro i hi
      obtain ⟨e, he, hname⟩ := getElem?_index_eq_some_iff.mp hi
      exact h ⟨e, List.mem_of_getElem? he, hname⟩
    rw [hnone, position?, List.findIdx?_eq_none_iff]
    intro e he
    exact decide_eq_false fun hname => h ⟨e, he, hname⟩

/-- **The value of a name is at its position.** -/
theorem get?_eq_index (r : Record) (s : String) :
    r.get? s = (r.index[s]?).bind fun i => (r.entries[i]?).map (·.value) := by
  rw [← position?_eq_index, get?, position?, List.find?_eq_bind_findIdx?_getElem?,
    Option.map_bind]
  rfl

/-- A name has the value of its entry. -/
theorem get?_eq_some_iff : r.get? s = some v ↔ ∃ e ∈ r.entries, e.name.text = s ∧ e.value = v := by
  constructor
  · intro h
    rw [get?, Option.map_eq_some_iff] at h
    obtain ⟨e, hfind, rfl⟩ := h
    have hname := List.find?_some hfind
    rw [decide_eq_true_eq] at hname
    exact ⟨e, List.mem_of_find?_eq_some hfind, hname, rfl⟩
  · rintro ⟨e, he, rfl, rfl⟩
    exact get?_eq he

/-! ## Both together -/

/-- **Exactly the valid lists of entries make a record, and it loses nothing.**  Entries make a
record if there are some, no name occurs twice and every cryptographic value is less than the field
modulus.  A value that is not is an error of range, whatever else is wrong; no entries and a name
that occurs twice are errors of shape.  The record has the given entries, in ascending order of the
bytes of their names; its map holds the position of each name and nothing else, and a position and a
value are what the map says; and a text has a value exactly if an entry of that name was given
with it. -/
theorem ofEntries_exact (es : List Entry) :
    ((∃ r, ofEntries es = .ok r)
      ↔ es ≠ [] ∧ (es.map (·.name)).Nodup
        ∧ ∀ e ∈ es, ∀ n, e.value = .cryptographic n → n < fieldModulus)
    ∧ (∀ fault, ofEntries es = .error fault →
      (fault.errorClass = .range ↔ ∃ e ∈ es, ∃ n, e.value = .cryptographic n ∧ fieldModulus ≤ n)
      ∧ (fault.errorClass = .shape ↔ (es = [] ∨ ¬ (es.map (·.name)).Nodup)
        ∧ ∀ e ∈ es, ∀ n, e.value = .cryptographic n → n < fieldModulus))
    ∧ ∀ r, ofEntries es = .ok r →
      (r.entries.Pairwise fun a b => textBytes a.name.text < textBytes b.name.text)
      ∧ r.entries.Perm es
      ∧ (∀ (s : String) (i : ℕ), r.index[s]? = some i
        ↔ ∃ e, r.entries[i]? = some e ∧ e.name.text = s)
      ∧ (∀ s, r.position? s = r.index[s]?
        ∧ r.get? s = (r.index[s]?).bind fun i => (r.entries[i]?).map (·.value))
      ∧ ∀ s v, r.get? s = some v ↔ ∃ e ∈ es, e.name.text = s ∧ e.value = v := by
  have hvalid : (∀ e ∈ es, ∀ n, e.value = .cryptographic n → n < fieldModulus)
      ↔ ∀ e ∈ es, e.value.IsValid :=
    forall₂_congr fun e _ => Value.isValid_iff.symm
  have hinvalid : (∃ e ∈ es, ∃ n, e.value = .cryptographic n ∧ fieldModulus ≤ n)
      ↔ ¬ ∀ e ∈ es, e.value.IsValid := by
    rw [← hvalid]
    push Not
    rfl
  rw [hvalid]
  refine ⟨exists_ofEntries_iff, ?_, ?_⟩
  · intro fault h
    have hclass := errorClass_of_ofEntries h
    rw [hinvalid]
    by_cases hall : ∀ e ∈ es, e.value.IsValid
    · rw [if_pos hall] at hclass
      rw [hclass]
      have hcause : es = [] ∨ ¬ (es.map (·.name)).Nodup := by
        by_contra hnone
        rw [not_or, not_not] at hnone
        obtain ⟨r, hr⟩ := exists_ofEntries_iff.mpr ⟨hnone.1, hnone.2, hall⟩
        cases h.symm.trans hr
      exact ⟨iff_of_false (by simp) (not_not_intro hall), iff_of_true rfl ⟨hcause, hall⟩⟩
    · rw [if_neg hall] at hclass
      rw [hclass]
      exact ⟨iff_of_true rfl hall, iff_of_false (by simp) fun h => hall h.2⟩
  · intro r hr
    have hperm := ofEntries_eq_ok_iff.mp hr
    refine ⟨r.sorted.imp textBytes_lt, hperm, fun s i => getElem?_index_eq_some_iff,
      fun s => ⟨position?_eq_index r s, get?_eq_index r s⟩, ?_⟩
    intro s v
    rw [get?_eq_some_iff]
    exact exists_congr fun e => and_congr_left fun _ => hperm.mem_iff

end Record

end ProvableRecord
