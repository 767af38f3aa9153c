import ProvableRecord.Record.Error
import ProvableRecord.Record.Value

/-!
# Records

A record is a non-empty list of entries in strictly ascending order of name, all of whose values are
valid.  `Record.ofEntries` makes one from entries in any order: it sorts them and refuses an empty
list, a value that is not valid, and a name that occurs twice, in this order.
-/

namespace ProvableRecord

/-- A named value. -/
structure Entry where
  name : EntryName
  value : Value
deriving DecidableEq

/-- Entries in strictly ascending order of name. -/
structure Record where
  entries : List Entry
  sorted : entries.Pairwise fun a b => a.name.text < b.name.text
  nonempty : entries ≠ []
  valid : ∀ e ∈ entries, e.value.IsValid

namespace Record

@[ext]
theorem ext {r s : Record} (h : r.entries = s.entries) : r = s := by
  cases r; cases s; cases h; rfl

instance : DecidableEq Record := fun r s =>
  if h : r.entries = s.entries then isTrue (Record.ext h)
  else isFalse fun e => h (congrArg Record.entries e)

/-- The order of entries: by name. -/
def entryLe (a b : Entry) : Bool := a.name.text ≤ b.name.text

/-- The first name that two neighbours share. -/
def firstRepeated : List Entry → Option EntryName
  | a :: b :: rest => if a.name = b.name then some a.name else firstRepeated (b :: rest)
  | _ => none

theorem pairwise_entryLe_mergeSort (es : List Entry) :
    (es.mergeSort entryLe).Pairwise fun a b => a.name.text ≤ b.name.text := by
  have h := @List.pairwise_mergeSort Entry entryLe
    (fun a b c => by simp only [entryLe, decide_eq_true_eq]; exact String.le_trans)
    (fun a b => by
      simp only [entryLe, Bool.or_eq_true, decide_eq_true_eq]; exact String.le_total _ _)
    es
  simpa only [entryLe, decide_eq_true_eq] using h

/-- Sorted entries without equal neighbours are strictly ascending. -/
theorem pairwise_lt_of_firstRepeated {es : List Entry}
    (sorted : es.Pairwise fun a b => a.name.text ≤ b.name.text) (h : firstRepeated es = none) :
    es.Pairwise fun a b => a.name.text < b.name.text := by
  induction es with
  | nil => exact .nil
  | cons a es ih =>
    cases es with
    | nil => exact List.pairwise_singleton _ _
    | cons b es =>
      have hne : a.name ≠ b.name := by
        intro he
        simp [firstRepeated, he] at h
      have hrest : firstRepeated (b :: es) = none := by
        simpa [firstRepeated, hne] using h
      obtain ⟨hfirst, hsorted⟩ := List.pairwise_cons.1 sorted
      have hab : a.name.text < b.name.text := by
        have hle := hfirst b (by simp)
        refine Decidable.byContradiction fun hlt => hne (EntryName.ext ?_)
        exact String.le_antisymm hle (String.not_lt.1 hlt)
      refine List.pairwise_cons.2 ⟨?_, ih hsorted hrest⟩
      intro c hc
      rcases List.mem_cons.1 hc with rfl | hc
      · exact hab
      · have hbc := (List.pairwise_cons.1 hsorted).1 c hc
        exact String.not_le.1 fun hca =>
          absurd (String.le_trans hbc hca) (String.not_le.2 hab)

/-- The record of some entries, given in any order. -/
def ofEntries (es : List Entry) : Except RecordError Record :=
  if nonempty : es = [] then .error .noEntries
  else match valid : es.find? fun e => ¬ e.value.IsValid with
    | some e => .error (.entry e.name.text .outsideField)
    | none =>
      match distinct : firstRepeated (es.mergeSort entryLe) with
      | some name => .error (.duplicateName name)
      | none =>
        .ok {
          entries := es.mergeSort entryLe
          sorted := pairwise_lt_of_firstRepeated (pairwise_entryLe_mergeSort es) distinct
          nonempty := fun h => nonempty (by
            have := @List.length_mergeSort Entry entryLe es
            rw [h] at this
            exact List.length_eq_zero_iff.1 this.symm)
          valid := fun e he => by
            have := List.find?_eq_none.1 valid e (List.mem_mergeSort.1 he)
            simpa using this }

/-- The number of entries. -/
def size (r : Record) : Nat := r.entries.length

/-- The names in order. -/
def names (r : Record) : List EntryName := r.entries.map (·.name)

/-- The position of an entry. -/
def position? (r : Record) (name : String) : Option Nat :=
  r.entries.findIdx? fun e => e.name.text = name

/-- The value of an entry. -/
def get? (r : Record) (name : String) : Option Value :=
  (r.entries.find? fun e => e.name.text = name).map (·.value)

end Record

end ProvableRecord
