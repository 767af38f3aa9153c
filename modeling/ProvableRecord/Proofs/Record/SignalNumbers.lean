import ProvableRecord.Proofs.Field.Residue
import ProvableRecord.Proofs.Record.Signals

/-!
# The numbers in signals

A numeric value stands for an integer (`Value.number?`), and the number in its signals is the
residue of that integer (`circuitSignal_eq`).  An integer of 64 bits and a field element are both
less than the modulus away from zero, so the residue is the integer itself, or counts down from the
modulus where it is negative (`Fp.val_ofInt_eq_ite`).

The leaf of the value, its hash and the hash of the number in the signals are computed from the
value in three ways.  They agree, so the signals of an entry are consistent at every position of the
tree (`signals_consistent`).
-/

namespace ProvableRecord

namespace Value

/-- The integer that a numeric value stands for. -/
def number? : Value → Option ℤ
  | int n => some n.toInt
  | cryptographic n => some n
  | _ => none

variable {v : Value} {z : ℤ}

theorem isSome_number? : v.number?.isSome ↔ v.type = .int ∨ v.type = .cryptographic := by
  cases v <;> simp [number?, type]

/-- The integer of a valid value is less than the modulus away from zero. -/
theorem number?_bounds (hvalid : v.IsValid) (h : v.number? = some z) :
    -fieldModulus ≤ z ∧ z < fieldModulus := by
  cases v with
  | int n =>
    cases h
    have hge := n.le_toInt
    have hlt := n.toInt_lt
    simp only [fieldModulus]
    omega
  | cryptographic n =>
    cases h
    have hlt : n < fieldModulus := hvalid
    omega
  | string | publicKey => cases h

/-- **The number in the signals of a value is the residue of its integer.** -/
theorem circuitSignal_eq (hvalid : v.IsValid) :
    v.circuitSignal = v.number?.map fun z => (Fp.ofInt z).val := by
  cases v with
  | int n => rfl
  | cryptographic n =>
    obtain ⟨hge, hlt⟩ := number?_bounds hvalid rfl
    have hval := Fp.val_ofInt_eq_ite hge hlt
    rw [if_neg (Int.natCast_nonneg n).not_gt] at hval
    rw [circuitSignal, number?, Option.map_some, Int.natCast_inj.mp hval]
  | string | publicKey => rfl

end Value

/-- What signals say about the entry that they are for. -/
structure Signals.Describe (s : Signals) (e : Entry) : Prop where
  nameHash_eq : s.nameHash = textDigest e.name.text
  valueHash_eq : e.value.hash = .ok s.valueHash
  leaf_eq : e.value.leaf.val = s.valueHash
  isSome_value : s.value.isSome ↔ e.value.type = .int ∨ e.value.type = .cryptographic
  /-- The number is the integer of the value modulo the field, in the field. -/
  value_eq : ∀ n, s.value = some n → ∃ z, e.value.number? = some z
    ∧ (n : ℤ) = z % fieldModulus ∧ (n : ℤ) = (if z < 0 then fieldModulus + z else z)
    ∧ n < fieldModulus
  elementHash_eq : ∀ n, s.value = some n → elementHash n = .ok s.valueHash

/-- The name, the value and the hash of the value make signals that describe an entry. -/
theorem Signals.describe {s : Signals} {e : Entry} (hvalid : e.value.IsValid)
    (hname : s.nameHash = textDigest e.name.text) (hhash : e.value.hash = .ok s.valueHash)
    (hvalue : s.value = e.value.circuitSignal) : s.Describe e where
  nameHash_eq := hname
  valueHash_eq := hhash
  leaf_eq := by
    rw [Value.hash_eq_val_leaf hvalid] at hhash
    injection hhash
  isSome_value := by
    rw [hvalue, Value.circuitSignal_eq hvalid, Option.isSome_map, Value.isSome_number?]
  value_eq n hn := by
    rw [hvalue, Value.circuitSignal_eq hvalid, Option.map_eq_some_iff] at hn
    obtain ⟨z, hz, rfl⟩ := hn
    obtain ⟨hge, hlt⟩ := Value.number?_bounds hvalid hz
    exact ⟨z, hz, Fp.val_ofInt z, Fp.val_ofInt_eq_ite hge hlt, Fp.val_lt _⟩
  elementHash_eq n hn := by
    rw [← hhash]
    exact Value.elementHash_of_circuitSignal hvalid (hvalue.symm.trans hn)

namespace Record

/-- **Every entry has signals, which describe it and are consistent.** -/
theorem signals_consistent (r : Record) {e : Entry} (he : e ∈ r.entries) :
    ∃ s, r.signals e.name.text = .ok s ∧ s.Describe e ∧ s.isConsistent = true := by
  obtain ⟨p, h, -, -, hhash, hsignals, hconsistent⟩ := signals_complete he
  exact ⟨_, hsignals, Signals.describe (r.valid e he) rfl hhash rfl, hconsistent⟩

/-- A negative integer counts down from the modulus. -/
theorem signals_consistent_negative :
    let e : Entry := ⟨⟨"age", by decide⟩, .int (-7)⟩
    let r := single e trivial
    e ∈ r.entries ∧ ∃ s, r.signals e.name.text = .ok s ∧ s.Describe e ∧ s.isConsistent = true
      ∧ s.value = some (fieldModulus - 7) := by
  intro e r
  have he : e ∈ r.entries := List.mem_singleton_self e
  obtain ⟨s, hsignals, hs, hconsistent⟩ := signals_consistent r he
  obtain ⟨n, hn⟩ := Option.isSome_iff_exists.mp (hs.isSome_value.mpr (.inl rfl))
  obtain ⟨z, hz, -, hnz, -⟩ := hs.value_eq n hn
  cases hz
  refine ⟨he, s, hsignals, hs, hconsistent, ?_⟩
  rw [hn, Option.some_inj, ← Int.natCast_inj, hnz]
  decide

end Record

end ProvableRecord
