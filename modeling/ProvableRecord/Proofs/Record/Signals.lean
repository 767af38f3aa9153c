import ProvableRecord.Proofs.Record.Canonical
import ProvableRecord.Proofs.Record.Soundness

/-!
# Signals and evidence of an entry

A name is looked up in three ways: its position for the proof, its value for the number, and whether
there is one at all.  Names are distinct, so all three lead to the same entry (`get?_eq`), and a
name of no entry is refused by its position, before a tree is built (`prove_eq_error`).

The signals of an entry state the hashes of its name and its value (`signals_eq`).  The number that
a numeric value puts into them has the hash of the value (`elementHash_of_circuitSignal`): an
integer is hashed as its residue, and the residue is a field element.  So the signals agree with
their own proof (`isConsistent_of_provesEntry`), and the evidence of an entry is valid in both forms
(`evidence_complete`).
-/

namespace ProvableRecord

theorem Value.elementHash_of_circuitSignal {v : Value} {n : ℕ} (hvalid : v.IsValid)
    (h : v.circuitSignal = some n) : elementHash n = v.hash := by
  cases v with
  | string s => cases h
  | int i =>
    cases h
    rw [elementHash, requireElement_eq_ok (Fp.val_lt _), Fp.ofNat_val, Value.hash, intHash_eq]
    rfl
  | cryptographic m =>
    cases h
    rw [Value.hash]
  | publicKey k => cases h

namespace Record

variable {r : Record} {e : Entry} {name : String} {p : Merkle.Proof} {n : ℕ}

/-- **The value of a name is that of its entry.** -/
theorem get?_eq (he : e ∈ r.entries) : r.get? e.name.text = some e.value := by
  obtain ⟨found, hfound⟩ : ∃ found,
      r.entries.find? (fun e' => e'.name.text = e.name.text) = some found := by
    rw [← Option.isSome_iff_exists, List.find?_isSome]
    exact ⟨e, he, decide_eq_true rfl⟩
  have hname := List.find?_some hfound
  rw [decide_eq_true_eq] at hname
  have hmem := List.mem_of_find?_eq_some hfound
  rw [get?, hfound, eq_of_name_eq hmem he (EntryName.ext hname)]
  rfl

/-! ## Names of no entry -/

theorem get?_eq_none (h : ∀ e ∈ r.entries, e.name.text ≠ name) : r.get? name = none := by
  have hnone : r.entries.find? (fun e => e.name.text = name) = none := by
    rw [List.find?_eq_none]
    intro e he
    rw [decide_eq_true_eq]
    exact h e he
  rw [get?, hnone]
  rfl

theorem position_eq_error (h : ∀ e ∈ r.entries, e.name.text ≠ name) :
    r.position name = .error (.entryNotFound name) := by
  have hnone : r.position? name = none := by
    rw [position?, List.findIdx?_eq_none_iff]
    intro e he
    exact decide_eq_false (h e he)
  simp only [position, hnone]

/-- A name of no entry has no proof. -/
theorem prove_eq_error (h : ∀ e ∈ r.entries, e.name.text ≠ name) :
    r.prove name = .error (.entryNotFound name) := by
  rw [prove, position_eq_error h]
  rfl

/-- A name of no entry has no signals. -/
theorem signals_eq_error (h : ∀ e ∈ r.entries, e.name.text ≠ name) :
    r.signals name = .error (.entryNotFound name) := by
  rw [signals, prove_eq_error h]
  rfl

/-! ## The signals of an entry -/

/-- **The signals of an entry** are its proof with the hashes of its name and its value. -/
theorem signals_eq (he : e ∈ r.entries) (hprove : r.prove e.name.text = .ok p)
    (hp : ProvesEntry r e p) (hn : e.value.hash = .ok n) :
    r.signals e.name.text
      = .ok ⟨p, textDigest e.name.text, n, e.value.circuitSignal⟩ := by
  obtain ⟨n', hn', hsibling⟩ := hp.sibling_eq
  rw [hn, Except.ok.injEq] at hn'
  subst hn'
  obtain ⟨rest, hsiblings⟩ := List.head?_eq_some_iff.mp hsibling
  rw [signals, hprove]
  simp only [bind, Except.bind, hsiblings, get?_eq he, hp.leaf_eq]
  rfl

/-- The signals of an entry agree with their proof. -/
theorem isConsistent_of_provesEntry (he : e ∈ r.entries) (hp : ProvesEntry r e p)
    (hn : e.value.hash = .ok n) :
    (⟨p, textDigest e.name.text, n, e.value.circuitSignal⟩ : Signals).isConsistent = true := by
  obtain ⟨n', hn', hsibling⟩ := hp.sibling_eq
  rw [hn, Except.ok.injEq] at hn'
  subst hn'
  rw [Signals.isConsistent, hp.verify_eq, hp.leaf_eq, hsibling, beq_self_eq_true,
    beq_self_eq_true]
  cases hsignal : e.value.circuitSignal with
  | none => rfl
  | some m =>
    simp only [Value.elementHash_of_circuitSignal (r.valid e he) hsignal, hn, Except.toOption,
      beq_self_eq_true, Bool.and_self]

/-- **Every entry has signals**, with the proof of the entry, and they agree with it. -/
theorem signals_complete (he : e ∈ r.entries) :
    ∃ p n, r.prove e.name.text = .ok p ∧ ProvesEntry r e p ∧ e.value.hash = .ok n
      ∧ r.signals e.name.text = .ok ⟨p, textDigest e.name.text, n, e.value.circuitSignal⟩
      ∧ (⟨p, textDigest e.name.text, n, e.value.circuitSignal⟩ : Signals).isConsistent = true := by
  obtain ⟨i, hi⟩ := List.getElem?_of_mem he
  have hprove := prove_eq hi
  have hp := provesEntry_namePath hi
  obtain ⟨n, hn, -⟩ := hp.sibling_eq
  exact ⟨_, n, hprove, hp, hn, signals_eq he hprove hp hn, isConsistent_of_provesEntry he hp hn⟩

/-! ## Evidence -/

/-- A name of no entry has no evidence. -/
theorem evidence_eq_error (h : ∀ e ∈ r.entries, e.name.text ≠ name) (withSignals : Bool) :
    r.evidence name withSignals = .error (.entryNotFound name) := by
  cases withSignals with
  | false =>
    simp only [evidence, prove_eq_error h]
    rfl
  | true =>
    simp only [evidence, signals_eq_error h]
    rfl

/-- The index of a proof is a word if the leaves are counted by words. -/
theorem ProvesEntry.index_lt_word (hp : ProvesEntry r e p) (h : r.size ≤ 2 ^ 63) :
    p.index < 2 ^ 64 := by
  have hdepth : r.depth ≤ 64 := by
    rw [depth_eq_clog]
    exact Nat.clog_le_of_le_pow (by omega)
  exact hp.index_lt.trans_le (Nat.pow_le_pow_right Nat.two_pos (hp.length_le.trans hdepth))

/-- **Every entry has valid evidence**, with signals and without, and it is for the entry's name. -/
theorem evidence_complete (he : e ∈ r.entries) (withSignals : Bool) :
    ∃ ev, r.evidence e.name.text withSignals = .ok ev ∧ ev.isValid = true
      ∧ ev.nameHash = textDigest e.name.text
      ∧ (r.size ≤ 2 ^ 63 → ev.membership.index < 2 ^ 64) := by
  obtain ⟨p, n, hprove, hp, -, hsignals, hconsistent⟩ := signals_complete he
  have hleaf := hp.leaf_eq
  have hindex := hp.index_lt_word
  -- the hash is a number from here on, so that nothing evaluates it
  obtain ⟨nameHash, hname⟩ : ∃ h, textDigest e.name.text = h := ⟨_, rfl⟩
  rw [hname] at hleaf hsignals hconsistent ⊢
  cases withSignals with
  | false =>
    refine ⟨.proof p, ?_, hp.verify_eq, hleaf, hindex⟩
    simp only [evidence, hprove]
    rfl
  | true =>
    refine ⟨.signals ⟨p, nameHash, n, e.value.circuitSignal⟩, ?_, hconsistent, rfl, hindex⟩
    simp only [evidence, hsignals]
    rfl

end Record

end ProvableRecord
