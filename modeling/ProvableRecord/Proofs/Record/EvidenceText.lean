import ProvableRecord.Proofs.Json.Decoder
import ProvableRecord.Proofs.Record.Soundness

/-!
# Evidence is read back

The numbers of a proof travel as decimal texts, one alone, one that may be missing, and a list of
them.  Each of the three is read back (`Decimal.reads_toJson`, `Decimal.reads_optional`,
`Decimal.reads_list`), and so is the index as long as it fits a word.

A proof or signals have two JSON forms: written field by field, the members stand in the order of
the fields, and a tree holds them in order of key (`ordered_fieldJson`).  The decoder takes the
fields from either (`reads_fieldJson`, `reads_toJson`), so the texts of both forms are read back,
straight or through a tree (`read_of_hasText`).  As a bare proof has no member `proof` and signals
have one that is an object, the texts are also told apart (`Evidence.ofText_of_hasText`).
-/

namespace ProvableRecord

open Json

namespace Decimal

theorem parse_ofNat (n : ℕ) : parse (ofNat n) = .ok n := by
  rw [parse, parse?_ofNat]

theorem reads_toJson (n : ℕ) : decoder.Reads (toJson n) n :=
  (Decoder.reads_text (ofNat n)).refine (parse_ofNat n)

theorem reads_optional (n : ℕ) : optionalDecoder.Reads (toJson n) (some n) := by
  refine (Decoder.reads_optional_text (ofNat n)).refine ?_
  simp only [parse_ofNat]
  rfl

theorem reads_list (ns : List ℕ) : listDecoder.Reads (.array (ns.map toJson)) ns := by
  have htexts : ns.map toJson = (ns.map ofNat).map Json.string := by rw [List.map_map]; rfl
  have hparse : (ns.map ofNat).mapM parse = .ok ns :=
    Except.mapM_map_eq_ok fun n _ => parse_ofNat n
  have hplain : ∀ s ∈ ns.map ofNat, Plain 0 (.string s) := fun s _ => .string s
  rw [htexts]
  exact (Decoder.reads_list hplain fun s _ => Decoder.reads_text s).refine hparse

end Decimal

/-- A list of strings has no depth of its own. -/
theorem plain_decimals (ns : List ℕ) (depth : ℕ) :
    Plain (depth + 1) (.array (ns.map Decimal.toJson)) := by
  refine .array fun v hv => ?_
  obtain ⟨n, -, rfl⟩ := List.mem_map.mp hv
  exact .string _

theorem ordered_decimals (ns : List ℕ) :
    (Json.array (ns.map Decimal.toJson)).ordered = .array (ns.map Decimal.toJson) := by
  rw [ordered, orderedItems_eq_self]
  intro v hv
  obtain ⟨n, -, rfl⟩ := List.mem_map.mp hv
  rfl

namespace Merkle.Proof

variable {p : Proof}

theorem toJson_eq (p : Proof) : p.toJson = .object
    [("index", .ofUInt64 (.ofNat p.index)), ("leaf", Decimal.toJson p.leaf),
     ("root", Decimal.toJson p.root), ("siblings", .array (p.siblings.map Decimal.toJson))] := by
  simp +decide only [toJson, ofMembers, List.foldl_cons, List.foldl_nil, insertMember, if_true,
    if_false]

theorem ordered_fieldJson (p : Proof) : p.fieldJson.ordered = p.toJson := by
  rw [fieldJson, ordered, orderedMembers_eq_self]
  · rfl
  · intro m hm
    simp only [List.mem_cons, List.not_mem_nil, or_false] at hm
    rcases hm with rfl | rfl | rfl | rfl
    · rfl
    · rfl
    · rfl
    · exact ordered_decimals _

theorem plain_fieldJson (p : Proof) (depth : ℕ) : Plain (depth + 2) p.fieldJson := by
  refine .object fun m hm => ?_
  simp only [List.mem_cons, List.not_mem_nil, or_false] at hm
  rcases hm with rfl | rfl | rfl | rfl
  · exact .string _
  · exact .string _
  · exact .integer _ _
  · exact plain_decimals _ _

/-- What reading each field of a proof does. -/
theorem reads_fields (h : p.index < 2 ^ 64) :
    (Decimal.decoder.map fun n (q : Parts) => { q with root := some n }).Reads
        (Decimal.toJson p.root) (fun q => { q with root := some p.root })
      ∧ (Decimal.decoder.map fun n (q : Parts) => { q with leaf := some n }).Reads
        (Decimal.toJson p.leaf) (fun q => { q with leaf := some p.leaf })
      ∧ (Decoder.map (ε := NotDecimal) Decoder.word
          fun w (q : Parts) => { q with index := some w.toNat }).Reads
        (.ofUInt64 (.ofNat p.index)) (fun q => { q with index := some p.index })
      ∧ (Decimal.listDecoder.map fun ns (q : Parts) => { q with siblings := some ns }).Reads
        (.array (p.siblings.map Decimal.toJson))
        (fun q => { q with siblings := some p.siblings }) := by
  have hindex : (UInt64.ofNat p.index).toNat = p.index := UInt64.toNat_ofNat_of_lt h
  have hword := (Decoder.reads_word (ε := NotDecimal) (.ofNat p.index)).map
    fun w (q : Parts) => { q with index := some w.toNat }
  rw [hindex] at hword
  exact ⟨(Decimal.reads_toJson _).map _, (Decimal.reads_toJson _).map _, hword,
    (Decimal.reads_list _).map _⟩

/-- A proof is read from its members in the order of the fields. -/
theorem reads_fieldJson (h : p.index < 2 ^ 64) : decoder.Reads p.fieldJson p := by
  obtain ⟨hroot, hleaf, hindex, hsiblings⟩ := reads_fields h
  exact Schema.reads (.cons rfl rfl hroot (.cons rfl rfl hleaf (.cons rfl rfl hindex
    (.cons rfl rfl hsiblings .nil)))) rfl

/-- A proof is read from its members in order of key. -/
theorem reads_toJson (h : p.index < 2 ^ 64) : decoder.Reads p.toJson p := by
  obtain ⟨hroot, hleaf, hindex, hsiblings⟩ := reads_fields h
  rw [toJson_eq]
  exact Schema.reads (.cons rfl rfl hindex (.cons rfl rfl hleaf (.cons rfl rfl hroot
    (.cons rfl rfl hsiblings .nil)))) rfl

/-- The texts of a proof show it. -/
theorem hasText_texts (p : Proof) : p.fieldJson.HasText p.toText
    ∧ p.fieldJson.HasText p.toJson.text ∧ p.fieldJson.HasText p.toJson.prettyText := by
  obtain ⟨hcompact, hpretty, -⟩ := HasText.texts (.inr p.ordered_fieldJson.symm)
  exact ⟨(HasText.texts (.inl rfl)).1, hcompact, hpretty⟩

/-- **A proof is read from every text that shows it.** -/
theorem read_of_hasText (h : p.index < 2 ^ 64) {text : String} (ht : p.fieldJson.HasText text) :
    decoder.readText text = .ok p ∧ decoder.readTree text = .ok p := by
  have hreads := reads_toJson h
  rw [← p.ordered_fieldJson] at hreads
  exact (reads_fieldJson h).of_hasText hreads (p.plain_fieldJson 125) ht

end Merkle.Proof

namespace Signals

variable {s : Signals}

theorem toJson_eq_of_none (h : s.value = none) : s.toJson = .object
    [("nameHash", Decimal.toJson s.nameHash), ("proof", s.proof.toJson),
     ("valueHash", Decimal.toJson s.valueHash)] := by
  simp +decide only [toJson, h, Option.map_none, Option.toList_none, List.append_nil, ofMembers,
    List.foldl_cons, List.foldl_nil, insertMember, if_true, if_false]

theorem toJson_eq_of_some {n : ℕ} (h : s.value = some n) : s.toJson = .object
    [("nameHash", Decimal.toJson s.nameHash), ("proof", s.proof.toJson),
     ("value", Decimal.toJson n), ("valueHash", Decimal.toJson s.valueHash)] := by
  simp +decide only [toJson, h, Option.map_some, Option.toList_some, List.cons_append,
    List.nil_append, ofMembers, List.foldl_cons, List.foldl_nil, insertMember, if_true, if_false]

theorem ordered_fieldJson (s : Signals) : s.fieldJson.ordered = s.toJson := by
  cases hvalue : s.value <;>
    simp only [fieldJson, toJson, hvalue, Option.map_none, Option.toList_none, List.append_nil,
      Option.map_some, Option.toList_some, List.cons_append, List.nil_append, ordered,
      orderedMembers, Merkle.Proof.ordered_fieldJson, Decimal.toJson]

theorem plain_fieldJson (s : Signals) (depth : ℕ) : Plain (depth + 3) s.fieldJson := by
  refine .object fun m hm => ?_
  simp only [List.mem_append, List.mem_cons, List.not_mem_nil, or_false, Option.mem_toList,
    Option.map_eq_some_iff] at hm
  rcases hm with (rfl | rfl | rfl) | ⟨n, -, rfl⟩
  · exact s.proof.plain_fieldJson depth
  · exact .string _
  · exact .string _
  · exact .string _

/-- What reading a proof and a hash of signals does. -/
theorem reads_fields {proof : Json} (h : Merkle.Proof.decoder.Reads proof s.proof) :
    (Merkle.Proof.decoder.map fun v (q : Parts) => { q with proof := some v }).Reads proof
        (fun q => { q with proof := some s.proof })
      ∧ (Decimal.decoder.map fun n (q : Parts) => { q with nameHash := some n }).Reads
        (Decimal.toJson s.nameHash) (fun q => { q with nameHash := some s.nameHash })
      ∧ (Decimal.decoder.map fun n (q : Parts) => { q with valueHash := some n }).Reads
        (Decimal.toJson s.valueHash) (fun q => { q with valueHash := some s.valueHash })
      ∧ ∀ n, (Decimal.optionalDecoder.map fun n (q : Parts) => { q with value := some n }).Reads
        (Decimal.toJson n) (fun q => { q with value := some (some n) }) :=
  ⟨h.map _, (Decimal.reads_toJson _).map _, (Decimal.reads_toJson _).map _,
    fun n => (Decimal.reads_optional n).map _⟩

/-- Signals are read from their members in the order of the fields. -/
theorem reads_fieldJson (h : s.proof.index < 2 ^ 64) : decoder.Reads s.fieldJson s := by
  obtain ⟨hproof, hname, hhash, hvalue⟩ := reads_fields (Merkle.Proof.reads_fieldJson h)
  obtain ⟨proof, nameHash, valueHash, _ | n⟩ := s
  · exact Schema.reads (.cons rfl rfl hproof (.cons rfl rfl hname (.cons rfl rfl hhash .nil))) rfl
  · exact Schema.reads (.cons rfl rfl hproof (.cons rfl rfl hname (.cons rfl rfl hhash
      (.cons rfl rfl (hvalue n) .nil)))) rfl

/-- Signals are read from their members in order of key. -/
theorem reads_toJson (h : s.proof.index < 2 ^ 64) : decoder.Reads s.toJson s := by
  obtain ⟨hproof, hname, hhash, hvalue⟩ := reads_fields (Merkle.Proof.reads_toJson h)
  obtain ⟨proof, nameHash, valueHash, _ | n⟩ := s
  · rw [toJson_eq_of_none rfl]
    exact Schema.reads (.cons rfl rfl hname (.cons rfl rfl hproof (.cons rfl rfl hhash .nil))) rfl
  · rw [toJson_eq_of_some rfl]
    exact Schema.reads (.cons rfl rfl hname (.cons rfl rfl hproof (.cons rfl rfl (hvalue n)
      (.cons rfl rfl hhash .nil)))) rfl

/-- The texts of signals show them. -/
theorem hasText_texts (s : Signals) : s.fieldJson.HasText s.toText
    ∧ s.fieldJson.HasText s.toJson.text ∧ s.fieldJson.HasText s.toJson.prettyText := by
  obtain ⟨hcompact, hpretty, -⟩ := HasText.texts (.inr s.ordered_fieldJson.symm)
  exact ⟨(HasText.texts (.inl rfl)).1, hcompact, hpretty⟩

/-- **Signals are read from every text that shows them.** -/
theorem read_of_hasText (h : s.proof.index < 2 ^ 64) {text : String}
    (ht : s.fieldJson.HasText text) :
    decoder.readText text = .ok s ∧ decoder.readTree text = .ok s := by
  have hreads := reads_toJson h
  rw [← s.ordered_fieldJson] at hreads
  exact (reads_fieldJson h).of_hasText hreads (s.plain_fieldJson 124) ht

end Signals

namespace Evidence

/-- Evidence as it is written field by field. -/
def fieldJson : Evidence → Json
  | proof p => p.fieldJson
  | signals s => s.fieldJson

theorem ordered_fieldJson (ev : Evidence) : ev.fieldJson.ordered = ev.toJson := by
  cases ev with
  | proof p => exact p.ordered_fieldJson
  | signals s => exact s.ordered_fieldJson

theorem plain_fieldJson (ev : Evidence) : Plain maxDepth ev.fieldJson := by
  cases ev with
  | proof p => exact p.plain_fieldJson 125
  | signals s => exact s.plain_fieldJson 124

/-- **Evidence is told apart and read back** from every text that shows it. -/
theorem ofText_of_hasText {ev : Evidence} (h : ev.membership.index < 2 ^ 64) {text : String}
    (ht : ev.fieldJson.HasText text) : ofText text = .ok ev := by
  have hread : read? text = some ev.toJson := by
    rw [ht.read? ev.plain_fieldJson, ev.ordered_fieldJson]
  rw [ofText, hread]
  cases ev with
  | proof p =>
    have hmember : p.toJson.member? "proof" = none := by
      rw [p.toJson_eq]
      rfl
    simp only [toJson, ofJson, hmember, (Merkle.Proof.reads_toJson (p := p) h).fromValue]
    rfl
  | signals s =>
    have hmember : s.toJson.member? "proof" = some s.proof.toJson := by
      cases hvalue : s.value with
      | none =>
        rw [Signals.toJson_eq_of_none hvalue]
        rfl
      | some n =>
        rw [Signals.toJson_eq_of_some hvalue]
        rfl
    simp only [toJson, ofJson, hmember, (Signals.reads_toJson (s := s) h).fromValue]
    rfl

/-- **Every proof and all signals are read back**, whatever their numbers, from every text that
shows them, straight and through a tree, so the checks give the same answers as before. -/
theorem readBack :
    (∀ p : Merkle.Proof, p.index < 2 ^ 64 →
      Merkle.Proof.decoder.fromValue p.toJson = .ok p
      ∧ (p.fieldJson.HasText p.toText ∧ p.fieldJson.HasText p.toJson.text
        ∧ p.fieldJson.HasText p.toJson.prettyText)
      ∧ ∀ text, p.fieldJson.HasText text →
        Merkle.Proof.decoder.readText text = .ok p ∧ Merkle.Proof.decoder.readTree text = .ok p
        ∧ (Merkle.Proof.decoder.readText text).map Merkle.Proof.verify = .ok p.verify
        ∧ (Merkle.Proof.decoder.readTree text).map Merkle.Proof.verify = .ok p.verify)
    ∧ ∀ s : Signals, s.proof.index < 2 ^ 64 →
      Signals.decoder.fromValue s.toJson = .ok s
      ∧ (s.fieldJson.HasText s.toText ∧ s.fieldJson.HasText s.toJson.text
        ∧ s.fieldJson.HasText s.toJson.prettyText)
      ∧ ∀ text, s.fieldJson.HasText text →
        Signals.decoder.readText text = .ok s ∧ Signals.decoder.readTree text = .ok s
        ∧ (Signals.decoder.readText text).map Signals.isConsistent = .ok s.isConsistent
        ∧ (Signals.decoder.readTree text).map Signals.isConsistent = .ok s.isConsistent := by
  constructor
  · intro p h
    refine ⟨(Merkle.Proof.reads_toJson h).fromValue, p.hasText_texts, ?_⟩
    intro text ht
    obtain ⟨hstraight, htree⟩ := Merkle.Proof.read_of_hasText h ht
    rw [hstraight, htree]
    exact ⟨rfl, rfl, rfl, rfl⟩
  · intro s h
    refine ⟨(Signals.reads_toJson h).fromValue, s.hasText_texts, ?_⟩
    intro text ht
    obtain ⟨hstraight, htree⟩ := Signals.read_of_hasText h ht
    rw [hstraight, htree]
    exact ⟨rfl, rfl, rfl, rfl⟩

/-- The largest index, numbers beyond the field and no number of a value. -/
theorem readBack_largest :
    let p : Merkle.Proof := ⟨fieldModulus, 0, 2 ^ 64 - 1, [10 ^ 100]⟩
    let s : Signals := ⟨p, 7, fieldModulus + 1, none⟩
    p.index < 2 ^ 64 ∧ p.fieldJson.HasText p.toText
      ∧ Merkle.Proof.decoder.readText p.toText = .ok p
      ∧ Merkle.Proof.decoder.readTree p.toText = .ok p
      ∧ s.fieldJson.HasText s.toText ∧ Signals.decoder.readText s.toText = .ok s
      ∧ Signals.decoder.readTree s.toText = .ok s := by
  intro p s
  have hindex : p.index < 2 ^ 64 := by decide
  obtain ⟨hproofs, hsignals⟩ := readBack
  obtain ⟨-, ⟨hp, -⟩, hread⟩ := hproofs p hindex
  obtain ⟨-, ⟨hs, -⟩, hread'⟩ := hsignals s hindex
  obtain ⟨hstraight, htree, -⟩ := hread _ hp
  obtain ⟨hstraight', htree', -⟩ := hread' _ hs
  exact ⟨hindex, hp, hstraight, htree, hs, hstraight', htree'⟩

end Evidence

end ProvableRecord
