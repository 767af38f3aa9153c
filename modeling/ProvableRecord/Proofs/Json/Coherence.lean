import ProvableRecord.Json.Decoder
import ProvableRecord.Proofs.Except
import ProvableRecord.Proofs.Json.Fuel

/-!
# Typed data and trees agree

Typed data may be read straight from a text, while another reader makes a JSON value of the same
text first.  A decoder is coherent (`Decoder.Coherent`) if whatever it reads from a text, a reader
of values takes off the front of that text too, and the decoder reads the same from the value.

A record that refuses fields of other names reads each member of an object with the decoder of its
field, so it is never ahead of the tree: the tree has the members that the record read, in the order
of the text and repeated keys included, and adding them one by one gives the record
(`Schema.exists_readMembers`, `Schema.read?_of_readText`).
-/

namespace ProvableRecord

open Json

variable {ε α β δ : Type}

namespace Decoder

variable {depth : ℕ}

/-- What the decoder reads from a text is there as a value, in which `depth` arrays and objects may
be open at once, and is read from that value. -/
def Coherent (d : Decoder ε α) (depth : ℕ) : Prop :=
  ∀ ⦃s rest : List Char⦄ ⦃a : α⦄, d.fromText s = .ok (a, rest) →
    ∃ v, readValue (fuelFor s) depth s = some (v, rest) ∧ d.fromValue v = .ok a

theorem coherent_value (opened : ℕ) :
    (value opened : Decoder ε Json).Coherent (maxDepth - opened) := by
  intro s rest v h
  simp only [value] at h
  split at h
  · next hread =>
    cases h
    exact ⟨v, hread, rfl⟩
  · cases h

theorem coherent_text : (text : Decoder ε String).Coherent depth := by
  intro s rest str h
  simp only [text] at h
  split at h
  · next s' hs =>
    split at h
    · next hread =>
      cases h
      have hlt := length_lt_of_skipBlanks hs
      have hchars : readString (2 * s.length + 1) s' = some (str, rest) :=
        readString_of_le hread (by rw [fuelFor]; omega)
      refine ⟨.string str, ?_, rfl⟩
      exact readValue_succ_iff.mpr (hs ▸ .string hchars)
    · cases h
  · cases h

theorem Coherent.map {d : Decoder ε α} (h : d.Coherent depth) (f : α → β) :
    (d.map f).Coherent depth := by
  intro s rest b hread
  obtain ⟨⟨a, rest'⟩, ha, hb⟩ := Except.map_eq_ok_iff.mp hread
  cases hb
  obtain ⟨v, hv, hvalue⟩ := h ha
  exact ⟨v, hv, Except.map_eq_ok_iff.mpr ⟨a, hvalue, rfl⟩⟩

/-- The text that is left after a coherent reading is an end of the text. -/
theorem Coherent.suffix {d : Decoder ε α} (h : d.Coherent depth) {s rest : List Char} {a : α}
    (hread : d.fromText s = .ok (a, rest)) : rest <:+ s := by
  obtain ⟨v, hv, -⟩ := h hread
  exact suffix_of_readValue hv

end Decoder

namespace Schema

variable {r : Schema ε δ α} {depth : ℕ} {s rest : List Char} {parts parts' : δ} {a : α}

/-! ## Members -/

/-- A record that refuses other fields has a field for each member that it reads. -/
theorem exists_field_of_memberFromText (hclosed : r.closed = true) {key : String}
    (h : r.memberFromText parts key s = .ok (parts', rest)) :
    ∃ field s' set, r.field? key = some field ∧ field.isSet parts = false
      ∧ skipBlanks s = ':' :: s' ∧ field.decoder.fromText s' = .ok (set, rest)
      ∧ parts' = set parts := by
  unfold memberFromText at h
  dsimp only at h
  split at h
  · next field hfound =>
    split at h
    · cases h
    · next hset =>
      obtain ⟨field', heq, h⟩ := Except.bind_eq_ok_iff.mp h
      cases heq
      dsimp only at h
      split at h
      · next s' hs =>
        obtain ⟨⟨set, rest'⟩, hread, h⟩ := Except.bind_eq_ok_iff.mp h
        cases h
        exact ⟨field, s', set, hfound, Bool.eq_false_iff.mpr hset, hs, hread, rfl⟩
      · cases h
  · rw [if_pos hclosed] at h
    cases h

/-- The members of a record are a key and its value, and then the closing brace or more members. -/
theorem membersFromText_succ_eq_ok {n : ℕ} (h : r.membersFromText (n + 1) parts s = .ok (a, rest)) :
    ∃ s₁ key s₂ parts' s', skipBlanks s = '"' :: s₁ ∧ readString (fuelFor s₁) s₁ = some (key, s₂)
      ∧ r.memberFromText parts key s₂ = .ok (parts', s')
      ∧ (skipBlanks s' = '\x7d' :: rest ∧ r.finish parts' = .ok a
        ∨ ∃ s'', skipBlanks s' = ',' :: s'' ∧ r.membersFromText n parts' s'' = .ok (a, rest)) := by
  rw [membersFromText] at h
  split at h
  case h_2 => cases h
  next s₁ hs =>
  split at h
  case h_2 => cases h
  next key s₂ hkey =>
  obtain ⟨⟨parts', s'⟩, hmember, h⟩ := Except.bind_eq_ok_iff.mp h
  refine ⟨s₁, key, s₂, parts', s', hs, hkey, hmember, ?_⟩
  dsimp only at h
  split at h
  · next hs' =>
    obtain ⟨a', ha, h⟩ := Except.bind_eq_ok_iff.mp h
    cases h
    exact .inl ⟨hs', ha⟩
  · next s'' hs' => exact .inr ⟨s'', hs', h⟩
  · cases h

/-- A record that refuses other fields has a field for each member that is added to it. -/
theorem addMember_eq_ok_iff (hclosed : r.closed = true) {key : String} {v : Json} :
    r.addMember parts (key, v) = .ok parts' ↔ ∃ field set, r.field? key = some field
      ∧ field.isSet parts = false ∧ field.decoder.fromValue v = .ok set ∧ parts' = set parts := by
  unfold addMember
  constructor
  · intro h
    split at h
    · next field hfound =>
      split at h
      · cases h
      · next hset =>
        obtain ⟨set, hread, hparts⟩ := Except.map_eq_ok_iff.mp h
        exact ⟨field, set, hfound, Bool.eq_false_iff.mpr hset, hread, hparts.symm⟩
    · rw [if_pos hclosed] at h
      cases h
  · rintro ⟨field, set, hfound, hset, hread, rfl⟩
    simp only [hfound, hset, hread]
    rfl

/-- **The members that a record reads are the members of the tree**, and added to the parts before
them they give the record. -/
theorem exists_readMembers (hclosed : r.closed = true)
    (hfields : ∀ field ∈ r.fields, field.decoder.Coherent depth) {n fuel : ℕ}
    (hfuel : 2 * s.length < fuel) (h : r.membersFromText n parts s = .ok (a, rest)) :
    ∃ ms, readMembers fuel depth s = some (ms, rest)
      ∧ (ms.foldlM r.addMember parts >>= r.finish) = .ok a := by
  -- a reader with fuel for twice the text has fuel for a key, for its value and for what follows
  induction n generalizing parts s fuel with
  | zero => cases h
  | succ n ih =>
    obtain ⟨fuel, rfl⟩ : ∃ fuel', fuel = fuel' + 1 := ⟨fuel - 1, by omega⟩
    obtain ⟨s₁, key, s₂, parts', s', hs, hkey, hmember, hend⟩ := membersFromText_succ_eq_ok h
    obtain ⟨field, s₃, set, hfound, hset, hs₂, hread, rfl⟩ :=
      exists_field_of_memberFromText hclosed hmember
    have hcoherent := hfields field (List.mem_of_find?_eq_some hfound)
    obtain ⟨v, hv, hvalue⟩ := hcoherent hread
    have hadd : r.addMember parts (key, v) = .ok (set parts) :=
      (addMember_eq_ok_iff hclosed).mpr ⟨field, set, hfound, hset, hvalue, rfl⟩
    have hlt₁ := length_lt_of_skipBlanks hs
    have hle₂ := (suffix_of_readString hkey).length_le
    have hlt₃ := length_lt_of_skipBlanks hs₂
    have hle' := (hcoherent.suffix hread).length_le
    have hkey' : readString fuel s₁ = some (key, s₂) :=
      readString_of_le hkey (by rw [fuelFor]; omega)
    have hv' : readValue fuel depth s₃ = some (v, s') :=
      readValue_of_le hv (by rw [fuelFor]; omega)
    rcases hend with ⟨hbrace, hfinish⟩ | ⟨s'', hcomma, hmore⟩
    · refine ⟨[(key, v)], readMembers_succ_iff.mpr (.last hs hkey' hs₂ hv' hbrace), ?_⟩
      rw [List.foldlM_cons, hadd]
      exact hfinish
    · have hlt'' := length_lt_of_skipBlanks hcomma
      have hfuel' : 2 * s''.length < fuel := by omega
      obtain ⟨ms, hms, hrecord⟩ := ih hfuel' hmore
      refine ⟨(key, v) :: ms, readMembers_succ_iff.mpr (.more hs hkey' hs₂ hv' hcomma hms), ?_⟩
      rw [List.foldlM_cons, hadd]
      exact hrecord

/-! ## Texts -/

/-- What a record reads from an object is an object for a reader of values. -/
theorem exists_readValue (hclosed : r.closed = true)
    (hfields : ∀ field ∈ r.fields, field.decoder.Coherent depth) {t : List Char}
    (hs : skipBlanks s = '\x7b' :: t) (h : r.fromText s = .ok (a, rest)) :
    ∃ ms, readValue (fuelFor s) (depth + 1) s = some (ofMembers ms, rest)
      ∧ (ms.foldlM r.addMember r.start >>= r.finish) = .ok a := by
  have hlt := length_lt_of_skipBlanks hs
  have hle := (skipBlanks_suffix t).length_le
  simp only [fromText, hs] at h
  split at h
  · next hbrace =>
    obtain ⟨a', ha, h⟩ := Except.bind_eq_ok_iff.mp h
    cases h
    exact ⟨[], readValue_succ_iff.mpr (hs ▸ .emptyObject hbrace), ha⟩
  · next hne =>
    have hfuel : 2 * (skipBlanks t).length < 2 * s.length + 1 := by omega
    obtain ⟨ms, hms, hrecord⟩ := exists_readMembers hclosed hfields hfuel h
    exact ⟨ms, readValue_succ_iff.mpr (hs ▸ .object hne hms), hrecord⟩

/-- **A text that a record reads from an object is JSON**, and the record has the members that the
text has. -/
theorem read?_of_readText (hclosed : r.closed = true)
    (hfields : ∀ field ∈ r.fields, field.decoder.Coherent (maxDepth - 1)) {text : String}
    (hobject : OpensObject text) (h : r.decoder.readText text = .ok a) :
    ∃ ms, Json.read? text = some (ofMembers ms)
      ∧ (ms.foldlM r.addMember r.start >>= r.finish) = .ok a := by
  obtain ⟨t, ht⟩ := hobject
  obtain ⟨⟨a', rest⟩, hread, h⟩ := Except.bind_eq_ok_iff.mp h
  dsimp only at h
  split at h
  · next hrest =>
    cases h
    obtain ⟨ms, hms, hrecord⟩ := exists_readValue hclosed hfields ht hread
    refine ⟨ms, ?_, hrecord⟩
    have hms : readValue (fuelFor text.toList) maxDepth text.toList = some (ofMembers ms, rest) :=
      hms
    simp only [Json.read?, hms, if_pos hrest]
  · cases h

end Schema

end ProvableRecord
