import ProvableRecord.Proofs.Json.Coherence
import ProvableRecord.Proofs.Json.Ordered
import ProvableRecord.Record.Document

/-!
# A document is what it reads as

A document is told apart by its tree, in which of the members with one key the last counts, and is
then read by a reader that goes over the text once more.  The two agree for every text of an object.
What reads as a signed record has members of its three fields only, a member `signature` among them,
and every such member is a string (`Document.isSigned_of_signed`).  What reads as the entries of a
record has an object for each member, so none of them is a string
(`Document.not_isSigned_of_unsigned`).  So no text reads as both, and each is read as what it is
(`Document.ofText_eq_signed_iff`, `Document.ofText_eq_unsigned_iff`).
-/

namespace ProvableRecord

open Json

/-! ## Signed records -/

namespace SignedRecord

variable {parts parts' : Parts}

theorem coherent_fields :
    ∀ field ∈ schema.fields, field.decoder.Coherent (maxDepth - 1) := by
  intro field hfield
  simp only [schema, List.mem_cons, List.not_mem_nil, or_false] at hfield
  rcases hfield with rfl | rfl | rfl <;> dsimp only
  · exact (Decoder.coherent_value 1).map _
  · exact Decoder.coherent_text.map _
  · exact Decoder.coherent_text.map _

/-- A member `signature` is a string, and no other member is the signature. -/
theorem signature_of_addMember {key : String} {v : Json}
    (h : schema.addMember parts (key, v) = .ok parts') :
    (key = "signature" ∧ ∃ str, v = .string str)
      ∨ (key ≠ "signature" ∧ parts'.signature = parts.signature) := by
  obtain ⟨field, set, hfound, -, hread, rfl⟩ := (Schema.addMember_eq_ok_iff rfl).mp h
  have hfield := List.mem_of_find?_eq_some hfound
  have hname : field.name = key := by
    have hfind := List.find?_some hfound
    exact of_decide_eq_true hfind
  simp only [schema, List.mem_cons, List.not_mem_nil, or_false] at hfield
  rcases hfield with rfl | rfl | rfl <;> dsimp only [Decoder.map] at hread hname
  · obtain ⟨a, -, rfl⟩ := Except.map_eq_ok_iff.mp hread
    exact .inr ⟨hname ▸ by decide, rfl⟩
  · obtain ⟨str, hstr, rfl⟩ := Except.map_eq_ok_iff.mp hread
    refine .inl ⟨hname.symm, ?_⟩
    cases v with
    | string s => exact ⟨s, rfl⟩
    | _ => cases hstr
  · obtain ⟨a, -, rfl⟩ := Except.map_eq_ok_iff.mp hread
    exact .inr ⟨hname ▸ by decide, rfl⟩

/-- Members of a signed record that are named `signature` are strings, and without such a member the
signature stays what it was. -/
theorem signature_of_foldlM {ms : List (String × Json)}
    (h : ms.foldlM schema.addMember parts = .ok parts') :
    (∀ v, ("signature", v) ∈ ms → ∃ str, v = .string str)
      ∧ ((∀ m ∈ ms, m.1 ≠ "signature") → parts'.signature = parts.signature) := by
  induction ms generalizing parts with
  | nil =>
    cases h
    exact ⟨nofun, fun _ => rfl⟩
  | cons m ms ih =>
    rw [List.foldlM_cons] at h
    obtain ⟨next, hnext, h⟩ := Except.bind_eq_ok_iff.mp h
    obtain ⟨hstrings, hkept⟩ := ih h
    obtain ⟨key, v⟩ := m
    constructor
    · intro v' hv'
      rcases List.mem_cons.mp hv' with heq | hv'
      · cases heq
        rcases signature_of_addMember hnext with ⟨-, hstr⟩ | ⟨hne, -⟩
        · exact hstr
        · exact absurd rfl hne
      · exact hstrings v' hv'
    · intro hnone
      obtain ⟨hkey, hrest⟩ := List.forall_mem_cons.mp hnone
      rcases signature_of_addMember hnext with ⟨heq, -⟩ | ⟨-, hsame⟩
      · exact absurd heq hkey
      · exact (hkept hrest).trans hsame

end SignedRecord

/-! ## Entries -/

/-- The value of an entry is not given as a string. -/
theorem Entry.ne_string_of_ofMember {m : String × Json} {e : Entry} (h : ofMember m = .ok e)
    (str : String) : m.2 ≠ .string str := by
  intro heq
  obtain ⟨name, -, h⟩ := Except.bind_eq_ok_iff.mp h
  obtain ⟨value, hvalue, -⟩ := Except.bind_eq_ok_iff.mp h
  rw [heq] at hvalue
  cases hvalue

/-! ## Documents -/

namespace Document

variable {text : String} {s : SignedRecord} {r : Record}

/-- A value is told apart as signed by a member `signature` that is a string. -/
theorem isSigned_iff {v : Json} :
    isSigned v = true ↔ ∃ str, v.member? "signature" = some (.string str) := by
  rw [isSigned, Option.isSome_iff_exists]
  constructor
  · rintro ⟨str, hstr⟩
    obtain ⟨u, hu, hstring⟩ := Option.bind_eq_some_iff.mp hstr
    cases u with
    | string str' => exact ⟨str', hu⟩
    | _ => cases hstring
  · rintro ⟨str, hstr⟩
    exact ⟨str, by rw [hstr]; rfl⟩

/-- **A text of an object that reads as a signed record** is told apart as one. -/
theorem isSigned_of_signed (hobject : OpensObject text) (h : SignedRecord.ofText text = .ok s) :
    ∃ v, Json.read? text = some v ∧ isSigned v = true := by
  obtain ⟨fields, hfields, -⟩ := Except.bind_eq_ok_iff.mp h
  obtain ⟨ms, hread, hparts⟩ := Schema.read?_of_readText rfl SignedRecord.coherent_fields hobject
    (Except.mapError_eq_ok_iff.mp hfields)
  obtain ⟨parts, hms, hfinish⟩ := Except.bind_eq_ok_iff.mp hparts
  obtain ⟨hstrings, hkept⟩ := SignedRecord.signature_of_foldlM hms
  have hmember : ∃ m ∈ ms, m.1 = "signature" := by
    by_contra hnone
    have hmissing : parts.signature = none := hkept fun m hm heq => hnone ⟨m, hm, heq⟩
    simp [Schema.finish, SignedRecord.schema, SignedRecord.Parts.complete, hmissing] at hfinish
  obtain ⟨v, hv, hfound⟩ := exists_member?_ofMembers hmember
  obtain ⟨str, rfl⟩ := hstrings v hv
  exact ⟨_, hread, isSigned_iff.mpr ⟨str, hfound⟩⟩

/-- **A text that reads as the entries of a record** is not told apart as signed. -/
theorem not_isSigned_of_unsigned (h : Record.ofText text = .ok r) :
    ∃ v, Json.read? text = some v ∧ isSigned v = false := by
  obtain ⟨es, hes, -⟩ := Except.bind_eq_ok_iff.mp h
  unfold Entry.listOfText at hes
  split at hes
  case h_2 => cases hes
  next v hread =>
  refine ⟨v, hread, Bool.eq_false_iff.mpr fun hsigned => ?_⟩
  obtain ⟨str, hstr⟩ := isSigned_iff.mp hsigned
  cases v with
  | object members =>
    obtain ⟨m, hm, hstring⟩ := Option.map_eq_some_iff.mp hstr
    obtain ⟨e, -, he⟩ := Except.exists_eq_ok_of_mapM hes (List.mem_of_find?_eq_some hm)
    exact Entry.ne_string_of_ofMember he str hstring
  | _ => cases hes

/-- No text of an object reads both as a signed record and as the entries of one. -/
theorem not_signed_and_unsigned (hobject : OpensObject text) :
    ¬ ((∃ s, SignedRecord.ofText text = .ok s) ∧ ∃ r, Record.ofText text = .ok r) := by
  rintro ⟨⟨s, hs⟩, r, hr⟩
  obtain ⟨v, hv, hsigned⟩ := isSigned_of_signed hobject hs
  obtain ⟨v', hv', hunsigned⟩ := not_isSigned_of_unsigned hr
  obtain rfl : v = v' := Option.some.inj (hv.symm.trans hv')
  exact Bool.false_ne_true (hunsigned.symm.trans hsigned)

/-- What a document is, its text reads as. -/
theorem reads_of_ofText {d : Document} (h : ofText text = .ok d) :
    (∃ s, d = .signed s ∧ SignedRecord.ofText text = .ok s)
      ∨ ∃ r, d = .unsigned r ∧ Record.ofText text = .ok r := by
  unfold ofText at h
  split at h
  case h_2 => cases h
  split at h
  · obtain ⟨s, hs, rfl⟩ := Except.map_eq_ok_iff.mp (Except.mapError_eq_ok_iff.mp h)
    exact .inl ⟨s, rfl, hs⟩
  · obtain ⟨r, hr, rfl⟩ := Except.map_eq_ok_iff.mp (Except.mapError_eq_ok_iff.mp h)
    exact .inr ⟨r, rfl, hr⟩

/-- **A document is a signed record** just if its text reads as that. -/
theorem ofText_eq_signed_iff (hobject : OpensObject text) :
    ofText text = .ok (.signed s) ↔ SignedRecord.ofText text = .ok s := by
  constructor
  · intro h
    obtain ⟨s', heq, hs'⟩ | ⟨r, heq, -⟩ := reads_of_ofText h <;> cases heq
    exact hs'
  · intro h
    obtain ⟨v, hv, hsigned⟩ := isSigned_of_signed hobject h
    simp only [ofText, hv, if_pos hsigned, h]
    rfl

/-- **A document is the entries of a record** just if its text reads as that. -/
theorem ofText_eq_unsigned_iff :
    ofText text = .ok (.unsigned r) ↔ Record.ofText text = .ok r := by
  constructor
  · intro h
    obtain ⟨s, heq, -⟩ | ⟨r', heq, hr'⟩ := reads_of_ofText h <;> cases heq
    exact hr'
  · intro h
    obtain ⟨v, hv, hunsigned⟩ := not_isSigned_of_unsigned h
    simp only [ofText, hv, hunsigned, h]
    rfl

end Document

end ProvableRecord
