import ProvableRecord.Proofs.Json.Level
import ProvableRecord.Proofs.Json.Ordered
import ProvableRecord.Proofs.Record.ValueGrammar
import ProvableRecord.Proofs.Text.ByteOrder

/-!
# The grammar of entries

Entries are a JSON object whose keys are names, `[A-Za-z_][A-Za-z0-9_]*`, and whose values denote
values (`Json.Denotes`).  The reader accepts this grammar and nothing else, and finds what it
denotes, in a member (`Entry.ofMember_eq_ok_iff`) and in an object (`Entry.listOfJson_exact`).

An object is refused for the first of its members that is not well formed
(`Entry.listOfJson_eq_error`).  The keys of what was read from a text ascend, so in a text this is
the member with the least key (`Entry.listOfText_eq_error`).
-/

namespace ProvableRecord

/-! ## Names -/

/-- The expression `[A-Za-z_][A-Za-z0-9_]*`. -/
def EntryName.form : RegularExpression Char :=
  Text.oneOf (Text.letters ++ ['_'])
    * (Text.oneOf (Text.letters ++ Text.figures ++ ['_'])).star

/-- **Names are the texts of their form.** -/
theorem isName_iff {s : String} : isName s = true ↔ s.toList ∈ EntryName.form.matches' := by
  have hstart : ∀ {c : Char}, c ∈ Text.letters ++ ['_'] ↔ isNameStart c = true := by
    intro c
    simp [Text.mem_letters, isNameStart]
  have hchar : ∀ {c : Char}, c ∈ Text.letters ++ Text.figures ++ ['_'] ↔ isNameChar c = true := by
    intro c
    simp [Text.mem_letters, Text.mem_figures, isNameChar, Char.isAlphanum, or_assoc]
  rw [EntryName.form, Text.mem_oneOf_mul, isName]
  simp only [Text.mem_star_oneOf, hstart, hchar]
  split
  · next hs => simp [hs]
  · next c cs hs => simp [hs]

theorem EntryName.require_eq_ok_iff {s : String} {name : EntryName} :
    require s = .ok name ↔ name.text = s := by
  rw [require, Except.mapError_eq_ok_iff, ofText_eq_ok_iff]

/-! ## Reading the members of an object -/

namespace Entry

variable {m : String × Json} {e : Entry} {fault : RecordError}

/-- The member is one of the grammar: its key is a name and its value denotes something. -/
def WellFormed (m : String × Json) : Prop :=
  m.1.toList ∈ EntryName.form.matches' ∧ ∃ a, m.2.Denotes a

/-- The entry that a member of the grammar stands for. -/
structure IsOf (e : Entry) (m : String × Json) : Prop where
  form : m.1.toList ∈ EntryName.form.matches'
  name_eq : e.name.text = m.1
  denotes : m.2.Denotes e.value

theorem wellFormed_iff : WellFormed m ↔ ∃ e : Entry, e.IsOf m := by
  constructor
  · rintro ⟨hform, a, ha⟩
    exact ⟨⟨⟨m.1, isName_iff.mpr hform⟩, a⟩, hform, rfl, ha⟩
  · rintro ⟨e, he⟩
    exact ⟨he.form, e.value, he.denotes⟩

/-- **The entry that is read is the one that the member stands for.** -/
theorem ofMember_eq_ok_iff : ofMember m = .ok e ↔ e.IsOf m := by
  constructor
  · intro h
    obtain ⟨name, hname, h⟩ := Except.bind_eq_ok_iff.mp h
    obtain ⟨a, ha, h⟩ := Except.bind_eq_ok_iff.mp h
    rw [Except.mapError_eq_ok_iff, Value.ofJson_eq_ok_iff] at ha
    rw [EntryName.require_eq_ok_iff] at hname
    unfold ofNamed at h
    split at h <;> cases h
    exact ⟨isName_iff.mp (hname ▸ name.isName_text), hname, ha⟩
  · rintro ⟨-, hname, ha⟩
    have hvalid : e.value.IsValid := by
      obtain ⟨t, payload, -, ha⟩ := ha
      exact ha.isValid
    rw [← Value.ofJson_eq_ok_iff] at ha
    refine Except.bind_eq_ok_iff.mpr ⟨e.name, EntryName.require_eq_ok_iff.mpr hname, ?_⟩
    refine Except.bind_eq_ok_iff.mpr ⟨e.value, Except.mapError_eq_ok_iff.mpr ha, ?_⟩
    exact if_pos hvalid

/-- **A member is refused for its range** if its key is a name, its value is well shaped and the
integer of the value is out of range. -/
theorem isRangeIff_of_ofMember (h : ofMember m = .error fault) :
    fault.errorClass.IsRangeIff (m.1.toList ∈ EntryName.form.matches' ∧ m.2.OutOfRange) := by
  by_cases hform : m.1.toList ∈ EntryName.form.matches'
  · have hname : EntryName.require m.1 = .ok ⟨m.1, isName_iff.mpr hform⟩ :=
      EntryName.require_eq_ok_iff.mpr rfl
    simp only [ofMember, hname, bind, Except.bind] at h
    cases hvalue : Value.ofJson m.2 with
    | error f =>
      rw [hvalue, Except.mapError_error] at h
      cases h
      exact (ErrorClass.isRangeIff_congr (and_iff_right hform)).mpr
        (Value.isRangeIff_of_ofJson hvalue)
    | ok a =>
      obtain ⟨t, payload, -, ha⟩ := Value.ofJson_eq_ok_iff.mp hvalue
      rw [hvalue, Except.mapError_ok] at h
      simp only [ofNamed, if_pos ha.isValid] at h
      cases h
  · have hname : EntryName.ofText m.1 = .error (nameFault m.1) :=
      dif_neg fun hname => hform (isName_iff.mp hname)
    simp only [ofMember, EntryName.require, hname, Except.mapError_error, bind, Except.bind] at h
    cases h
    exact .inr ⟨rfl, fun h => hform h.1⟩

theorem not_wellFormed (h : ofMember m = .error fault) : ¬ WellFormed m := by
  intro hm
  obtain ⟨e, he⟩ := wellFormed_iff.mp hm
  cases h.symm.trans (ofMember_eq_ok_iff.mpr he)

theorem listOfJson_eq_ok_iff {doc : Json} {es : List Entry} : listOfJson doc = .ok es
    ↔ ∃ members, doc = .object members ∧ List.Forall₂ (fun m e => IsOf e m) members es := by
  constructor
  · intro h
    cases doc with
    | object members =>
      refine ⟨members, rfl, ?_⟩
      exact (Except.mapM_eq_ok_iff.mp h).imp fun m e hm => ofMember_eq_ok_iff.mp hm
    | _ => cases h
  · rintro ⟨members, rfl, hall⟩
    exact Except.mapM_eq_ok_iff.mpr (hall.imp fun m e hm => ofMember_eq_ok_iff.mpr hm)

/-- An object is refused for its first member that is not well formed. -/
theorem listOfJson_eq_error {members : List (String × Json)}
    (h : listOfJson (.object members) = .error fault) :
    ∃ before m after, members = before ++ m :: after ∧ (∀ m' ∈ before, WellFormed m')
      ∧ ¬ WellFormed m ∧ ofMember m = .error fault := by
  obtain ⟨before, m, after, rfl, hbefore, herror⟩ := Except.mapM_eq_error h
  refine ⟨before, m, after, rfl, ?_, not_wellFormed herror, herror⟩
  intro m' hm'
  obtain ⟨e, he⟩ := hbefore m' hm'
  exact wellFormed_iff.mpr ⟨e, ofMember_eq_ok_iff.mp he⟩

theorem exists_listOfJson_iff {doc : Json} : (∃ es, listOfJson doc = .ok es)
    ↔ ∃ members, doc = .object members ∧ ∀ m ∈ members, WellFormed m := by
  constructor
  · rintro ⟨es, h⟩
    obtain ⟨members, rfl, -⟩ := listOfJson_eq_ok_iff.mp h
    refine ⟨members, rfl, fun m hm => ?_⟩
    obtain ⟨e, -, he⟩ := Except.exists_eq_ok_of_mapM h hm
    exact wellFormed_iff.mpr ⟨e, ofMember_eq_ok_iff.mp he⟩
  · rintro ⟨members, rfl, hall⟩
    cases h : listOfJson (.object members) with
    | ok es => exact ⟨es, rfl⟩
    | error fault =>
      obtain ⟨before, m, after, rfl, -, hbad, -⟩ := listOfJson_eq_error h
      exact absurd (hall m (List.mem_append_right _ List.mem_cons_self)) hbad

/-- Where the keys ascend, the first of the members that are not well formed has the least key. -/
theorem eq_or_textBytes_lt {before after : List (String × Json)} {m m' : String × Json}
    (hsorted : (before ++ m :: after).Pairwise fun a b => a.1 < b.1)
    (hbefore : ∀ m' ∈ before, WellFormed m') (hm' : m' ∈ before ++ m :: after)
    (hbad : ¬ WellFormed m') : m' = m ∨ textBytes m.1 < textBytes m'.1 := by
  obtain ⟨-, htail, -⟩ := List.pairwise_append.mp hsorted
  rcases List.mem_append.mp hm' with hm' | hm'
  · exact absurd (hbefore m' hm') hbad
  · rcases List.mem_cons.mp hm' with rfl | hm'
    · exact .inl rfl
    · exact .inr (textBytes_lt ((List.pairwise_cons.mp htail).1 m' hm'))

/-- The keys of an object that was read from a text ascend. -/
theorem pairwise_of_read? {text : String} {members : List (String × Json)}
    (h : Json.read? text = some (.object members)) :
    members.Pairwise fun a b => a.1 < b.1 := by
  rw [Json.read?] at h
  split at h
  case h_2 => cases h
  next v rest hread =>
  split at h
  case isFalse => cases h
  rw [Option.some_inj] at h
  have hlevel := Json.readValue_succ_iff.mp hread
  generalize Json.skipBlanks text.toList = s at hlevel
  cases hlevel with
  | emptyObject =>
    cases h
    exact .nil
  | @object _ _ _ ms =>
    obtain ⟨ms', heq, hsorted, -⟩ := Json.ofMembers_eq ms
    rw [heq, Json.object.injEq] at h
    exact h ▸ hsorted
  | _ => cases h

/-- **A text is refused for the member with the least key** among those that are not well formed. -/
theorem listOfText_eq_error {text : String} {members : List (String × Json)}
    (hread : Json.read? text = some (.object members)) (h : listOfText text = .error fault) :
    ∃ m ∈ members, ¬ WellFormed m ∧ ofMember m = .error fault
      ∧ ∀ m' ∈ members, ¬ WellFormed m' → m' = m ∨ textBytes m.1 < textBytes m'.1 := by
  rw [listOfText, hread] at h
  have hsorted := pairwise_of_read? hread
  obtain ⟨before, m, after, rfl, hbefore, hbad, herror⟩ := listOfJson_eq_error h
  exact ⟨m, List.mem_append_right _ List.mem_cons_self, hbad, herror,
    fun m' hm' hbad' => eq_or_textBytes_lt hsorted hbefore hm' hbad'⟩

/-- **The reader of entries accepts exactly its grammar and classifies every failure.**  A value
gives entries if it is an object all of whose members are well formed, and then they are the entries
that the members stand for, one for each; a number and a numeral of one integer give the same value.
A value that is no object is an error of shape.  In an object the error is that of the first member
that is not well formed, which has the least key of these if the keys ascend; it is an error of
range if the key is a name and the value has an integer out of its range, and of shape otherwise. -/
theorem listOfJson_exact (doc : Json) :
    ((∃ es, listOfJson doc = .ok es)
      ↔ ∃ members, doc = .object members ∧ ∀ m ∈ members, WellFormed m)
    ∧ (∀ es, listOfJson doc = .ok es
      ↔ ∃ members, doc = .object members ∧ List.Forall₂ (fun m e => IsOf e m) members es)
    ∧ (∀ (t : ValueType) (v v' payload payload' : Json) (n : ℤ), t = .int ∨ t = .cryptographic →
      v.HasFields t.tag payload → payload.DenotesInt n →
      v'.HasFields t.tag payload' → payload'.DenotesInt n → Value.ofJson v = Value.ofJson v')
    ∧ ∀ fault, listOfJson doc = .error fault →
      doc.isObject = false ∧ fault.errorClass = .shape
      ∨ ∃ before m after, doc = .object (before ++ m :: after)
        ∧ (∀ m' ∈ before, WellFormed m') ∧ ¬ WellFormed m ∧ ofMember m = .error fault
        ∧ fault.errorClass.IsRangeIff (m.1.toList ∈ EntryName.form.matches' ∧ m.2.OutOfRange)
        ∧ ((before ++ m :: after).Pairwise (fun a b => a.1 < b.1) →
          ∀ m' ∈ before ++ m :: after, ¬ WellFormed m' →
            m' = m ∨ textBytes m.1 < textBytes m'.1) := by
  refine ⟨exists_listOfJson_iff, fun es => listOfJson_eq_ok_iff, ?_, ?_⟩
  · intro t v v' payload payload' n ht hfields hn hfields' hn'
    rw [Value.ofJson_of_hasFields hfields, Value.ofJson_of_hasFields hfields',
      Value.ofPayload_eq_of_denotesInt ht hn hn']
  · intro fault h
    cases doc with
    | object members =>
      obtain ⟨before, m, after, rfl, hbefore, hbad, herror⟩ := listOfJson_eq_error h
      exact .inr ⟨before, m, after, rfl, hbefore, hbad, herror, isRangeIff_of_ofMember herror,
        fun hsorted m' hm' hbad' => eq_or_textBytes_lt hsorted hbefore hm' hbad'⟩
    | _ =>
      cases h
      exact .inl ⟨rfl, rfl⟩

/-- An integer out of range is reported before a name that comes after it. -/
example : (listOfJson (.object [
      ("age", .object [("type", .string "int"), ("value", .string "9223372036854775808")]),
      ("first name", .object [("type", .string "string"), ("value", .string "Zoë")])])).map
        (·.length) = .error (.entry "age" (.intRange 9223372036854775808)) := by
  rfl

end Entry

end ProvableRecord
