import ProvableRecord.Proofs.Json.Members
import ProvableRecord.Proofs.Record.Canonical
import ProvableRecord.Proofs.Record.Grammar
import ProvableRecord.Proofs.Record.Index

/-!
# Entries that are listed in a text

A record is made of entries that are given one by one, or read from a text that lists them
(`Entry.Listed`).  Given entries must have distinct names.  A text may list a name more than once:
what is read are the last entries of each name (`Entry.Listed.exists_listOfText`), so the text has
the record that these make (`Record.ofText_eq_ofEntries_latest`).

If the names are distinct, the last entries of each name are all of them, and both ways agree.
Otherwise they part: the entries make no record, and the text is read without the entries that
another of their name follows (`Record.ofText_listed`).
-/

namespace ProvableRecord

open Json

variable {es es' : List Entry} {text : String}

namespace Entry

/-- The text is an object that lists the entries in this order, each as a member that stands for
it. -/
def Listed (es : List Entry) (text : String) : Prop :=
  ∃ ms, HasMembers text ms ∧ List.Forall₂ (fun m e => IsOf e m) ms es

/-- Every list of entries has its texts: the object of its members, in every layout of blanks. -/
theorem listed_write (hvalid : ∀ e ∈ es, e.value.IsValid) (hkeys : ∀ e ∈ es, e.value.Obtainable)
    {L : Layout} (hL : L.Blank) {blanks : List Char} (hblanks : ∀ c ∈ blanks, isBlank c = true) :
    Listed es (String.ofList
      (write L 0 (object (es.map fun e => (e.name.text, e.value.toJson))) ++ blanks)) := by
  have hplain : ∀ m ∈ es.map fun e => (e.name.text, e.value.toJson),
      Plain (maxDepth - 1) m.2 := by
    intro m hm
    obtain ⟨e, -, rfl⟩ := List.mem_map.mp hm
    exact e.value.plain_toJson 125
  have hordered : orderedMembers (es.map fun e => (e.name.text, e.value.toJson))
      = es.map fun e => (e.name.text, e.value.toJson) := by
    refine orderedMembers_eq_self fun m hm => ?_
    obtain ⟨e, -, rfl⟩ := List.mem_map.mp hm
    exact e.value.ordered_toJson
  refine ⟨_, hasMembers_write hL hplain hblanks, ?_⟩
  rw [hordered, List.forall₂_map_left_iff, List.forall₂_same]
  exact fun e he => ofMember_eq_ok_iff.mp (ofMember_toJson (hvalid e he) (hkeys e he))

/-- The values of the entries that a text lists are valid. -/
theorem Listed.isValid (h : Listed es text) : ∀ e ∈ es, e.value.IsValid := by
  obtain ⟨ms, -, hall⟩ := h
  refine (forall_mem_iff_of_forall₂ (P := fun _ => True) ?_ hall).mp fun m _ => trivial
  intro m e he
  obtain ⟨t, payload, -, hdenotes⟩ := he.denotes
  exact iff_of_true trivial hdenotes.isValid

/-- **The entries that are read** are the last of each name, in some order. -/
theorem Listed.exists_listOfText (h : Listed es text) :
    ∃ es', listOfText text = .ok es' ∧ es'.Perm (latest (·.name) es) := by
  obtain ⟨ms, hms, hall⟩ := h
  obtain ⟨ms', hobject, hperm⟩ := exists_perm_latest ms
  have hlatest : List.Forall₂ (fun m e => IsOf e m) (latest Prod.fst ms)
      (latest (·.name) es) := by
    refine forall₂_latest ?_ hall
    intro m m' e e' he he'
    rw [← he.name_eq, ← he'.name_eq]
    exact ⟨EntryName.ext, congrArg EntryName.text⟩
  obtain ⟨es', hall', hperm'⟩ := List.perm_comp_forall₂ hperm hlatest
  refine ⟨es', ?_, hperm'⟩
  rw [listOfText, hms.read?, hobject]
  exact listOfJson_eq_ok_iff.mpr ⟨ms', rfl, hall'⟩

end Entry

namespace Record

/-- Distinct valid entries make the same of themselves in every order, a record or an error. -/
theorem ofEntries_eq_of_perm (h : es.Perm es') (hnodup : (es.map (·.name)).Nodup)
    (hvalid : ∀ e ∈ es, e.value.IsValid) : ofEntries es = ofEntries es' := by
  by_cases hnil : es = []
  · subst hnil
    rw [h.nil_eq]
  · obtain ⟨r, hr⟩ := exists_ofEntries_iff.mpr ⟨hnil, hnodup, hvalid⟩
    rw [hr, ofEntries_eq_ok_iff.mpr ((ofEntries_eq_ok_iff.mp hr).trans h)]

/-- Valid entries of which two have one name are refused for a name that occurs twice. -/
theorem exists_duplicateName (hvalid : ∀ e ∈ es, e.value.IsValid)
    (h : ¬ (es.map (·.name)).Nodup) :
    ∃ name, List.Duplicate name (es.map (·.name))
      ∧ ofEntries es = .error (.duplicateName name) := by
  cases hmade : ofEntries es with
  | ok r => exact absurd (exists_ofEntries_iff.mp ⟨r, hmade⟩).2.1 h
  | error fault =>
    rcases ofEntries_eq_error hmade with ⟨rfl, -⟩ | ⟨e, he, hinvalid, -⟩ | ⟨-, name, hname, rfl⟩
    · exact absurd List.nodup_nil h
    · exact absurd (hvalid e he) hinvalid
    · exact ⟨name, hname, rfl⟩

/-- **The record of a text** is that of the last entries of each name. -/
theorem ofText_eq_ofEntries_latest (h : Entry.Listed es text) :
    ofText text = ofEntries (latest (·.name) es) := by
  obtain ⟨es', hread, hperm⟩ := h.exists_listOfText
  rw [ofText, hread]
  exact (ofEntries_eq_of_perm hperm.symm (nodup_map_latest _ es) fun e he =>
    h.isValid e (latest_subset he)).symm

/-- A text is read if it lists any entries. -/
theorem exists_ofText_iff (h : Entry.Listed es text) : (∃ r, ofText text = .ok r) ↔ es ≠ [] := by
  rw [ofText_eq_ofEntries_latest h, exists_ofEntries_iff, ne_eq, latest_eq_nil_iff]
  exact and_iff_left ⟨nodup_map_latest _ es, fun e he => h.isValid e (latest_subset he)⟩

/-- The entries of the record of a text are those that no other of their name follows. -/
theorem mem_entries_iff_of_ofText {r : Record} (h : Entry.Listed es text)
    (hr : ofText text = .ok r) {e : Entry} : e ∈ r.entries ↔ IsLatest (·.name) e es := by
  rw [ofText_eq_ofEntries_latest h, ofEntries_eq_ok_iff] at hr
  rw [hr.mem_iff, mem_latest_iff]

/-- **A text that lists entries is read as the last of each name.**  Every list of valid entries has
texts that list it.  Such a text is read if it lists any entries, and its record is made of those
that no other of their name follows.  If the names are distinct, the text and the entries make the
same record or are refused with the same error.  If a name occurs twice, the entries are refused for
such a name, and the text is read with fewer entries than it lists. -/
theorem ofText_listed (es : List Entry) :
    ((∀ e ∈ es, e.value.IsValid) → (∀ e ∈ es, e.value.Obtainable) →
      ∀ (L : Layout) (blanks : List Char), L.Blank → (∀ c ∈ blanks, isBlank c = true) →
        Entry.Listed es (String.ofList
          (write L 0 (object (es.map fun e => (e.name.text, e.value.toJson))) ++ blanks)))
    ∧ ∀ text, Entry.Listed es text →
      ofText text = ofEntries (latest (·.name) es)
      ∧ ((∃ r, ofText text = .ok r) ↔ es ≠ [])
      ∧ (∀ r, ofText text = .ok r → ∀ e, e ∈ r.entries ↔ IsLatest (·.name) e es)
      ∧ ((es.map (·.name)).Nodup → ofText text = ofEntries es)
      ∧ (¬ (es.map (·.name)).Nodup →
        (∃ name, List.Duplicate name (es.map (·.name))
          ∧ ofEntries es = .error (.duplicateName name))
        ∧ ∃ r, ofText text = .ok r ∧ r.size < es.length) := by
  refine ⟨fun hvalid hkeys L blanks hL hblanks => Entry.listed_write hvalid hkeys hL hblanks, ?_⟩
  intro text h
  have hlatest := ofText_eq_ofEntries_latest h
  refine ⟨hlatest, exists_ofText_iff h, fun r hr e => mem_entries_iff_of_ofText h hr, ?_, ?_⟩
  · intro hnodup
    rw [hlatest, latest_eq_self_iff.mpr hnodup]
  · intro hrepeated
    refine ⟨exists_duplicateName h.isValid hrepeated, ?_⟩
    have hne : es ≠ [] := by
      rintro rfl
      exact hrepeated List.nodup_nil
    obtain ⟨r, hr⟩ := (exists_ofText_iff h).mpr hne
    rw [hlatest] at hr
    refine ⟨r, hlatest.trans hr, ?_⟩
    rw [size, (ofEntries_eq_ok_iff.mp hr).length_eq]
    exact length_latest_lt hrepeated

/-- A text that lists each name once, and one that lists a name twice. -/
theorem ofText_listed_once_and_twice :
    let a : Entry := ⟨⟨"A", by decide⟩, .cryptographic 7⟩
    let b : Entry := ⟨⟨"b", by decide⟩, .int (-1)⟩
    let c : Entry := ⟨⟨"b", by decide⟩, .string "z"⟩
    let once := "\x7b\"b\":\x7b\"type\":\"int\",\"value\":\"-1\"\x7d,"
      ++ "\"A\":\x7b\"type\":\"cryptographic\",\"value\":\"7\"\x7d\x7d"
    let twice := "\x7b\"b\":\x7b\"type\":\"int\",\"value\":\"-1\"\x7d,"
      ++ "\"A\":\x7b\"type\":\"cryptographic\",\"value\":\"7\"\x7d,"
      ++ "\"b\":\x7b\"type\":\"string\",\"value\":\"z\"\x7d\x7d"
    Entry.Listed [b, a] once ∧ ofText once = ofEntries [b, a]
      ∧ Entry.Listed [b, a, c] twice ∧ ofText twice = ofEntries [a, c]
      ∧ (∃ name, ofEntries [b, a, c] = .error (.duplicateName name))
      ∧ ∃ r, ofText twice = .ok r ∧ r.size < 3 := by
  intro a b c once twice
  have hvalid : ∀ e ∈ [b, a, c], e.value.IsValid := by decide
  have hkeys : ∀ e ∈ [b, a, c], e.value.Obtainable := by
    simp only [List.forall_mem_cons]
    exact ⟨trivial, trivial, trivial, List.forall_mem_nil _⟩
  have hsub : [b, a] ⊆ [b, a, c] := List.subset_append_left [b, a] [c]
  obtain ⟨htext, hread⟩ := ofText_listed [b, a]
  obtain ⟨htext', hread'⟩ := ofText_listed [b, a, c]
  have hwritten : String.ofList (write .compact 0 (object ([b, a].map fun e =>
      (e.name.text, e.value.toJson))) ++ []) = once := by decide
  have hwritten' : String.ofList (write .compact 0 (object ([b, a, c].map fun e =>
      (e.name.text, e.value.toJson))) ++ []) = twice := by decide
  have honce : Entry.Listed [b, a] once :=
    hwritten ▸ htext (fun e he => hvalid e (hsub he)) (fun e he => hkeys e (hsub he)) .compact []
      Layout.compact_blank (List.forall_mem_nil _)
  have htwice : Entry.Listed [b, a, c] twice :=
    hwritten' ▸ htext' hvalid hkeys .compact [] Layout.compact_blank (List.forall_mem_nil _)
  obtain ⟨-, -, -, hdistinct, -⟩ := hread once honce
  obtain ⟨hlatest, -, -, -, hrepeated⟩ := hread' twice htwice
  obtain ⟨⟨name, -, hname⟩, hsize⟩ := hrepeated (by decide)
  exact ⟨honce, hdistinct (by decide), htwice, hlatest, ⟨name, hname⟩, hsize⟩

/-- A text may list a name twice: its entries make no record, and the text is read without the first
of them. -/
theorem read_repeated_name :
    let a : Entry := ⟨⟨"A", by decide⟩, .int 1⟩
    let b : Entry := ⟨⟨"A", by decide⟩, .int 2⟩
    let text := "\x7b\"A\":\x7b\"type\":\"int\",\"value\":\"1\"\x7d,"
      ++ "\"A\":\x7b\"type\":\"int\",\"value\":\"2\"\x7d\x7d"
    (∀ e ∈ [a, b], e.value.IsValid) ∧ Entry.Listed [a, b] text
      ∧ ofEntries [a, b] = .error (.duplicateName a.name)
      ∧ ∃ r, ofText text = .ok r ∧ r.entries = [b] := by
  intro a b text
  have hvalid : ∀ e ∈ [a, b], e.value.IsValid := by decide
  have hkeys : ∀ e ∈ [a, b], e.value.Obtainable := by
    simp only [List.forall_mem_cons]
    exact ⟨trivial, trivial, List.forall_mem_nil _⟩
  have hwritten : String.ofList (write .compact 0 (object ([a, b].map fun e =>
      (e.name.text, e.value.toJson))) ++ []) = text := by decide
  have hlisted : Entry.Listed [a, b] text :=
    hwritten ▸ Entry.listed_write hvalid hkeys Layout.compact_blank (List.forall_mem_nil _)
  obtain ⟨name, hname, hrefused⟩ := exists_duplicateName hvalid (by decide)
  have ha : name = a.name := by
    rcases List.mem_cons.mp hname.mem with h | h
    · exact h
    · exact List.mem_singleton.mp h
  let r : Record := {
    entries := [b]
    sorted := List.pairwise_singleton _ _
    nonempty := List.cons_ne_nil _ _
    valid := by decide }
  have hr : ofText text = .ok r := (ofText_eq_ofEntries_latest hlisted).trans r.ofEntries_entries
  exact ⟨hvalid, hlisted, ha ▸ hrefused, r, hr, rfl⟩

end Record

end ProvableRecord
