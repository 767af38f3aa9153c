import ProvableRecord.Proofs.Except
import ProvableRecord.Proofs.Json.RoundTrip
import ProvableRecord.Proofs.Record.Canonical
import ProvableRecord.Proofs.Signature.Text
import ProvableRecord.Record.Entries

/-!
# Records are read back

A value is written as its tag and its plain text, which is read back under this tag: a number by its
decimal text, and a key, as far as it can come up, by its Base64 text (`Value.ofJson_toJson`).  The
entries of a record are in order of name, so they are the members of its JSON object in order, and
reading these gives the entries (`Entry.mapM_ofMember`), which make the record.

Reading checks the keys that it meets, so a record that was read is again one that can come up
(`Record.Obtainable`).
-/

namespace ProvableRecord

open Json

namespace Value

/-- A value that can come up: if it is a key, one that can. -/
def Obtainable : Value → Prop
  | publicKey k => k.Obtainable
  | _ => True

theorem ofTag?_tag (t : ValueType) : ValueType.ofTag? t.tag = some t := by
  cases t <;> decide

theorem sorted_members (type payload : Json) :
    [("type", type), ("value", payload)].Pairwise fun a b => a.1 < b.1 := by
  have hlt : "type" < "value" := by decide
  exact List.pairwise_pair.mpr hlt

theorem toJson_eq (v : Value) :
    v.toJson = .object [("type", .string v.type.tag), ("value", .string v.rawText)] :=
  ofMembers_of_sorted (sorted_members _ _)

theorem ofInt_toInt (n : Int64) : ofInt n.toInt = .ok (int n) := by
  rw [ofInt, if_pos ⟨n.le_toInt, n.toInt_lt⟩, Int64.ofInt_toInt]

theorem ofElement_natCast {n : ℕ} (h : n < fieldModulus) :
    ofElement n = .ok (cryptographic n) := by
  rw [ofElement, if_neg (Int.not_lt.mpr (Int.natCast_nonneg n)), Int.toNat_natCast, if_pos h]

/-- The plain text of a value is read under its tag. -/
theorem ofPayload_rawText {v : Value} (hvalid : v.IsValid) (hkey : v.Obtainable) :
    ofPayload v.type (.string v.rawText) = .ok v := by
  cases v with
  | string s => rfl
  | int n =>
    simp only [type, rawText, ofPayload, integerOfJson, Decimal.parseInt?_ofInt, bind, Except.bind,
      ofInt_toInt]
  | cryptographic n =>
    simp only [type, rawText, ofPayload, integerOfJson, Decimal.parseInt?_ofNat, bind, Except.bind,
      ofElement_natCast hvalid]
  | publicKey k =>
    have hread : PublicKey.ofText k.toText = .ok k := PublicKey.Obtainable.ofText_toText hkey
    simp only [type, rawText, ofPayload, hread, Except.map, Except.mapError_ok]

/-- A tag and a payload are read as a value of the type with this tag. -/
theorem ofMembers_pair (type : ValueType) (payload : Json) :
    ofMembers [("type", .string type.tag), ("value", payload)] = ofPayload type payload := by
  have hfind : List.find? (fun m : String × Json => decide (m.1 ≠ "type" ∧ m.1 ≠ "value"))
      [("type", .string type.tag), ("value", payload)] = none := rfl
  have htype : (Json.object [("type", .string type.tag), ("value", payload)]).member? "type"
      = some (.string type.tag) := rfl
  have hpayload : (Json.object [("type", .string type.tag), ("value", payload)]).member? "value"
      = some payload := rfl
  simp only [ofMembers, hfind, htype, hpayload, Option.bind_some, asString?, ofTag?_tag, bind]

/-- **A value is read back.** -/
theorem ofJson_toJson {v : Value} (hvalid : v.IsValid) (hkey : v.Obtainable) :
    ofJson v.toJson = .ok v := by
  rw [toJson_eq, ofJson, ofMembers_pair, ofPayload_rawText hvalid hkey]

theorem plain_toJson (v : Value) (depth : ℕ) : Plain (depth + 1) v.toJson := by
  rw [toJson_eq]
  refine .object fun m hm => ?_
  rcases List.mem_cons.mp hm with rfl | hm
  · exact .string _
  · rw [List.mem_singleton.mp hm]
    exact .string _

theorem ordered_toJson (v : Value) : v.toJson.ordered = v.toJson := by
  rw [toJson_eq]
  exact ofMembers_of_sorted (sorted_members _ _)

end Value

namespace Entry

/-- **An entry is read back.** -/
theorem ofMember_toJson {e : Entry} (hvalid : e.value.IsValid) (hkey : e.value.Obtainable) :
    ofMember (e.name.text, e.value.toJson) = .ok e := by
  have hname : EntryName.require e.name.text = .ok e.name := by
    rw [EntryName.require, EntryName.ofText_eq_ok_iff.mpr rfl]
    rfl
  simp only [ofMember, hname, Value.ofJson_toJson hvalid hkey, ofNamed, hvalid, if_true, bind,
    Except.bind, Except.mapError_ok]

theorem mapM_ofMember {es : List Entry} (hvalid : ∀ e ∈ es, e.value.IsValid)
    (hkeys : ∀ e ∈ es, e.value.Obtainable) :
    (es.map fun e => (e.name.text, e.value.toJson)).mapM ofMember = .ok es :=
  Except.mapM_map_eq_ok fun e he => ofMember_toJson (hvalid e he) (hkeys e he)

end Entry

/-! ## What reading gives -/

theorem Value.obtainable_of_ofPayload {type : ValueType} {payload : Json} {v : Value}
    (h : ofPayload type payload = .ok v) : v.Obtainable := by
  cases type with
  | string =>
    cases payload <;> cases h
    trivial
  | int =>
    obtain ⟨n, -, hn⟩ := Except.bind_eq_ok_iff.mp h
    unfold ofInt at hn
    split at hn <;> cases hn
    trivial
  | cryptographic =>
    obtain ⟨n, -, hn⟩ := Except.bind_eq_ok_iff.mp h
    unfold ofElement at hn
    split at hn
    · cases hn
    · split at hn <;> cases hn
      trivial
  | publicKey =>
    cases payload with
    | string s =>
      obtain ⟨k, hk, rfl⟩ := Except.map_eq_ok_iff.mp (Except.mapError_eq_ok_iff.mp h)
      exact PublicKey.obtainable_of_ofText hk
    | _ => cases h

/-- The key of a value that was read was read itself. -/
theorem Value.obtainable_of_ofJson {json : Json} {v : Value} (h : ofJson json = .ok v) :
    v.Obtainable := by
  cases json with
  | object members =>
    change ofMembers members = .ok v at h
    unfold ofMembers at h
    split at h
    · cases h
    · dsimp only at h
      split at h
      case h_2 => cases h
      split at h
      case h_2 => cases h
      split at h
      case h_2 => cases h
      exact obtainable_of_ofPayload h
  | _ => cases h

theorem Entry.obtainable_of_ofMember {m : String × Json} {e : Entry} (h : ofMember m = .ok e) :
    e.value.Obtainable := by
  obtain ⟨name, -, h⟩ := Except.bind_eq_ok_iff.mp h
  obtain ⟨v, hv, h⟩ := Except.bind_eq_ok_iff.mp h
  unfold ofNamed at h
  split at h <;> cases h
  exact Value.obtainable_of_ofJson (Except.mapError_eq_ok_iff.mp hv)

namespace Record

theorem sorted_members (r : Record) :
    (r.entries.map fun e => (e.name.text, e.value.toJson)).Pairwise fun a b => a.1 < b.1 :=
  List.pairwise_map.mpr r.sorted

/-- The members of the JSON object of a record are its entries in order. -/
theorem toJson_eq (r : Record) :
    r.toJson = .object (r.entries.map fun e => (e.name.text, e.value.toJson)) :=
  ofMembers_of_sorted r.sorted_members

theorem plain_toJson (r : Record) (depth : ℕ) : Plain (depth + 2) r.toJson := by
  rw [toJson_eq]
  refine .object fun m hm => ?_
  obtain ⟨e, -, rfl⟩ := List.mem_map.mp hm
  exact e.value.plain_toJson depth

theorem ordered_toJson (r : Record) : r.toJson.ordered = r.toJson := by
  rw [toJson_eq]
  refine ordered_object r.sorted_members fun m hm => ?_
  obtain ⟨e, -, rfl⟩ := List.mem_map.mp hm
  exact e.value.ordered_toJson

/-- **A record is read back** from its JSON value, if its keys can come up. -/
theorem ofJson_toJson {r : Record} (hkeys : ∀ e ∈ r.entries, e.value.Obtainable) :
    ofJson r.toJson = .ok r := by
  rw [ofJson, toJson_eq, Entry.listOfJson, Entry.mapM_ofMember r.valid hkeys]
  exact r.ofEntries_entries

theorem ofText_eq_ofJson {text : String} {v : Json} (h : read? text = some v) :
    ofText text = ofJson v := by
  rw [ofText, Entry.listOfText, h, ofJson]

/-- The records that can come up: those made of entries whose keys can, and those read from JSON. -/
inductive Obtainable : Record → Prop where
  | ofEntries {es : List Entry} {r : Record} (h : Record.ofEntries es = .ok r)
    (hkeys : ∀ e ∈ es, e.value.Obtainable) : Obtainable r
  | ofJson {v : Json} {r : Record} (h : Record.ofJson v = .ok r) : Obtainable r

/-- A record that was read from a text was read from JSON. -/
theorem obtainable_of_ofText {text : String} {r : Record} (h : ofText text = .ok r) :
    Obtainable r := by
  cases hread : read? text with
  | none =>
    rw [ofText, Entry.listOfText, hread] at h
    cases h
  | some v =>
    rw [ofText_eq_ofJson hread] at h
    exact .ofJson h

theorem Obtainable.of_mem_entries {r : Record} (h : r.Obtainable) :
    ∀ e ∈ r.entries, e.value.Obtainable := by
  intro e he
  cases h with
  | ofEntries h hkeys => exact hkeys e ((ofEntries_eq_ok_iff.mp h).mem_iff.mp he)
  | @ofJson v _ h =>
    obtain ⟨es, hes, h⟩ := Except.bind_eq_ok_iff.mp h
    have he' : e ∈ es := (ofEntries_eq_ok_iff.mp h).mem_iff.mp he
    cases v with
    | object members =>
      obtain ⟨m, -, hm⟩ := Except.exists_of_mem_mapM hes he'
      exact Entry.obtainable_of_ofMember hm
    | _ => cases hes

/-- A record that can come up is read back from its text. -/
theorem Obtainable.ofText_toText {r : Record} (h : r.Obtainable) : ofText r.toText = .ok r := by
  have hplain : Plain maxDepth r.toJson := r.plain_toJson 125
  rw [toText, ofText_eq_ofJson (read?_text hplain), ordered_toJson]
  exact ofJson_toJson h.of_mem_entries

/-- **A record is read back from its text**: whatever entries made it, of which only the keys must
be keys that can come up. -/
theorem read_toText {es : List Entry} {r : Record} (h : ofEntries es = .ok r)
    (hkeys : ∀ e ∈ es, e.value.Obtainable) : ofText r.toText = .ok r :=
  (Obtainable.ofEntries h hkeys).ofText_toText

/-- A record with a value of each type. -/
theorem read_toText_each_type :
    let key : PrivateKey := ⟨Bytes.ofNat 32 5⟩
    let es : List Entry :=
      [⟨⟨"age", by decide⟩, .int (-9223372036854775808)⟩,
       ⟨⟨"id", by decide⟩, .cryptographic (fieldModulus - 1)⟩,
       ⟨⟨"issuer", by decide⟩, .publicKey key.publicKey⟩,
       ⟨⟨"note", by decide⟩, .string "\x01 \"Zoë\" \\ 😀\n"⟩]
    ∃ r, ofEntries es = .ok r ∧ (∀ e ∈ es, e.value.Obtainable) ∧ ofText r.toText = .ok r := by
  intro key es
  let r : Record := {
    entries := es
    sorted := by decide
    nonempty := List.cons_ne_nil _ _
    valid := by decide }
  have hr : ofEntries es = .ok r := r.ofEntries_entries
  have hkeys : ∀ e ∈ es, e.value.Obtainable := by
    intro e he
    rcases List.mem_cons.mp he with rfl | he
    · trivial
    rcases List.mem_cons.mp he with rfl | he
    · trivial
    rcases List.mem_cons.mp he with rfl | he
    · exact .ofPrivate key
    · rw [List.mem_singleton.mp he]
      trivial
  exact ⟨r, hr, hkeys, read_toText hr hkeys⟩

end Record

end ProvableRecord
