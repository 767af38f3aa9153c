import ProvableRecord.Proofs.Json.Decoder
import ProvableRecord.Proofs.Record.Leaves
import ProvableRecord.Proofs.Record.RoundTrip
import ProvableRecord.Record.Signed

/-!
# Signed records are read back

However a signed record came about (`SignedRecord.Obtainable`), its record and its signer are among
those that can come up.  The fields of its JSON object are those of the schema, each given once, so
the typed reader takes them from either layout (`reads_schema`), and the record, the signature and
the signer are read back from them (`read_texts`).
-/

namespace ProvableRecord

open Json

theorem Record.obtainable_single {e : Entry} (h : e.value.IsValid) (hkey : e.value.Obtainable) :
    (Record.single e h).Obtainable := by
  refine .ofEntries (Record.single e h).ofEntries_entries fun e' he => ?_
  rw [List.mem_singleton.mp he]
  exact hkey

namespace SignedRecord

/-- The signed records that can come up: signed with a key, put together from a record, any
signature and a key, or read from a text. -/
inductive Obtainable : SignedRecord → Prop where
  | sign {r : Record} {key : PrivateKey} {s : SignedRecord} (hr : r.Obtainable)
    (h : SignedRecord.sign r key = .ok s) : Obtainable s
  | load {r : Record} {signer : PublicKey} (hr : r.Obtainable) (signature : Signature)
    (hsigner : signer.Obtainable) : Obtainable ⟨r, signature, signer⟩
  | ofText {text : String} {s : SignedRecord} (h : SignedRecord.ofText text = .ok s) :
    Obtainable s

theorem Obtainable.parts {s : SignedRecord} (h : s.Obtainable) :
    s.record.Obtainable ∧ s.signer.Obtainable := by
  cases h with
  | @sign r key s hr h =>
    rw [sign_eq_ok, Except.ok.injEq] at h
    subst h
    exact ⟨hr, .ofPrivate key⟩
  | load hr signature hsigner => exact ⟨hr, hsigner⟩
  | ofText h =>
    obtain ⟨⟨entries, signature, signer⟩, -, h⟩ := Except.bind_eq_ok_iff.mp h
    obtain ⟨r, hr, h⟩ := Except.bind_eq_ok_iff.mp h
    obtain ⟨signature', -, h⟩ := Except.bind_eq_ok_iff.mp h
    obtain ⟨signer', hsigner, h⟩ := Except.bind_eq_ok_iff.mp h
    cases h
    exact ⟨.ofJson hr, PublicKey.obtainable_of_ofText (Except.mapError_eq_ok_iff.mp hsigner)⟩

/-! ## Reading the parts back -/

theorem toJson_eq (s : SignedRecord) :
    s.toJson = .object
      [("entries", s.record.toJson), ("signature", .string s.signature.toText),
       ("signerPublicKey", .string s.signer.toText)] := by
  have hsorted : ["entries", "signature", "signerPublicKey"].Pairwise (· < ·) := by decide
  exact ofMembers_of_sorted (List.pairwise_map.mp hsorted)

/-- The fields of a signed record are read. -/
theorem reads_schema {entries : Json} (h : Plain (maxDepth - 1) entries)
    (hordered : entries.ordered = entries) (signature signer : String) :
    schema.decoder.Reads
      (.object [("entries", entries), ("signature", .string signature),
        ("signerPublicKey", .string signer)])
      (entries, signature, signer) := by
  have hentries : (Decoder.map (ε := Empty) (Decoder.value 1) fun v (p : Parts) =>
      { p with entries := some v }).Reads entries fun p => { p with entries := some entries } :=
    (Decoder.reads_value h hordered).map _
  have hsignature := (Decoder.reads_text (ε := Empty) signature).map
    fun s (p : Parts) => { p with signature := some s }
  have hsigner := (Decoder.reads_text (ε := Empty) signer).map
    fun s (p : Parts) => { p with signer := some s }
  have hgathers : schema.Gathers schema.start
      [("entries", entries), ("signature", .string signature),
        ("signerPublicKey", .string signer)]
      ⟨some entries, some signature, some signer⟩ :=
    .cons rfl rfl hentries (.cons rfl rfl hsignature (.cons rfl rfl hsigner .nil))
  exact Schema.reads hgathers rfl

/-- The fields of a signed record are understood. -/
theorem ofText_of_readText {s : SignedRecord} (h : s.Obtainable) {text : String}
    (hread : schema.decoder.readText text
      = .ok (s.record.toJson, s.signature.toText, s.signer.toText)) : ofText text = .ok s := by
  have hrecord := Record.ofJson_toJson h.parts.1.of_mem_entries
  have hsigner := h.parts.2.ofText_toText
  simp only [ofText, hread, hrecord, hsigner, Signature.ofText_toText, bind, Except.bind,
    Except.mapError_ok]
  rfl

/-- A signed record is read back from its text in every layout of blanks, with blanks after it. -/
theorem ofText_write {s : SignedRecord} (h : s.Obtainable) {L : Layout} (hL : L.Blank)
    {blanks : List Char} (hblanks : ∀ c ∈ blanks, isBlank c = true) :
    ofText (String.ofList (write L 0 s.toJson ++ blanks)) = .ok s := by
  refine ofText_of_readText h ?_
  rw [toJson_eq]
  exact (reads_schema (s.record.plain_toJson 124) s.record.ordered_toJson _ _).readText hL hblanks

/-- A signed record is read back from its compact text. -/
theorem ofText_toText {s : SignedRecord} (h : s.Obtainable) : ofText s.toText = .ok s := by
  have hcompact := ofText_write h Layout.compact_blank (List.forall_mem_nil _)
  rwa [List.append_nil] at hcompact

/-- **A signed record is read back** from its compact text and from its pretty text, with a line
break after it or without, however it came about. -/
theorem read_texts {s : SignedRecord} (h : s.Obtainable) :
    ofText s.toText = .ok s ∧ ofText s.toJson.prettyText = .ok s
      ∧ ofText (s.toJson.prettyText ++ "\n") = .ok s := by
  have hcompact := ofText_write h Layout.compact_blank (List.forall_mem_nil _)
  have hpretty := ofText_write h Layout.pretty_blank (List.forall_mem_nil _)
  rw [List.append_nil] at hcompact hpretty
  have hline : ∀ c ∈ ['\n'], isBlank c = true := by
    intro c hc
    rw [List.mem_singleton.mp hc]
    rfl
  refine ⟨hcompact, hpretty, ?_⟩
  have hbroken := ofText_write h Layout.pretty_blank hline
  rwa [String.ofList_append] at hbroken

/-- A record with sixty-four bytes that are no signature on it. -/
theorem read_texts_loaded :
    let r := Record.single ⟨⟨"age", by decide⟩, .int 30⟩ trivial
    let signer := (⟨Bytes.ofNat 32 5⟩ : PrivateKey).publicKey
    let s : SignedRecord := ⟨r, ⟨Bytes.ofNat 32 1, Bytes.ofNat 32 2⟩, signer⟩
    s.Obtainable ∧ ofText s.toText = .ok s ∧ ofText s.toJson.prettyText = .ok s
      ∧ ofText (s.toJson.prettyText ++ "\n") = .ok s := by
  intro r signer s
  have hkeys : ∀ e ∈ r.entries, e.value.Obtainable := by
    intro e he
    rw [List.mem_singleton.mp he]
    trivial
  have hr : r.Obtainable := .ofEntries r.ofEntries_entries hkeys
  have hs : s.Obtainable := .load hr _ (.ofPrivate _)
  exact ⟨hs, read_texts hs⟩

end SignedRecord

end ProvableRecord
