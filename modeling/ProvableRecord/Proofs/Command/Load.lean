import ProvableRecord.Proofs.Command.Run
import ProvableRecord.Proofs.Record.Dispatch
import ProvableRecord.Proofs.Record.RoundTrip
import ProvableRecord.Proofs.Record.Signals

/-!
# Loading a document

Reading a document from a file is reading it from the text of the file (`runOn_readDocument_fst`),
so a file of an object is loaded as what its text reads as, whatever its entries are called
(`readDocument_dispatch`).
-/

namespace ProvableRecord.Command.Task

variable {s : Session} {path text : String}

/-- A document is loaded from a file if its text is one. -/
theorem runOn_readDocument_fst {filter : LogFilter} (hread : s.read path = .ok text)
    {d : Document} :
    ((readDocument path).runOn filter s).1 = .ok d ↔ Document.ofText text = .ok d := by
  rw [runOn_readDocument_eq filter hread]
  exact Except.mapError_eq_ok_iff

/-- **A document is loaded as what its text reads as.**  Let a file hold a text.  If the text has a
value, then that is an object just if the text begins like one.  If the text begins like an object,
the document of the file is a signed record just if the text reads as that signed record, and it is
the entries of a record just if the text reads as that record; and no such text reads as both. -/
theorem readDocument_dispatch (hread : s.read path = .ok text) (filter : LogFilter) :
    (∀ v, Json.read? text = some v → (v.isObject = true ↔ Json.OpensObject text))
      ∧ (Json.OpensObject text →
        (∀ pod, ((readDocument path).runOn filter s).1 = .ok (.signed pod)
          ↔ SignedRecord.ofText text = .ok pod)
        ∧ (∀ r, ((readDocument path).runOn filter s).1 = .ok (.unsigned r)
          ↔ Record.ofText text = .ok r)
        ∧ ¬ ((∃ pod, SignedRecord.ofText text = .ok pod) ∧ ∃ r, Record.ofText text = .ok r)) := by
  refine ⟨fun v => Json.isObject_iff_opensObject, fun hobject => ?_⟩
  refine ⟨fun pod => ?_, fun r => ?_, Document.not_signed_and_unsigned hobject⟩
  · exact (runOn_readDocument_fst hread).trans (Document.ofText_eq_signed_iff hobject)
  · exact (runOn_readDocument_fst hread).trans Document.ofText_eq_unsigned_iff

/-- Entries that are named like the fields of a signed record. -/
theorem readDocument_dispatch_fields :
    let r : Record :=
      { entries := [⟨⟨"entries", by decide⟩, .int 1⟩, ⟨⟨"signature", by decide⟩, .string "none"⟩,
          ⟨⟨"signerPublicKey", by decide⟩, .cryptographic 2⟩]
        sorted := by decide
        nonempty := List.cons_ne_nil _ _
        valid := by decide }
    let s := ({} : Session).put ["tmp", "work", "entries.json"] (.file r.toText.toUTF8)
    let filter := LogFilter.upTo .warn
    s.read "entries.json" = .ok r.toText ∧ Json.OpensObject r.toText
      ∧ ((readDocument "entries.json").runOn filter s).1 = .ok (.unsigned r)
      ∧ ¬ ∃ pod, SignedRecord.ofText r.toText = .ok pod := by
  intro r s filter
  have hkeeps : Session.Keeps {} "entries.json" := .of_walk rfl (by decide) rfl rfl
  have hread : s.read "entries.json" = .ok r.toText := hkeeps.read_put rfl _
  have hr : Record.ofText r.toText = .ok r := by
    refine (Record.Obtainable.ofEntries r.ofEntries_entries ?_).ofText_toText
    intro e he
    simp only [r, List.mem_cons, List.not_mem_nil, or_false] at he
    rcases he with rfl | rfl | rfl <;> trivial
  have hjson : Json.read? r.toText = some r.toJson := by
    rw [Record.toText, Json.read?_text (r.plain_toJson 125), r.ordered_toJson]
  obtain ⟨hvalue, hdispatch⟩ := readDocument_dispatch hread filter
  have hobject : Json.OpensObject r.toText := (hvalue _ hjson).mp (by rw [r.toJson_eq]; rfl)
  obtain ⟨-, hunsigned, hnot⟩ := hdispatch hobject
  exact ⟨hread, hobject, (hunsigned r).mpr hr, fun hsigned => hnot ⟨hsigned, r, hr⟩⟩

end ProvableRecord.Command.Task
