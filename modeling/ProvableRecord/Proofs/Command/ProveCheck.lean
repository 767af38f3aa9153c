import ProvableRecord.Proofs.Command.Run
import ProvableRecord.Proofs.Record.EvidenceText
import ProvableRecord.Proofs.Record.RoundTrip
import ProvableRecord.Proofs.Record.Signals

/-!
# What is proved is accepted

The command `prove` delivers the pretty text of the evidence for an entry and a line break
(`runOn_prove`), to a file (`runOn_prove_file`) or to the reader (`runOn_prove_printed`).  The
evidence is valid and for the name of the entry, and it is read back from its text.  So the command
`check` accepts every file with that text, also for the name itself, and refuses it for a name with
another hash (`check_accepts`).  The two commands meet in the text alone: what lies between them is
that a file reads as what was written to it (`Session.read_of_write`).
-/

namespace ProvableRecord.Command.Task

variable {filter : LogFilter} {s : Session} {file text name : String} {d : Document}
  {ev : Evidence} {withSignals : Bool}

/-! ## Proving -/

/-- Proving comes down to delivering the evidence: before that, only the log grows. -/
theorem runOn_prove (filter : LogFilter) (hread : s.read file = .ok text)
    (hdoc : Document.ofText text = .ok d) {e : Entry} (he : e ∈ d.record.entries)
    (hev : d.record.evidence e.name.text withSignals = .ok ev) :
    ∃ s', s'.nodes = s.nodes ∧ s'.printed = s.printed ∧ ∀ out,
      (prove file e.name.text withSignals out).runOn filter s
        = (deliver out ev.toJson.prettyText >>= fun _ => (pure 0 : Task _ _)).runOn filter s' := by
  have hentry : (d.record.get? e.name.text).isSome = true := by
    rw [Record.get?_eq he]
    rfl
  refine ⟨noted filter (.generatedProof e.name.text withSignals)
    (noted filter (.builtTree d.record) s), ?_, ?_, ?_⟩
  · rw [nodes_noted, nodes_noted]
  · rw [printed_noted, printed_noted]
  · intro out
    rw [prove, runOn_bind (runOn_readDocument hread hdoc), if_pos hentry, runOn_bind (runOn_emit _),
      hev, runOn_bind (runOn_require_ok _ _ _), runOn_bind (runOn_emit _)]

/-- Evidence that is delivered to a file can be read from it, and nothing else is changed. -/
theorem runOn_prove_file (hread : s.read file = .ok text) (hdoc : Document.ofText text = .ok d)
    {e : Entry} (he : e ∈ d.record.entries)
    (hev : d.record.evidence e.name.text withSignals = .ok ev) {out : String} (hout : s.Keeps out) :
    ∃ place after, (prove file e.name.text withSignals (some out)).runOn filter s = (.ok 0, after)
      ∧ s.resolve out = .ok place
      ∧ after.nodes = (s.put place (.file (ev.toJson.prettyText ++ "\n").toUTF8)).nodes
      ∧ after.read out = .ok (ev.toJson.prettyText ++ "\n") := by
  obtain ⟨s', hnodes, -, hprove⟩ := runOn_prove filter hread hdoc he hev
  obtain ⟨place, hplace, hwrite, hback⟩ :=
    (hout.of_nodes_eq hnodes).write_eq (ev.toJson.prettyText ++ "\n")
  rw [Session.resolve_congr hnodes] at hplace
  refine ⟨place, _, ?_, hplace, ?_, hback⟩
  · rw [hprove, deliver, runOn_bind (runOn_writeText _ hwrite), runOn_pure]
  · rw [Session.put, Session.put, hnodes]

/-- Without a file the evidence is printed. -/
theorem runOn_prove_printed (hread : s.read file = .ok text)
    (hdoc : Document.ofText text = .ok d) {e : Entry} (he : e ∈ d.record.entries)
    (hev : d.record.evidence e.name.text withSignals = .ok ev) :
    ∃ after, (prove file e.name.text withSignals none).runOn filter s = (.ok 0, after)
      ∧ after.nodes = s.nodes ∧ after.printed = s.printed ++ (ev.toJson.prettyText ++ "\n") := by
  obtain ⟨s', hnodes, hprinted, hprove⟩ := runOn_prove filter hread hdoc he hev
  refine ⟨{ s' with printed := s'.printed ++ (ev.toJson.prettyText ++ "\n") }, ?_, hnodes, ?_⟩
  · rw [hprove, deliver, runOn_bind (runOn_printLine _), runOn_pure]
  · rw [hprinted]

/-- **A name of no entry is refused**, and nothing is written, printed or logged. -/
theorem runOn_prove_unknown (hread : s.read file = .ok text)
    (hdoc : Document.ofText text = .ok d) (hname : ∀ e ∈ d.record.entries, e.name.text ≠ name)
    (out : Option String) :
    (prove file name withSignals out).runOn filter s
      = (.error ⟨[(if withSignals then "cannot build signals for " else "cannot prove ")
          ++ quoted name], .record (.entryNotFound name)⟩, s) := by
  have hentry : ¬ (d.record.get? name).isSome = true := by
    rw [Record.get?_eq_none hname]
    exact Bool.false_ne_true
  rw [prove, runOn_bind (runOn_readDocument hread hdoc), if_neg hentry,
    Record.evidence_eq_error hname, runOn_bind_error (runOn_require_error _ _ _)]

/-! ## Checking -/

/-- **Valid evidence for a name is accepted**, also with the name, and refused for a name with
another hash. -/
theorem runOn_check (hread : s.read file = .ok text) (hev : Evidence.ofText text = .ok ev)
    (hvalid : ev.isValid = true) (hname : ev.nameHash = textDigest name) :
    ((check file none).runOn filter s).1 = .ok 0
      ∧ ((check file (some name)).runOn filter s).1 = .ok 0
      ∧ ∀ other, textDigest other ≠ textDigest name →
        ((check file (some other)).runOn filter s).1 = .ok 1 := by
  have hchecked : ¬ (!ev.isValid) = true := by
    rw [hvalid]
    exact Bool.false_ne_true
  have hfor : ev.isFor name = true := beq_iff_eq.mpr hname
  refine ⟨?_, ?_, ?_⟩
  · rw [check, runOn_bind (runOn_readEvidence hread hev), if_neg hchecked, Option.filter_none,
      runOn_bind (runOn_printLine _), runOn_pure]
  · have hfilter : (some name).filter (fun name => !ev.isFor name) = none := by
      rw [Option.filter_some_neg]
      rw [hfor]
      rfl
    rw [check, runOn_bind (runOn_readEvidence hread hev), if_neg hchecked, hfilter,
      runOn_bind (runOn_printLine _), runOn_pure]
  · intro other hother
    have hnot : ev.isFor other = false := by
      rw [Evidence.isFor, hname]
      exact beq_false_of_ne hother.symm
    have hfilter : (some other).filter (fun name => !ev.isFor name) = some other := by
      rw [Option.filter_some_pos]
      rw [hnot]
      rfl
    rw [check, runOn_bind (runOn_readEvidence hread hev), if_neg hchecked, hfilter,
      runOn_bind (runOn_printLine _), runOn_pure]

/-! ## Both commands -/

/-- **What is proved is accepted.**  Let a file hold a document whose leaves are counted by machine
words.  For the name of an entry, `prove` delivers a text, with signals or without: to a file that
can be read from, and nothing else is changed, or to the reader.  In every session in which a path
reads as that text, `check` accepts it, also for the name, and refuses it for a name with another
hash.  For any other name `prove` fails and writes nothing. -/
theorem prove_then_check (hread : s.read file = .ok text) (hdoc : Document.ofText text = .ok d)
    (hsize : d.record.size ≤ 2 ^ 63) (filter : LogFilter) (withSignals : Bool) :
    (∀ e ∈ d.record.entries, ∃ written : String,
      (∀ out, s.Keeps out → ∃ place after,
        (prove file e.name.text withSignals (some out)).runOn filter s = (.ok 0, after)
        ∧ s.resolve out = .ok place
        ∧ after.nodes = (s.put place (.file written.toUTF8)).nodes
        ∧ after.read out = .ok written)
      ∧ (∃ after, (prove file e.name.text withSignals none).runOn filter s = (.ok 0, after)
        ∧ after.nodes = s.nodes ∧ after.printed = s.printed ++ written)
      ∧ ∀ t path filter', Session.read t path = .ok written →
        ((check path none).runOn filter' t).1 = .ok 0
        ∧ ((check path (some e.name.text)).runOn filter' t).1 = .ok 0
        ∧ ∀ other, textDigest other ≠ textDigest e.name.text →
          ((check path (some other)).runOn filter' t).1 = .ok 1)
    ∧ ∀ name, (∀ e ∈ d.record.entries, e.name.text ≠ name) → ∀ out,
      ∃ failure, (prove file name withSignals out).runOn filter s = (.error failure, s)
        ∧ failure.cause = .record (.entryNotFound name) := by
  constructor
  · intro e he
    obtain ⟨ev, hev, hvalid, hname, hindex⟩ := Record.evidence_complete he withSignals
    have htext : ev.fieldJson.HasText (ev.toJson.prettyText ++ "\n") :=
      (Json.HasText.texts (.inr ev.ordered_fieldJson.symm)).2.2
    have hback : Evidence.ofText (ev.toJson.prettyText ++ "\n") = .ok ev :=
      Evidence.ofText_of_hasText (hindex hsize) htext
    refine ⟨ev.toJson.prettyText ++ "\n", ?_, runOn_prove_printed hread hdoc he hev, ?_⟩
    · intro out hout
      exact runOn_prove_file hread hdoc he hev hout
    · intro t path filter' ht
      exact runOn_check ht hback hvalid hname
  · intro name hname out
    exact ⟨_, runOn_prove_unknown hread hdoc hname out, rfl⟩

/-- A record of one negative integer, proved to a file with signals. -/
theorem prove_then_check_single :
    let r := Record.single ⟨⟨"age", by decide⟩, .int (-30)⟩ trivial
    let s := ({} : Session).put ["tmp", "work", "age.json"] (.file r.toText.toUTF8)
    let filter := LogFilter.upTo .warn
    s.read "age.json" = .ok r.toText
      ∧ Document.ofText r.toText = .ok (.unsigned r) ∧ r.size ≤ 2 ^ 63 ∧ s.Keeps "proof.json"
      ∧ textDigest "name" ≠ textDigest "age"
      ∧ ∃ after, (prove "age.json" "age" true (some "proof.json")).runOn filter s = (.ok 0, after)
        ∧ ((check "proof.json" (some "age")).runOn filter after).1 = .ok 0
        ∧ ((check "proof.json" (some "name")).runOn filter after).1 = .ok 1 := by
  intro r s filter
  have hread : s.read "age.json" = .ok r.toText := by
    have hkeeps : Session.Keeps {} "age.json" := .of_walk rfl (by decide) rfl rfl
    obtain ⟨place, hplace, -, hback⟩ := hkeeps.write_eq r.toText
    obtain rfl : ["tmp", "work", "age.json"] = place := Except.ok.inj hplace
    exact hback
  have hdoc : Document.ofText r.toText = .ok (.unsigned r) := by
    have hkeys : ∀ e ∈ r.entries, e.value.Obtainable := by
      intro e he
      rw [List.mem_singleton.mp he]
      trivial
    have hjson : Json.read? r.toText = some r.toJson := by
      rw [Record.toText, Json.read?_text (r.plain_toJson 125), r.ordered_toJson]
    have hsigned : Document.isSigned r.toJson = false := by
      rw [r.toJson_eq]
      rfl
    have hr : Record.ofText r.toText = .ok r :=
      (Record.Obtainable.ofEntries r.ofEntries_entries hkeys).ofText_toText
    simp only [Document.ofText, hjson, hsigned, hr]
    rfl
  have hsize : r.size ≤ 2 ^ 63 := by decide
  have hkeeps : s.Keeps "proof.json" := .of_walk rfl (by decide) rfl rfl
  have hother : textDigest "name" ≠ textDigest "age" := by decide +kernel
  obtain ⟨hproved, -⟩ := prove_then_check hread hdoc hsize filter true
  obtain ⟨written, hfile, -, hcheck⟩ := hproved _ (List.mem_singleton_self _)
  obtain ⟨place, after, hprove, -, -, hback⟩ := hfile "proof.json" hkeeps
  obtain ⟨-, hname, hnot⟩ := hcheck after "proof.json" filter hback
  exact ⟨hread, hdoc, hsize, hkeeps, hother, after, hprove, hname, hnot "name" hother⟩

end ProvableRecord.Command.Task
