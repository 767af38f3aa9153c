import ProvableRecord.Record.Signals

/-!
# Evidence for an entry

What a prover hands over for one entry is either a bare proof or signals, which hold a proof and the
hashes it leads from.  As JSON the two are told apart by whether there is a member `proof` that is
an object.
-/

namespace ProvableRecord

/-- Evidence that a record has an entry. -/
inductive Evidence where
  | proof (p : Merkle.Proof)
  | signals (s : Signals)
deriving DecidableEq

/-- Why a text is no evidence. -/
inductive EvidenceFault where
  | notJson
  /-- The JSON should be a bare proof. -/
  | proof (e : ReadError NotDecimal)
  /-- The JSON should be signals. -/
  | signals (e : ReadError NotDecimal)
deriving DecidableEq

namespace Evidence

/-- Reads evidence from a JSON value. -/
def ofJson (v : Json) : Except EvidenceFault Evidence :=
  if (v.member? "proof").any Json.isObject then
    ((Signals.decoder.fromValue v).map signals).mapError .signals
  else ((Merkle.Proof.decoder.fromValue v).map proof).mapError .proof

/-- Reads evidence from a JSON text. -/
def ofText (text : String) : Except EvidenceFault Evidence :=
  match Json.read? text with
  | some v => ofJson v
  | none => .error .notJson

/-- Evidence as a JSON value. -/
def toJson : Evidence → Json
  | proof p => p.toJson
  | signals s => s.toJson

/-- Whether the evidence holds together by itself. -/
def isValid : Evidence → Bool
  | proof p => p.verify
  | signals s => s.isConsistent

/-- The leaf that stands for the name of the entry. -/
def nameHash : Evidence → Nat
  | proof p => p.leaf
  | signals s => s.nameHash

/-- Whether the evidence is for an entry of the given name. -/
def isFor (e : Evidence) (name : String) : Bool := e.nameHash == textDigest name

end Evidence

/-- Evidence for an entry of a record, with signals or without. -/
def Record.evidence (r : Record) (name : String) (withSignals : Bool) :
    Except RecordError Evidence :=
  if withSignals then (r.signals name).map .signals else (r.prove name).map .proof

end ProvableRecord
