import ProvableRecord.Bytes
import ProvableRecord.Command.Config
import ProvableRecord.Command.Directories
import ProvableRecord.Command.Execution
import ProvableRecord.Command.Log
import ProvableRecord.Command.Log.Filter
import ProvableRecord.Command.Path
import ProvableRecord.Command.Program
import ProvableRecord.Command.Request
import ProvableRecord.Command.Session
import ProvableRecord.Command.Session.Lemmas
import ProvableRecord.Command.Workspace
import ProvableRecord.Curve.Packing
import ProvableRecord.Curve.Point
import ProvableRecord.Curve.Projective
import ProvableRecord.Doubling
import ProvableRecord.Field
import ProvableRecord.Field.SquareRoot
import ProvableRecord.Hash.Blake512
import ProvableRecord.Hash.Poseidon
import ProvableRecord.Hash.Poseidon.Grain
import ProvableRecord.Hash.Sha256
import ProvableRecord.Json.Decoder
import ProvableRecord.Json.Number.Binary64
import ProvableRecord.Json.Number.Numeral
import ProvableRecord.Json.Number.Shortest
import ProvableRecord.Json.Printer
import ProvableRecord.Json.Reader
import ProvableRecord.Json.Value
import ProvableRecord.Main
import ProvableRecord.Merkle.Proof
import ProvableRecord.Merkle.ProofJson
import ProvableRecord.Merkle.Tree
import ProvableRecord.PrimitiveError
import ProvableRecord.Proofs.Bytes
import ProvableRecord.Proofs.Command.Load
import ProvableRecord.Proofs.Command.ProveCheck
import ProvableRecord.Proofs.Command.Run
import ProvableRecord.Proofs.Curve.Edwards
import ProvableRecord.Proofs.Curve.Encoding
import ProvableRecord.Proofs.Curve.Generator
import ProvableRecord.Proofs.Curve.Group
import ProvableRecord.Proofs.Curve.Multiple
import ProvableRecord.Proofs.Curve.Order
import ProvableRecord.Proofs.Curve.Packing
import ProvableRecord.Proofs.Curve.Reachable
import ProvableRecord.Proofs.Curve.Scalar
import ProvableRecord.Proofs.Doubling
import ProvableRecord.Proofs.Except
import ProvableRecord.Proofs.Field.Prime
import ProvableRecord.Proofs.Field.Residue
import ProvableRecord.Proofs.Field.SquareRoot
import ProvableRecord.Proofs.Hash.Degree
import ProvableRecord.Proofs.Hash.Grain
import ProvableRecord.Proofs.Json.Coherence
import ProvableRecord.Proofs.Json.Decoder
import ProvableRecord.Proofs.Json.Fuel
import ProvableRecord.Proofs.Json.Level
import ProvableRecord.Proofs.Json.Members
import ProvableRecord.Proofs.Json.Ordered
import ProvableRecord.Proofs.Json.RoundTrip
import ProvableRecord.Proofs.Json.Token
import ProvableRecord.Proofs.Latest
import ProvableRecord.Proofs.Merkle.Directions
import ProvableRecord.Proofs.Merkle.Growth
import ProvableRecord.Proofs.Merkle.Levels
import ProvableRecord.Proofs.Merkle.Membership
import ProvableRecord.Proofs.Merkle.Pairs
import ProvableRecord.Proofs.Merkle.Path
import ProvableRecord.Proofs.Merkle.PositionBinding
import ProvableRecord.Proofs.Merkle.Split
import ProvableRecord.Proofs.Record.Binding
import ProvableRecord.Proofs.Record.Canonical
import ProvableRecord.Proofs.Record.Capacity
import ProvableRecord.Proofs.Record.Depth
import ProvableRecord.Proofs.Record.Derivation
import ProvableRecord.Proofs.Record.Digest
import ProvableRecord.Proofs.Record.Dispatch
import ProvableRecord.Proofs.Record.EntryProof
import ProvableRecord.Proofs.Record.EvidenceText
import ProvableRecord.Proofs.Record.Grammar
import ProvableRecord.Proofs.Record.Index
import ProvableRecord.Proofs.Record.Leaves
import ProvableRecord.Proofs.Record.Listing
import ProvableRecord.Proofs.Record.Queries
import ProvableRecord.Proofs.Record.RoundTrip
import ProvableRecord.Proofs.Record.SignalNumbers
import ProvableRecord.Proofs.Record.Signals
import ProvableRecord.Proofs.Record.SignedRoundTrip
import ProvableRecord.Proofs.Record.Soundness
import ProvableRecord.Proofs.Record.ValueGrammar
import ProvableRecord.Proofs.Signature.Completeness
import ProvableRecord.Proofs.Signature.Keys
import ProvableRecord.Proofs.Signature.MessageBinding
import ProvableRecord.Proofs.Signature.NoncePoint
import ProvableRecord.Proofs.Signature.Text
import ProvableRecord.Proofs.Signature.Verification
import ProvableRecord.Proofs.Text.Base64
import ProvableRecord.Proofs.Text.ByteOrder
import ProvableRecord.Proofs.Text.Decimal
import ProvableRecord.Proofs.Text.FixedBytes
import ProvableRecord.Proofs.Text.Grammar
import ProvableRecord.Proofs.Text.Hex
import ProvableRecord.Record.Basic
import ProvableRecord.Record.Capacity
import ProvableRecord.Record.Commitment
import ProvableRecord.Record.Digest
import ProvableRecord.Record.Document
import ProvableRecord.Record.Entries
import ProvableRecord.Record.Error
import ProvableRecord.Record.Evidence
import ProvableRecord.Record.Name
import ProvableRecord.Record.NameJson
import ProvableRecord.Record.Signals
import ProvableRecord.Record.Signed
import ProvableRecord.Record.Value
import ProvableRecord.Record.ValueJson
import ProvableRecord.Signature.Key
import ProvableRecord.Signature.KeyJson
import ProvableRecord.Signature.Scheme
import ProvableRecord.Text.Alphanumeric
import ProvableRecord.Text.Base64
import ProvableRecord.Text.Blank
import ProvableRecord.Text.Decimal
import ProvableRecord.Text.FixedBytes
import ProvableRecord.Text.Hex
import ProvableRecord.Text.Quoted
import ProvableRecord.Text.Quoted.Hidden
import ProvableRecord.Text.Ranges
