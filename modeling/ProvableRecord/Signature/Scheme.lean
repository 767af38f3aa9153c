import ProvableRecord.Hash.Poseidon
import ProvableRecord.Signature.Key

/-!
# Signatures

A signature on a field element is a packed nonce point `R` and a response scalar `s`.  The challenge
`h` is the hash of `R`, the public key `A` and the message, and the signature is accepted when `s`
times the base point equals `R` plus `8 h` times `A`.  The response must be below the subgroup
order, so it has one encoding.
-/

namespace ProvableRecord

/-- A signature: the packed nonce point and the response, low byte first. -/
structure Signature where
  nonce : Bytes 32
  response : Bytes 32
deriving DecidableEq

namespace Signature

/-- The sixty-four bytes of a signature. -/
def bytes (s : Signature) : Bytes 64 := s.nonce.append s.response

/-- The signature in sixty-four bytes, whatever they are. -/
def ofBytes (b : Bytes 64) : Signature := ⟨b.front (m := 32) (n := 32), b.back (m := 32) (n := 32)⟩

/-- Reads the text of a signature. -/
def ofText (text : String) : Except PrimitiveError Signature :=
  (Bytes.ofText 64 text "signature").map ofBytes

/-- The Base64 text of a signature. -/
def toText (s : Signature) : String := s.bytes.toText

/-- How a signature shows in diagnostic text: the start of its text. -/
def diagnostic (s : Signature) : String :=
  "Signature(" ++ String.ofList (s.toText.toList.take 8) ++ "...)"

theorem bytes_ofBytes (b : Bytes 64) : (ofBytes b).bytes = b :=
  Bytes.append_front_back (m := 32) (n := 32) b

theorem ofBytes_bytes (s : Signature) : ofBytes s.bytes = s := by
  cases s
  simp [ofBytes, bytes, Bytes.front_append, Bytes.back_append]

end Signature

/-- The hash that binds a nonce point, a public point and a message. -/
def challenge (R A : Point) (message : Fp) : Fp := Poseidon.hash5 R.x R.y A.x A.y message

namespace PrivateKey

/-- The secret nonce for a message. -/
def nonce (k : ExpandedKey) (message : Fp) : Nat :=
  ofLittleEndian (Blake512.digest (k.seed ++ littleEndian 32 message.val)) % Curve.subgroupOrder

/-- Signs a field element. -/
def signElement (k : PrivateKey) (message : Fp) : Signature :=
  let key := k.expand
  let r := nonce key message
  let R := Point.base.mul r
  let h := challenge R key.point message
  ⟨R.pack, Bytes.ofNat 32 ((r + h.val * key.scalar) % Curve.subgroupOrder)⟩

/-- Signs a number, which must be a field element. -/
def sign (k : PrivateKey) (message : Nat) : Except PrimitiveError Signature :=
  match Fp.ofNat? message with
  | some m => .ok (k.signElement m)
  | none => .error (.notFieldElement message)

end PrivateKey

/-- The equation that a signature with nonce point `R` and response `s` has to satisfy. -/
def SignatureHolds (message : Fp) (R : Point) (s : Nat) (A : Point) : Prop :=
  Point.base.mul s = R + A.mul (8 * (challenge R A message).val)

instance (message : Fp) (R : Point) (s : Nat) (A : Point) :
    Decidable (SignatureHolds message R s A) := inferInstanceAs (Decidable (_ = _))

/-- Whether a signature on a number is valid under a public key. -/
def verify (message : Nat) (signature : Signature) (key : PublicKey) : Bool :=
  match Fp.ofNat? message, Point.unpack signature.nonce with
  | some m, .ok R =>
    let s := signature.response.toNat
    s < Curve.subgroupOrder && SignatureHolds m R s key.point
  | _, _ => false

end ProvableRecord
