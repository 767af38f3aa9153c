import ProvableRecord.Curve.Packing
import ProvableRecord.Curve.Projective
import ProvableRecord.Hash.Blake512
import ProvableRecord.Text.Blank
import ProvableRecord.Text.FixedBytes

/-!
# Keys

A private key is any thirty-two bytes.  Its BLAKE-512 digest gives a scalar, pruned to a multiple of
eight of fixed length, and a seed for nonces.  The public key is the base point times an eighth of
the scalar, stored in packed form.
-/

namespace ProvableRecord

/-- A private key: thirty-two bytes of any value. -/
structure PrivateKey where
  bytes : Bytes 32
deriving DecidableEq

/-- A public key: a point of the curve. -/
structure PublicKey where
  point : Point
deriving DecidableEq

/-- What a private key expands to. -/
structure ExpandedKey where
  /-- The bytes hashed in front of a message for its nonce. -/
  seed : List UInt8
  /-- A multiple of eight. -/
  scalar : Nat
  /-- The point of the public key. -/
  point : Point

namespace PrivateKey

/-- Reads the text of a private key, with blanks around it allowed. -/
def ofText (text : String) : Except PrimitiveError PrivateKey :=
  (Bytes.ofText 32 (Text.trimBlank text) "private key").map PrivateKey.mk

/-- The Base64 text of the key. -/
def toText (k : PrivateKey) : String := k.bytes.toText

/-- How a private key shows in diagnostic text: not at all. -/
def redacted : String := "PrivateKey(<private>)"

/-- Clears the three lowest and the highest of 256 bits and sets the second highest. -/
def prune (n : Nat) : Nat := (1 <<< 254) + n / 8 % (1 <<< 251) * 8

/-- The scalar, the nonce seed and the public point of the key. -/
def expand (k : PrivateKey) : ExpandedKey :=
  let digest := Blake512.digest k.bytes.toList
  let scalar := prune (ofLittleEndian (digest.take 32))
  ⟨digest.drop 32, scalar, Point.base.mul (scalar / 8)⟩

/-- The public key of a private key. -/
def publicKey (k : PrivateKey) : PublicKey := ⟨k.expand.point⟩

end PrivateKey

namespace PublicKey

/-- The packed form of the key. -/
def bytes (k : PublicKey) : Bytes 32 := k.point.pack

/-- Reads the packed form of a key. -/
def ofBytes (b : Bytes 32) : Except PrimitiveError PublicKey := (Point.unpack b).map PublicKey.mk

/-- Reads the text of a packed key. -/
def ofText (text : String) : Except PrimitiveError PublicKey :=
  Bytes.ofText 32 text "public key" >>= ofBytes

/-- The Base64 text of the packed key. -/
def toText (k : PublicKey) : String := k.bytes.toText

/-- How a public key shows in diagnostic text. -/
def diagnostic (k : PublicKey) : String := "PublicKey(" ++ k.toText ++ ")"

end PublicKey

end ProvableRecord
