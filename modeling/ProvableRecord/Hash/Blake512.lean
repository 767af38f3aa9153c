import ProvableRecord.Bytes

/-!
# BLAKE-512

The 512-bit member of the BLAKE family, with sixteen rounds and no salt.  A block is 128 bytes; each
is mixed into eight 64-bit chaining words together with the number of message bits read so far.
-/

namespace ProvableRecord.Blake512

/-- The initial chaining words: the first 64 bits of the fractional parts of the square roots of
the first eight primes. -/
def initial : List UInt64 :=
  [0x6a09e667f3bcc908, 0xbb67ae8584caa73b, 0x3c6ef372fe94f82b, 0xa54ff53a5f1d36f1,
   0x510e527fade682d1, 0x9b05688c2b3e6c1f, 0x1f83d9abfb41bd6b, 0x5be0cd19137e2179]

/-- The constants mixed with message words: leading digits of pi. -/
def constants : Array UInt64 :=
  #[0x243f6a8885a308d3, 0x13198a2e03707344, 0xa4093822299f31d0, 0x082efa98ec4e6c89,
    0x452821e638d01377, 0xbe5466cf34e90c6c, 0xc0ac29b7c97c50dd, 0x3f84d5b5b5470917,
    0x9216d5d98979fb1b, 0xd1310ba698dfb5ac, 0x2ffd72dbd01adfb7, 0xb8e1afed6a267e96,
    0xba7c9045f12c7f99, 0x24a19947b3916cf7, 0x0801f2e2858efc16, 0x636920d871574e69]

/-- The order in which each round takes the sixteen message words, in pairs. -/
def permutations : List (List (Nat × Nat)) :=
  [[(0, 1), (2, 3), (4, 5), (6, 7), (8, 9), (10, 11), (12, 13), (14, 15)],
   [(14, 10), (4, 8), (9, 15), (13, 6), (1, 12), (0, 2), (11, 7), (5, 3)],
   [(11, 8), (12, 0), (5, 2), (15, 13), (10, 14), (3, 6), (7, 1), (9, 4)],
   [(7, 9), (3, 1), (13, 12), (11, 14), (2, 6), (5, 10), (4, 0), (15, 8)],
   [(9, 0), (5, 7), (2, 4), (10, 15), (14, 1), (11, 12), (6, 8), (3, 13)],
   [(2, 12), (6, 10), (0, 11), (8, 3), (4, 13), (7, 5), (15, 14), (1, 9)],
   [(12, 5), (1, 15), (14, 13), (4, 10), (0, 7), (6, 3), (9, 2), (8, 11)],
   [(13, 11), (7, 14), (12, 1), (3, 9), (5, 0), (15, 4), (8, 6), (2, 10)],
   [(6, 15), (14, 9), (11, 3), (0, 8), (12, 2), (13, 7), (1, 4), (10, 5)],
   [(10, 2), (8, 4), (7, 6), (1, 5), (15, 11), (9, 14), (3, 12), (13, 0)]]

/-- The cells of the four columns and the four diagonals that a round mixes in turn. -/
def lanes : List (Nat × Nat × Nat × Nat) :=
  [(0, 4, 8, 12), (1, 5, 9, 13), (2, 6, 10, 14), (3, 7, 11, 15),
   (0, 5, 10, 15), (1, 6, 11, 12), (2, 7, 8, 13), (3, 4, 9, 14)]

/-- Rotation to the right. -/
def rotr (x n : UInt64) : UInt64 := (x >>> n) ||| (x <<< (64 - n))

/-- Mixes one lane with the pair of message words that the round assigns to it. -/
def mixLane (message v : Array UInt64) (lane : Nat × Nat × Nat × Nat) (pair : Nat × Nat) :
    Array UInt64 :=
  let (ia, ib, ic, id) := lane
  let (j, k) := pair
  let a := v.getD ia 0
  let b := v.getD ib 0
  let c := v.getD ic 0
  let d := v.getD id 0
  let a := a + b + (message.getD j 0 ^^^ constants.getD k 0)
  let d := rotr (d ^^^ a) 32
  let c := c + d
  let b := rotr (b ^^^ c) 25
  let a := a + b + (message.getD k 0 ^^^ constants.getD j 0)
  let d := rotr (d ^^^ a) 16
  let c := c + d
  let b := rotr (b ^^^ c) 11
  (((v.setIfInBounds ia a).setIfInBounds ib b).setIfInBounds ic c).setIfInBounds id d

/-- One round: columns, then diagonals. -/
def round (message v : Array UInt64) (pairs : List (Nat × Nat)) : Array UInt64 :=
  (lanes.zip pairs).foldl (fun v lp => mixLane message v lp.1 lp.2) v

/-- The pairings of the sixteen rounds: the ten in order, then the first six again. -/
def schedule : List (List (Nat × Nat)) := permutations ++ permutations.take 6

/-- The 64-bit words of a byte string, high byte first. -/
def words : (count : Nat) → List UInt8 → List UInt64
  | 0, _ => []
  | count + 1, bytes => UInt64.ofNat (ofBigEndian (bytes.take 8)) :: words count (bytes.drop 8)

/-- Folds one block into the chaining words; `counter` is the number of message bits up to the end
of this block, or zero for a block that holds padding only. -/
def compress (chain : List UInt64) (block : List UInt8) (counter : Nat) : List UInt64 :=
  let low := UInt64.ofNat counter
  let high := UInt64.ofNat (counter >>> 64)
  let start := chain ++ (List.range 4).map (fun i => constants.getD i 0) ++
    [low ^^^ constants.getD 4 0, low ^^^ constants.getD 5 0,
     high ^^^ constants.getD 6 0, high ^^^ constants.getD 7 0]
  let message := (words 16 block).toArray
  let v := schedule.foldl (round message) start.toArray
  chain.mapIdx fun i h => h ^^^ v.getD i 0 ^^^ v.getD (i + 8) 0

/-- The message, a set bit, zeros, a set bit that ends the byte before the length, and the length
in bits in sixteen bytes; the whole is a multiple of 128 bytes. -/
def pad (message : List UInt8) : List UInt8 :=
  let zeros := (239 - message.length % 128) % 128
  let marker := if zeros = 0 then [0x81] else 0x80 :: List.replicate (zeros - 1) 0 ++ [0x01]
  message ++ marker ++ bigEndian 16 (8 * message.length)

/-- Folds `count` blocks, of which `left` message bytes are still to come and `seen` were read. -/
def compressBlocks : (count seen left : Nat) → List UInt64 → List UInt8 → List UInt64
  | 0, _, _, chain, _ => chain
  | count + 1, seen, left, chain, bytes =>
    let here := min left 128
    let counter := if here = 0 then 0 else 8 * (seen + here)
    compressBlocks count (seen + here) (left - here)
      (compress chain (bytes.take 128) counter) (bytes.drop 128)

/-- The digest of a byte string: the eight chaining words, high byte first. -/
def digest (message : List UInt8) : List UInt8 :=
  let padded := pad message
  (compressBlocks (padded.length / 128) 0 message.length initial padded).flatMap
    fun word => bigEndian 8 word.toNat

end ProvableRecord.Blake512
