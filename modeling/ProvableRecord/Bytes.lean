/-!
# Byte strings of a fixed length

`Bytes n` is a list of exactly `n` bytes.  Numbers are laid out with the low byte first by
`littleEndian` and with the high byte first by `bigEndian`; `ofLittleEndian` reads the first layout
back.
-/

namespace ProvableRecord

/-- The low `count` bytes of a number, lowest first. -/
def littleEndian : (count : Nat) → Nat → List UInt8
  | 0, _ => []
  | count + 1, n => UInt8.ofNat n :: littleEndian count (n / 256)

/-- The low `count` bytes of a number, highest first. -/
def bigEndian (count n : Nat) : List UInt8 := (littleEndian count n).reverse

/-- The number whose bytes are given, lowest first. -/
def ofLittleEndian : List UInt8 → Nat
  | [] => 0
  | b :: bs => b.toNat + 256 * ofLittleEndian bs

/-- The number whose bytes are given, highest first. -/
def ofBigEndian (bs : List UInt8) : Nat := bs.foldl (fun n b => 256 * n + b.toNat) 0

@[simp]
theorem length_littleEndian (count n : Nat) : (littleEndian count n).length = count := by
  induction count generalizing n with
  | zero => rfl
  | succ count ih => simp [littleEndian, ih]

/-- A list of exactly `n` bytes. -/
structure Bytes (n : Nat) where
  toList : List UInt8
  length_toList : toList.length = n
deriving DecidableEq

namespace Bytes

@[ext]
theorem ext {n : Nat} {a b : Bytes n} (h : a.toList = b.toList) : a = b := by
  cases a; cases b; cases h; rfl

/-- A list of bytes as a byte string of length `n`, if that is its length. -/
def ofList? (n : Nat) (bs : List UInt8) : Option (Bytes n) :=
  if h : bs.length = n then some ⟨bs, h⟩ else none

/-- The low `n` bytes of a number, lowest first. -/
def ofNat (n value : Nat) : Bytes n := ⟨littleEndian n value, length_littleEndian n value⟩

/-- The number whose bytes these are, lowest first. -/
def toNat {n : Nat} (b : Bytes n) : Nat := ofLittleEndian b.toList

/-- The two byte strings one after the other. -/
def append {m n : Nat} (a : Bytes m) (b : Bytes n) : Bytes (m + n) :=
  ⟨a.toList ++ b.toList, by simp [a.length_toList, b.length_toList]⟩

/-- The first `m` of `m + n` bytes. -/
def front {m n : Nat} (b : Bytes (m + n)) : Bytes m :=
  ⟨b.toList.take m, by simp [b.length_toList]⟩

/-- The last `n` of `m + n` bytes. -/
def back {m n : Nat} (b : Bytes (m + n)) : Bytes n :=
  ⟨b.toList.drop m, by simp [b.length_toList]⟩

theorem front_append {m n : Nat} (a : Bytes m) (b : Bytes n) : (a.append b).front = a :=
  Bytes.ext (by simp [front, append, a.length_toList])

theorem back_append {m n : Nat} (a : Bytes m) (b : Bytes n) : (a.append b).back = b :=
  Bytes.ext (by simp [back, append, a.length_toList])

theorem append_front_back {m n : Nat} (b : Bytes (m + n)) : b.front.append b.back = b :=
  Bytes.ext (by simp [front, back, append])

end Bytes

end ProvableRecord
