import ProvableRecord.Hash.Poseidon.Grain

/-!
# The Poseidon hash

A permutation of a row of field elements, built from rounds: add constants, raise cells to the fifth
power, multiply by a matrix.  Four full rounds raise every cell, then the partial rounds raise only
the first, then four more full rounds follow.  To hash `n` elements the permutation of width `n + 1`
is applied to a zero followed by the elements, and the first cell is the hash.

`hash1`, `hash2` and `hash5` are the arities that records and signatures use; `hash?` covers all
arities that have parameters.
-/

namespace ProvableRecord.Poseidon

/-- The constants of one width. -/
structure Parameters where
  /-- One row of added constants per round. -/
  rounds : List (List Fp)
  /-- The matrix of the linear layer, by rows. -/
  matrix : List (List Fp)

/-- Half the number of full rounds: this many come before the partial rounds and this many after. -/
def halfFullRounds : Nat := 4

/-- Cuts a list into rows of a given length. -/
def cutRows (width : Nat) : (count : Nat) → List Fp → List (List Fp)
  | 0, _ => []
  | count + 1, xs => xs.take width :: cutRows width count (xs.drop width)

/-- The Cauchy matrix of two rows: the inverses of all sums. -/
def cauchy (xs ys : List Fp) : List (List Fp) := xs.map fun x => ys.map fun y => (x + y).inv

/-- Draws the constants of a width with the given number of partial rounds. -/
def Parameters.generate (width partialRounds : Nat) : Parameters :=
  let count := 2 * halfFullRounds + partialRounds
  let (constants, r) := Grain.drawElements (64 * width * count) (width * count)
    (Grain.seed width (2 * halfFullRounds) partialRounds)
  let (xs, r) := Grain.drawResidues width r
  let (ys, _) := Grain.drawResidues width r
  ⟨cutRows width count constants, cauchy xs ys⟩

/-- The fifth power. -/
def fifth (x : Fp) : Fp :=
  let square := x * x
  square * square * x

/-- The linear layer. -/
def mix (matrix : List (List Fp)) (state : List Fp) : List Fp :=
  matrix.map fun row => Fp.dot row state

/-- A round that raises every cell. -/
def fullRound (matrix : List (List Fp)) (state constants : List Fp) : List Fp :=
  mix matrix (List.zipWith (fun x c => fifth (x + c)) state constants)

/-- Raises the first cell of a row. -/
def raiseFirst : List Fp → List Fp
  | [] => []
  | x :: xs => fifth x :: xs

/-- A round that raises the first cell only. -/
def partialRound (matrix : List (List Fp)) (state constants : List Fp) : List Fp :=
  mix matrix (raiseFirst (List.zipWith (· + ·) state constants))

/-- The permutation. -/
def permute (p : Parameters) (state : List Fp) : List Fp :=
  let head := p.rounds.take halfFullRounds
  let rest := p.rounds.drop halfFullRounds
  let middle := rest.take (rest.length - halfFullRounds)
  let tail := rest.drop (rest.length - halfFullRounds)
  let state := head.foldl (fullRound p.matrix) state
  let state := middle.foldl (partialRound p.matrix) state
  tail.foldl (fullRound p.matrix) state

/-- The hash of a row under the parameters of its width. -/
def digest (p : Parameters) (inputs : List Fp) : Fp := (permute p (0 :: inputs)).headD 0

def parameters2 : Parameters := .generate 2 56

def parameters3 : Parameters := .generate 3 57

def parameters6 : Parameters := .generate 6 60

/-- The hash of one element. -/
def hash1 (a : Fp) : Fp := digest parameters2 [a]

/-- The hash of two elements. -/
def hash2 (a b : Fp) : Fp := digest parameters3 [a, b]

/-- The hash of five elements. -/
def hash5 (a b c d e : Fp) : Fp := digest parameters6 [a, b, c, d, e]

/-- The parameters of the widths 2 to 13, each drawn when first asked for. -/
def allParameters : List (Thunk Parameters) :=
  [56, 57, 56, 60, 60, 63, 64, 63, 60, 66, 60, 65].mapIdx fun i partialRounds =>
    Thunk.mk fun _ => .generate (i + 2) partialRounds

/-- The hash of one to twelve elements. -/
def hash? : List Fp → Option Fp
  | [] => none
  | x :: xs => allParameters[xs.length]?.map fun p => digest p.get (x :: xs)

theorem hash?_one (a : Fp) : hash? [a] = some (hash1 a) := by
  simp [hash?, allParameters, hash1, parameters2, Thunk.get]

theorem hash?_two (a b : Fp) : hash? [a, b] = some (hash2 a b) := by
  simp [hash?, allParameters, hash2, parameters3, Thunk.get]

/-- The hash behind the challenge of a signature is that of the list of its five elements. -/
theorem hash?_five (a b c d e : Fp) : hash? [a, b, c, d, e] = some (hash5 a b c d e) := by
  simp [hash?, allParameters, hash5, parameters6, Thunk.get]

end ProvableRecord.Poseidon
