import Mathlib.Data.Nat.Bitwise
import ProvableRecord.Hash.Poseidon

/-!
# The output of the Grain generator

A register shifts through a stream of bits in which every bit after the first eighty is the sum of
six bits before it (`Recurs`).  A number whose binary digits satisfy the recurrence, and whose first
eighty digits are those of the register, therefore holds all that the register puts out
(`Holds.emits`).  Whether a number satisfies the recurrence is one comparison of long numbers
(`recursTest`), however many bits it has.

Drawing from a register is then reading from a number: `readBits` takes the bits that `drawBits`
draws (`drawBits_eq`), `skipElements` passes over the constants that `drawElements` draws, and
`readNumbers` reads the numbers that `drawResidues` draws.  Reading is what the kernel can do, and
with it the matrix of the permutation of width six is known (`parameters6_eq`).
-/

namespace ProvableRecord.Poseidon

namespace Grain

/-! ## Streams -/

/-- The sum of the six taps of a stream at a position. -/
def tapBit (s i : ℕ) : Bool :=
  s.testBit (62 + i) ^^ (s.testBit (51 + i) ^^ (s.testBit (38 + i) ^^ (s.testBit (23 + i)
    ^^ (s.testBit (13 + i) ^^ s.testBit i))))

/-- The `n` bits after the first eighty are the sums of the taps before them. -/
def Recurs (s n : ℕ) : Prop := ∀ i < n, s.testBit (80 + i) = tapBit s i

/-- The sums of the taps at all positions. -/
def taps (s : ℕ) : ℕ :=
  (s >>> 62) ^^^ ((s >>> 51) ^^^ ((s >>> 38) ^^^ ((s >>> 23) ^^^ ((s >>> 13) ^^^ s))))

/-- Whether the bits of a stream are the sums of the taps before them. -/
def recursTest (s n : ℕ) : Bool := taps s % 2 ^ n == (s >>> 80) % 2 ^ n

theorem testBit_taps (s i : ℕ) : (taps s).testBit i = tapBit s i := by
  simp only [taps, tapBit, Nat.testBit_xor, Nat.testBit_shiftRight]

/-- **One comparison of long numbers shows that a stream satisfies the recurrence.** -/
theorem recurs_of_recursTest {s n : ℕ} (h : recursTest s n = true) : Recurs s n := by
  intro i hi
  have hbit := congrArg (fun m : ℕ => m.testBit i) (beq_iff_eq.mp h)
  simp only [Nat.testBit_mod_two_pow, hi, decide_true, Bool.true_and, testBit_taps,
    Nat.testBit_shiftRight] at hbit
  exact hbit.symm

theorem Recurs.shift {s n : ℕ} (h : Recurs s (n + 1)) : Recurs (s >>> 1) n := by
  intro i hi
  have hnext := h (1 + i) (by omega)
  simp only [tapBit, Nat.testBit_shiftRight, Nat.add_left_comm 1] at hnext ⊢
  exact hnext

/-! ## The register -/

namespace Register

/-- The register holds the first eighty bits of the stream, the first one as its oldest. -/
structure Holds (r : Register) (s : ℕ) : Prop where
  old : ∀ i < 16, r.old.toNat.testBit i = s.testBit (15 - i)
  new : ∀ i < 64, r.new.toNat.testBit i = s.testBit (79 - i)

variable {r : Register} {s : ℕ}

/-- The feedback is the sum of the taps of the stream. -/
theorem Holds.toNat_feedback (h : r.Holds s) : r.feedback.toNat = (tapBit s 0).toNat := by
  have hlow : ∀ n : ℕ, n &&& 1 = (n.testBit 0).toNat := fun n => by
    rw [Nat.and_one_is_mod, Nat.toNat_testBit, Nat.pow_zero, Nat.div_one]
  rw [Register.feedback, UInt64.toNat_and]
  refine (hlow _).trans (congrArg Bool.toNat ?_)
  simp only [UInt64.toNat_xor, UInt64.toNat_shiftRight, UInt64.reduceToNat, Nat.reduceMod,
    Nat.testBit_xor, Nat.testBit_shiftRight, Nat.add_zero, tapBit, h.new 17 (by decide),
    h.new 28 (by decide), h.new 41 (by decide), h.new 56 (by decide), h.old 2 (by decide),
    h.old 15 (by decide), Nat.reduceSub, Bool.xor_assoc]

theorem testBit_toNat (b : Bool) (i : ℕ) : b.toNat.testBit i = (b && decide (i = 0)) := by
  cases i with
  | zero => cases b <;> rfl
  | succ i => cases b <;> simp [Nat.testBit_succ]

/-- A step moves the register on by one bit. -/
theorem Holds.step (h : r.Holds s) (hs : s.testBit 80 = tapBit s 0) :
    r.step.Holds (s >>> 1) where
  old i hi := by
    have hmask : (65535 : ℕ).testBit i = true := by
      rw [show 65535 = 2 ^ 16 - 1 from rfl, Nat.testBit_two_pow_sub_one, decide_eq_true hi]
    have hword : i < 64 := by omega
    simp only [Register.step, UInt64.toNat_and, UInt64.toNat_or, UInt64.toNat_shiftRight,
      UInt64.toNat_shiftLeft, UInt64.reduceToNat, Nat.reduceMod, Nat.testBit_and, Nat.testBit_or,
      Nat.testBit_shiftRight, Nat.testBit_mod_two_pow, Nat.testBit_shiftLeft, hmask, hword,
      decide_true, Bool.true_and, Bool.and_true]
    cases i with
    | zero => simpa using h.new 63 (by decide)
    | succ i =>
      have hhigh : r.new.toNat.testBit (63 + (i + 1)) = false :=
        Nat.testBit_lt_two_pow
          (r.new.toNat_lt.trans_le (Nat.pow_le_pow_right (by decide) (by omega)))
      have hshift : 1 + (15 - (i + 1)) = 15 - i := by omega
      rw [hhigh, hshift, Nat.add_sub_cancel, h.old i (by omega)]
      simp
  new i hi := by
    simp only [Register.step, UInt64.toNat_or, UInt64.toNat_shiftLeft, UInt64.reduceToNat,
      Nat.reduceMod, Nat.testBit_or, Nat.testBit_mod_two_pow, Nat.testBit_shiftLeft,
      h.toNat_feedback, testBit_toNat, Nat.testBit_shiftRight, hi, decide_true, Bool.true_and]
    cases i with
    | zero => simpa using hs.symm
    | succ i =>
      have hshift : 1 + (79 - (i + 1)) = 79 - i := by omega
      rw [hshift, Nat.add_sub_cancel, h.new i (by omega)]
      simp

/-- The first `n` bits that the register puts out are the low digits of the number. -/
def Emits (r : Register) : (n : ℕ) → ℕ → Prop
  | 0, _ => True
  | n + 1, s => r.feedback.toNat = s % 2 ∧ r.step.Emits n (s / 2)

/-- **A register puts out the stream that it holds.** -/
theorem Holds.emits {n : ℕ} (h : r.Holds s) (hs : Recurs s n) : r.Emits n (s >>> 80) := by
  induction n generalizing r s with
  | zero => trivial
  | succ n ih =>
    have hnext : s.testBit 80 = tapBit s 0 := hs 0 (by omega)
    refine ⟨?_, ?_⟩
    · rw [h.toNat_feedback, ← hnext, Nat.toNat_testBit, Nat.shiftRight_eq_div_pow]
    · have hshift : (s >>> 80) / 2 = (s >>> 1) >>> 80 := by
        rw [← Nat.shiftRight_add, Nat.add_comm, Nat.shiftRight_add]
        rfl
      rw [hshift]
      exact ih (h.step hnext) hs.shift

/-- Running the register drops bits. -/
theorem Emits.run {m n : ℕ} (h : r.Emits (m + n) s) : (r.run m).Emits n (s >>> m) := by
  induction m generalizing r s with
  | zero =>
    rw [Nat.zero_add] at h
    exact h
  | succ m ih =>
    rw [Nat.succ_add] at h
    have hshift : s >>> (m + 1) = (s / 2) >>> m := by
      rw [Nat.add_comm, Nat.shiftRight_add]
      rfl
    rw [hshift]
    exact ih h.2

theorem Emits.mono {m n : ℕ} (h : r.Emits n s) (hmn : m ≤ n) : r.Emits m s := by
  induction m generalizing r s n with
  | zero => trivial
  | succ m ih =>
    obtain ⟨n, rfl⟩ := Nat.exists_eq_add_of_le' (Nat.one_le_of_lt hmn)
    exact ⟨h.1, ih h.2 (Nat.le_of_succ_le_succ hmn)⟩

/-- The same of a register that has run. -/
theorem Holds.emits_run {m n : ℕ} (h : r.Holds s) (hs : Recurs s (m + n)) :
    (r.run m).Emits n (s >>> (80 + m)) := by
  rw [Nat.shiftRight_add]
  exact (h.emits hs).run

/-- Digits above those that are put out do not matter. -/
theorem Emits.mod {m : ℕ} (h : r.Emits m s) : r.Emits m (s % 2 ^ m) := by
  induction m generalizing r s with
  | zero => trivial
  | succ m ih =>
    have hlow : s % 2 ^ (m + 1) % 2 = s % 2 :=
      Nat.mod_mod_of_dvd s (Dvd.intro_left (2 ^ m) (Nat.pow_succ ..).symm)
    have hhigh : s % 2 ^ (m + 1) / 2 = s / 2 % 2 ^ m := by
      rw [Nat.pow_succ, Nat.mul_comm, Nat.mod_mul_right_div_self]
    refine ⟨h.1.trans hlow.symm, ?_⟩
    rw [hhigh]
    exact ih h.2

end Register

/-! ## Drawing by reading -/

/-- Reads the bits that are drawn from a stream: of each pair of digits the second, if the first is
set.  With the value it gives how many pairs are left. -/
def readBits : (pairs count value s : ℕ) → Option (ℕ × ℕ)
  | pairs, 0, value, _ => some (value, pairs)
  | 0, _ + 1, _, _ => none
  -- the operations stand by name, because the kernel computes hundreds of thousands of them
  | pairs + 1, count + 1, value, s =>
    cond (Nat.beq (Nat.mod s 2) 1)
      (readBits pairs count (Nat.add (Nat.mul 2 value) (Nat.mod (Nat.div s 2) 2)) (Nat.div s 4))
      (readBits pairs (count + 1) value (Nat.div s 4))

theorem readBits_succ (pairs count value s : ℕ) :
    readBits (pairs + 1) (count + 1) value s =
      if s % 2 = 1 then readBits pairs count (2 * value + s / 2 % 2) (s / 4)
      else readBits pairs (count + 1) value (s / 4) := by
  rw [readBits, Bool.cond_eq_ite]
  simp only [Nat.beq_eq]
  rfl

theorem Register.feedback_eq_one_iff {r : Register} {b : ℕ} (h : r.feedback.toNat = b) :
    r.feedback = 1 ↔ b = 1 := by
  rw [← UInt64.toNat_inj, h]
  rfl

theorem drawBits_zero (fuel value : ℕ) (r : Register) : drawBits fuel 0 value r = (value, r) := by
  cases fuel <;> rfl

/-- **Bits are drawn as they are read.** -/
theorem drawBits_eq {pairs count value s v left fuel : ℕ} {r : Register}
    (h : readBits pairs count value s = some (v, left)) (hr : r.Emits (2 * pairs) s)
    (hfuel : pairs ≤ fuel) :
    left ≤ pairs ∧ drawBits fuel count value r = (v, r.run (2 * (pairs - left))) := by
  induction pairs generalizing count value s r fuel with
  | zero =>
    cases count with
    | zero =>
      obtain ⟨rfl, rfl⟩ := Prod.ext_iff.mp (Option.some.inj h)
      exact ⟨le_rfl, drawBits_zero ..⟩
    | succ count => cases h
  | succ pairs ih =>
    cases count with
    | zero =>
      obtain ⟨rfl, rfl⟩ := Prod.ext_iff.mp (Option.some.inj h)
      refine ⟨le_rfl, ?_⟩
      rw [drawBits_zero, Nat.sub_self]
      rfl
    | succ count =>
      obtain ⟨fuel, rfl⟩ := Nat.exists_eq_add_of_le' (Nat.one_le_of_lt hfuel)
      obtain ⟨hfirst, hsecond, hrest⟩ := hr
      rw [Nat.div_div_eq_div_mul] at hrest
      rw [readBits_succ] at h
      -- the pair that is looked at moves the register by two steps
      have hrun (hleft : left ≤ pairs) :
          r.run (2 * (pairs + 1 - left)) = r.step.step.run (2 * (pairs - left)) := by
        rw [Nat.succ_sub hleft, Nat.mul_succ]
        rfl
      simp only [drawBits, Register.feedback_eq_one_iff hfirst, hsecond]
      split at h
      · obtain ⟨hleft, hdraw⟩ := ih h hrest (Nat.le_of_succ_le_succ hfuel)
        rw [if_pos ‹_›, hdraw, hrun hleft]
        exact ⟨Nat.le_succ_of_le hleft, rfl⟩
      · obtain ⟨hleft, hdraw⟩ := ih h hrest (Nat.le_of_succ_le_succ hfuel)
        rw [if_neg ‹_›, hdraw, hrun hleft]
        exact ⟨Nat.le_succ_of_le hleft, rfl⟩

/-- Reads a number from the first 600 pairs of a stream, and drops what was read. -/
def readNumber (s : ℕ) : Option (ℕ × ℕ) :=
  (readBits 600 254 0 (s % 2 ^ 1200)).map fun read => (read.1, s >>> (1200 - 2 * read.2))

/-- **Numbers are drawn as they are read.** -/
theorem drawNumber_eq {s v rest n : ℕ} {r : Register} (h : readNumber s = some (v, rest))
    (hr : r.Emits (n + 1200) s) : ∃ r', drawNumber r = (v, r') ∧ r'.Emits n rest := by
  obtain ⟨⟨v, left⟩, hread, hrest⟩ := Option.map_eq_some_iff.mp h
  obtain ⟨rfl, rfl⟩ := Prod.ext_iff.mp hrest
  have hfuel : 600 ≤ 64 * 254 := by decide
  obtain ⟨hleft, hdraw⟩ := drawBits_eq hread (hr.mono (Nat.le_add_left ..)).mod hfuel
  refine ⟨_, hdraw, ?_⟩
  have hsplit : n ≤ n + 2 * left := Nat.le_add_right ..
  have hall : 2 * (600 - left) + (n + 2 * left) = n + 1200 := by omega
  rw [← hall] at hr
  have hshift : 1200 - 2 * left = 2 * (600 - left) := by omega
  rw [hshift]
  exact hr.run.mono hsplit

/-- Passes over the numbers from which `count` field elements are drawn. -/
def skipElements : (draws count s : ℕ) → Option ℕ
  | _, 0, s => some s
  | 0, _ + 1, _ => none
  | draws + 1, count + 1, s =>
    match readNumber s with
    | none => none
    | some (v, rest) =>
      cond (Nat.blt v fieldModulus) (skipElements draws count rest)
        (skipElements draws (count + 1) rest)

/-- **All elements are drawn, and the register is left where the reading is.** -/
theorem drawElements_of_skipElements {draws count s rest n fuel : ℕ} {r : Register}
    (h : skipElements draws count s = some rest) (hr : r.Emits (n + 1200 * draws) s)
    (hfuel : draws ≤ fuel) :
    ∃ xs r', drawElements fuel count r = (xs, r') ∧ xs.length = count ∧ r'.Emits n rest := by
  induction draws generalizing count s r fuel with
  | zero =>
    cases count with
    | zero =>
      obtain rfl := Option.some.inj h
      exact ⟨[], r, by cases fuel <;> rfl, rfl, hr⟩
    | succ count => cases h
  | succ draws ih =>
    cases count with
    | zero =>
      obtain rfl := Option.some.inj h
      exact ⟨[], r, by cases fuel <;> rfl, rfl, hr.mono (Nat.le_add_right ..)⟩
    | succ count =>
      obtain ⟨fuel, rfl⟩ := Nat.exists_eq_add_of_le' (Nat.one_le_of_lt hfuel)
      rw [Nat.mul_succ, ← Nat.add_assoc] at hr
      simp only [skipElements] at h
      split at h
      · cases h
      · rename_i v rest' hread
        obtain ⟨r₁, hdraw, hr₁⟩ := drawNumber_eq hread hr
        cases hv : Nat.blt v fieldModulus <;> simp only [hv, cond_true, cond_false] at h
        · have hnone : Fp.ofNat? v = none :=
            dif_neg fun hlt => by simp [Nat.blt_eq.mpr hlt] at hv
          obtain ⟨xs, r', hxs, hlength, hr'⟩ := ih h hr₁ (Nat.le_of_succ_le_succ hfuel)
          exact ⟨xs, r', by simp only [drawElements, hdraw, hnone, hxs], hlength, hr'⟩
        · have hlt : v < fieldModulus := Nat.blt_eq.mp hv
          have hsome : Fp.ofNat? v = some ⟨v, hlt⟩ := dif_pos hlt
          obtain ⟨xs, r', hxs, hlength, hr'⟩ := ih h hr₁ (Nat.le_of_succ_le_succ hfuel)
          exact ⟨⟨v, hlt⟩ :: xs, r', by simp only [drawElements, hdraw, hsome, hxs],
            congrArg (· + 1) hlength, hr'⟩

/-- Reads numbers. -/
def readNumbers : (count s : ℕ) → Option (List ℕ × ℕ)
  | 0, s => some ([], s)
  | count + 1, s =>
    match readNumber s with
    | none => none
    | some (v, rest) => (readNumbers count rest).map fun read => (v :: read.1, read.2)

/-- **Residues are drawn as numbers are read.** -/
theorem drawResidues_eq {count s rest n : ℕ} {vs : List ℕ} {r : Register}
    (h : readNumbers count s = some (vs, rest)) (hr : r.Emits (n + 1200 * count) s) :
    ∃ r', drawResidues count r = (vs.map .ofNat, r') ∧ r'.Emits n rest := by
  induction count generalizing s vs r with
  | zero =>
    obtain ⟨rfl, rfl⟩ := Prod.ext_iff.mp (Option.some.inj h)
    exact ⟨r, rfl, hr⟩
  | succ count ih =>
    rw [Nat.mul_succ, ← Nat.add_assoc] at hr
    simp only [readNumbers] at h
    split at h
    · cases h
    · rename_i v rest' hread
      obtain ⟨⟨us, left⟩, hreads, hrest⟩ := Option.map_eq_some_iff.mp h
      obtain ⟨rfl, rfl⟩ := Prod.ext_iff.mp hrest
      obtain ⟨r₁, hdraw, hr₁⟩ := drawNumber_eq hread hr
      obtain ⟨r', hdraws, hr'⟩ := ih hreads hr₁
      exact ⟨r', by simp only [drawResidues, hdraw, hdraws, List.map_cons], hr'⟩

/-- Passes over 408 elements, and reads the numbers of a matrix of width six. -/
def readMatrix6 (s : ℕ) : Option (List ℕ × List ℕ) :=
  match skipElements 600 408 s with
  | none => none
  | some rest =>
    match readNumbers 6 rest with
    | none => none
    | some (rows, rest) => (readNumbers 6 rest).map fun read => (rows, read.1)

/-- **The residues of the matrix are drawn as the numbers are read.** -/
theorem draws_of_readMatrix6 {s n fuel : ℕ} {rows columns : List ℕ} {r : Register}
    (h : readMatrix6 s = some (rows, columns))
    (hr : r.Emits (n + 1200 * 6 + 1200 * 6 + 1200 * 600) s) (hfuel : 600 ≤ fuel) :
    ∃ constants r₁ r₂ r₃, drawElements fuel 408 r = (constants, r₁) ∧ constants.length = 408
      ∧ drawResidues 6 r₁ = (rows.map .ofNat, r₂)
      ∧ drawResidues 6 r₂ = (columns.map .ofNat, r₃) := by
  simp only [readMatrix6] at h
  split at h
  · cases h
  · rename_i rest hskip
    split at h
    · cases h
    · rename_i rows' rest' hrows
      obtain ⟨⟨columns', rest''⟩, hcolumns, hpair⟩ := Option.map_eq_some_iff.mp h
      obtain ⟨rfl, rfl⟩ := Prod.ext_iff.mp hpair
      obtain ⟨constants, r₁, hconstants, hlength, hr₁⟩ :=
        drawElements_of_skipElements hskip hr hfuel
      obtain ⟨r₂, hdrawRows, hr₂⟩ := drawResidues_eq hrows hr₁
      obtain ⟨r₃, hdrawColumns, -⟩ := drawResidues_eq hcolumns hr₂
      exact ⟨constants, r₁, r₂, r₃, hconstants, hlength, hdrawRows, hdrawColumns⟩

/-! ## The stream of width six -/

/-- Appends `18 * q` bits to the `n` known bits of a stream, each the sum of the taps at `q` times
their distances.  A stream that satisfies the recurrence satisfies it stretched by a power of two
as well, because squaring its polynomial only doubles the exponents.  Nothing rests on this: the
test in `recurs_stream6` is made on the result. -/
def extend (q n s : ℕ) : ℕ :=
  s + (((s >>> (n - 18 * q)) ^^^ ((s >>> (n - 29 * q)) ^^^ ((s >>> (n - 42 * q)) ^^^
    ((s >>> (n - 57 * q)) ^^^ ((s >>> (n - 67 * q)) ^^^ (s >>> (n - 80 * q)))))))
    % 2 ^ (18 * q)) <<< n

/-- Extends a stream of `n` bits in rounds of five, with the stretching doubled after each. -/
def extendAll : (rounds q n s : ℕ) → ℕ
  | 0, _, _, s => s
  | rounds + 1, q, n, s =>
    let s := extend q n s
    let s := extend q (n + 18 * q) s
    let s := extend q (n + 36 * q) s
    let s := extend q (n + 54 * q) s
    let s := extend q (n + 72 * q) s
    extendAll rounds (2 * q) (n + 90 * q) s

/-- The first 737270 bits that pass through the register of width six. -/
def stream6 : ℕ := extendAll 13 1 80 1208925818752681180789762

/-- The numbers from which the elements of the matrix of width six are drawn: six for the rows. -/
def rowNumbers6 : List ℕ := [
  21487801514982706304081322972061094678642819724904064769179566064065804909114,
  19013584089859633602169809734997797221500184104389372063169548066548722884507,
  1620163136953443163770183506535922429923064641900274067774626823300216577212,
  24273243932060707989426841910310069668870498372645508682295034695010211365279,
  7958228711852697411791550393533786321021237283796011812977010756263498464710,
  13461447600238490085402104208229177300313794507920648143008441323563945521245]

/-- And six for the columns. -/
def columnNumbers6 : List ℕ := [
  28907995249779691867859151438350244510518162637222905994033779509887521382092,
  7513409121776423875205894286833812680523018315629203890569777401154720846469,
  16473214463859249147714771551886062087774492358805399961965837550109537373853,
  21201718131569488689398409076107023976165594656010922817698114977279258463576,
  28688843445711060782656117226933827389632946515440983108256318598211965633653,
  161910371418800448298229989875251509528318056224566621318288012968520999356]

theorem recurs_stream6 : Recurs stream6 737190 :=
  recurs_of_recursTest (by decide +kernel)

theorem holds_stream6 : (Register.ofNat 303402829916598882533375).Holds stream6 where
  old := by decide +kernel
  new := by decide +kernel

/-- The seeded register puts out the stream after its first bits. -/
theorem emits_seed6 : (seed 6 8 60).Emits 737030 (stream6 >>> (80 + 160)) := by
  have hseed : seed 6 8 60 = (Register.ofNat 303402829916598882533375).run 160 := rfl
  rw [hseed]
  exact holds_stream6.emits_run (recurs_stream6 : Recurs stream6 (160 + 737030))

theorem readMatrix6_stream6 :
    readMatrix6 (stream6 >>> (80 + 160)) = some (rowNumbers6, columnNumbers6) := by
  decide +kernel

end Grain

theorem Parameters.generate_eq {width partialRounds : ℕ} {constants xs ys : List Fp}
    {r₁ r₂ r₃ : Grain.Register}
    (hconstants : Grain.drawElements (64 * width * (2 * halfFullRounds + partialRounds))
      (width * (2 * halfFullRounds + partialRounds))
      (Grain.seed width (2 * halfFullRounds) partialRounds) = (constants, r₁))
    (hxs : Grain.drawResidues width r₁ = (xs, r₂)) (hys : Grain.drawResidues width r₂ = (ys, r₃)) :
    Parameters.generate width partialRounds
      = ⟨cutRows width (2 * halfFullRounds + partialRounds) constants, cauchy xs ys⟩ := by
  simp only [Parameters.generate, hconstants, hxs, hys]

/-- The matrix of width six. -/
def matrix6 : List (List Fp) :=
  cauchy (Grain.rowNumbers6.map .ofNat) (Grain.columnNumbers6.map .ofNat)

/-- **The parameters of width six**: 68 rows of six constants, and the matrix. -/
theorem parameters6_eq : ∃ constants : List Fp, constants.length = 6 * 68 ∧
    parameters6 = ⟨cutRows 6 68 constants, matrix6⟩ := by
  have hfuel : 600 ≤ 64 * 6 * (2 * halfFullRounds + 60) := by decide
  obtain ⟨constants, r₁, r₂, r₃, hconstants, hlength, hrows, hcolumns⟩ :=
    Grain.draws_of_readMatrix6 (n := 2630) Grain.readMatrix6_stream6 Grain.emits_seed6 hfuel
  exact ⟨constants, hlength, Parameters.generate_eq hconstants hrows hcolumns⟩

end ProvableRecord.Poseidon
