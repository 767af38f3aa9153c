import Mathlib.Algebra.Order.BigOperators.Group.Finset
import Mathlib.Algebra.Polynomial.Roots
import ProvableRecord.Proofs.Field.Residue
import ProvableRecord.Proofs.Hash.Grain

/-!
# The degree of the hash

With all inputs but one fixed, a hash is a polynomial in the one that is left.  Each round
multiplies the degree by five, and what it makes of the coefficients at the degree does not depend
on the constants of the round (`LeadsRow.fullRound`, `LeadsRow.partialRound`): they are raised to
the fifth power, all or the first only, and go through the matrix.  Run over the matrix of width six
they show that the hash of five elements has degree `5 ^ 68` in the last of them (`leads_hash5`),
which is far below the number of elements.

So the hash takes no value too often (`Leads.card_le`), and no residue of a value either
(`Leads.card_le_of_modEq`).
-/

namespace ProvableRecord

open Polynomial

/-! ## Polynomials with a known coefficient -/

namespace Fp

/-- The function is a polynomial of degree at most `d`, and `c` is its coefficient at `d`. -/
def Leads (d : ℕ) (c : Fp) (g : Fp → Fp) : Prop :=
  ∃ q : (ZMod fieldModulus)[X], q.natDegree ≤ d ∧ q.coeff d = toZMod c
    ∧ ∀ x, toZMod (g x) = q.eval (toZMod x)

namespace Leads

variable {d e : ℕ} {c k : Fp} {f g : Fp → Fp}

theorem id : Leads 1 1 fun x => x := by
  refine ⟨X, natDegree_X_le, ?_, fun x => (eval_X).symm⟩
  rw [coeff_X_one, toZMod_one]

/-- The coefficients above the degree are zero. -/
theorem of_lt (h : Leads d c g) (hde : d < e) : Leads e 0 g := by
  obtain ⟨q, hdegree, -, heval⟩ := h
  refine ⟨q, hdegree.trans hde.le, ?_, heval⟩
  rw [coeff_eq_zero_of_natDegree_lt (hdegree.trans_lt hde), toZMod_zero]

theorem const (k : Fp) : Leads 0 k fun _ => k :=
  ⟨C (toZMod k), (natDegree_C _).le, coeff_C_zero, fun _ => eval_C.symm⟩

theorem zero (d : ℕ) : Leads d 0 fun _ => 0 := by
  refine ⟨0, Nat.zero_le d, ?_, fun _ => ?_⟩
  · rw [coeff_zero, toZMod_zero]
  · rw [eval_zero, toZMod_zero]

theorem add (hf : Leads d c f) (hg : Leads d k g) : Leads d (c + k) fun x => f x + g x := by
  obtain ⟨q, hdegree, hcoeff, heval⟩ := hf
  obtain ⟨r, hdegree', hcoeff', heval'⟩ := hg
  refine ⟨q + r, natDegree_add_le_of_degree_le hdegree hdegree', ?_, fun x => ?_⟩
  · rw [coeff_add, hcoeff, hcoeff', toZMod_add]
  · rw [toZMod_add, heval, heval', eval_add]

theorem mul (hf : Leads d c f) (hg : Leads e k g) :
    Leads (d + e) (c * k) fun x => f x * g x := by
  obtain ⟨q, hdegree, hcoeff, heval⟩ := hf
  obtain ⟨r, hdegree', hcoeff', heval'⟩ := hg
  refine ⟨q * r, natDegree_mul_le_of_le hdegree hdegree', ?_, fun x => ?_⟩
  · rw [coeff_mul_add_eq_of_natDegree_le hdegree hdegree', hcoeff, hcoeff', toZMod_mul]
  · rw [toZMod_mul, heval, heval', eval_mul]

theorem mul_left (h : Leads d c g) (a : Fp) : Leads d (a * c) fun x => a * g x := by
  have hmul := (const a).mul h
  rwa [Nat.zero_add] at hmul

theorem add_const (h : Leads d c g) (a : Fp) (hd : 0 < d) : Leads d c fun x => g x + a := by
  have hadd := h.add ((const a).of_lt hd)
  have hzero : c + 0 = c := toZMod_injective (by rw [toZMod_add, toZMod_zero, add_zero])
  rwa [hzero] at hadd

/-- **A polynomial of positive degree takes no value more often than its degree.** -/
theorem card_le (h : Leads d c g) (hc : c ≠ 0) (hd : 0 < d) {y : Fp} {T : Finset Fp}
    (hT : ∀ x ∈ T, g x = y) : T.card ≤ d := by
  obtain ⟨q, hdegree, hcoeff, heval⟩ := h
  have hlead : (q - C (toZMod y)).coeff d = toZMod c := by
    rw [coeff_sub, coeff_C_of_ne_zero hd.ne', sub_zero, hcoeff]
  have hne : q - C (toZMod y) ≠ 0 := by
    intro hzero
    rw [hzero, coeff_zero, eq_comm, toZMod_eq_zero_iff] at hlead
    exact hc hlead
  have hroots : (T.map ⟨toZMod, toZMod_injective⟩).val ⊆ (q - C (toZMod y)).roots := by
    intro z hz
    obtain ⟨x, hx, rfl⟩ := Finset.mem_map.mp hz
    rw [mem_roots hne, IsRoot, eval_sub, eval_C, sub_eq_zero]
    exact (heval x).symm.trans (congrArg toZMod (hT x hx))
  calc T.card = (T.map ⟨toZMod, toZMod_injective⟩).card := (Finset.card_map _).symm
    _ ≤ (q - C (toZMod y)).natDegree := card_le_degree_of_subset_roots hroots
    _ ≤ d := by rwa [natDegree_sub_C]

/-- **It takes values of one residue modulo `l` at most `k * d` times**, if fewer than `k * l`
numbers are elements. -/
theorem card_le_of_modEq (h : Leads d c g) (hc : c ≠ 0) (hd : 0 < d) {k l r : ℕ} (hl : 0 < l)
    (hkl : fieldModulus ≤ k * l) {T : Finset Fp} (hT : ∀ x ∈ T, (g x).val ≡ r [MOD l]) :
    T.card ≤ d * k := by
  have himage : (T.image g).card ≤ (Finset.range k).card := by
    refine Finset.card_le_card_of_injOn (fun y => y.val / l) (fun y _ => ?_) ?_
    · rw [Finset.coe_range, Set.mem_Iio, Nat.div_lt_iff_lt_mul hl]
      exact y.val_lt.trans_le hkl
    · -- an element is determined by quotient and residue
      intro y hy z hz hquotient
      obtain ⟨a, ha, rfl⟩ := Finset.mem_image.mp hy
      obtain ⟨b, hb, rfl⟩ := Finset.mem_image.mp hz
      have hresidue : (g a).val % l = (g b).val % l := (hT a ha).trans (hT b hb).symm
      apply Fp.ext
      rw [← Nat.div_add_mod (g a).val l, ← Nat.div_add_mod (g b).val l, hresidue]
      exact congrArg (l * · + (g b).val % l) hquotient
  calc T.card ≤ d * (T.image g).card :=
        Finset.card_le_mul_card_image T d fun y _ =>
          h.card_le hc hd fun x hx => (Finset.mem_filter.mp hx).2
    _ ≤ d * k := Nat.mul_le_mul_left d (himage.trans_eq (Finset.card_range k))

theorem fifth (h : Leads d c g) :
    Leads (5 * d) (Poseidon.fifth c) fun x => Poseidon.fifth (g x) := by
  have hdegree : 5 * d = d + d + (d + d) + d := by omega
  rw [hdegree]
  exact ((h.mul h).mul (h.mul h)).mul h

end Leads

theorem dot_nil_right (xs : List Fp) : dot xs [] = 0 := by rw [dot, List.zipWith_nil_right]; rfl

theorem dot_cons (x y : Fp) (xs ys : List Fp) :
    dot (x :: xs) (y :: ys) = x * y + dot xs ys := by
  apply toZMod_injective
  simp only [dot, List.zipWith_cons_cons, ← List.sum_eq_foldl, List.sum_cons, toZMod_add,
    toZMod_mul, toZMod_ofNat, Nat.cast_add, Nat.cast_mul]
  rfl

/-- A combination of functions of one degree. -/
theorem Leads.dot {d : ℕ} {cs : List Fp} {gs : List (Fp → Fp)}
    (h : List.Forall₂ (Leads d) cs gs) (row : List Fp) :
    Leads d (Fp.dot row cs) fun x => Fp.dot row (gs.map fun g => g x) := by
  induction h generalizing row with
  | nil =>
    simp only [List.map_nil, dot_nil_right]
    exact .zero d
  | cons hlead _ ih =>
    cases row with
    | nil => exact .zero d
    | cons a row =>
      simp only [List.map_cons, dot_cons]
      exact (hlead.mul_left a).add (ih row)

end Fp

/-! ## The rounds of the permutation -/

namespace Poseidon

open Fp

/-- Each cell of the state is a polynomial of degree at most `d`, and the row has the coefficients
at `d`. -/
def LeadsRow (d : ℕ) (cs : List Fp) (state : Fp → List Fp) : Prop :=
  ∃ gs : List (Fp → Fp), List.Forall₂ (Leads d) cs gs ∧ state = fun x => gs.map fun g => g x

/-- What a full round makes of the coefficients. -/
def leadFull (matrix : List (List Fp)) (cs : List Fp) : List Fp := mix matrix (cs.map fifth)

/-- What is left of the coefficients when only the first cell is raised. -/
def leadFirst : List Fp → List Fp
  | [] => []
  | c :: cs => fifth c :: cs.map fun _ => 0

/-- What a partial round makes of the coefficients. -/
def leadPartial (matrix : List (List Fp)) (cs : List Fp) : List Fp := mix matrix (leadFirst cs)

namespace LeadsRow

variable {d : ℕ} {cs ks : List Fp} {state : Fp → List Fp}

theorem mix (h : LeadsRow d cs state) (matrix : List (List Fp)) :
    LeadsRow d (Poseidon.mix matrix cs) fun x => Poseidon.mix matrix (state x) := by
  obtain ⟨gs, hgs, rfl⟩ := h
  refine ⟨matrix.map fun row x => Fp.dot row (gs.map fun g => g x), ?_, ?_⟩
  · unfold Poseidon.mix
    rw [List.forall₂_map_left_iff, List.forall₂_map_right_iff, List.forall₂_same]
    exact fun row _ => Leads.dot hgs row
  · simp only [Poseidon.mix, List.map_map, Function.comp_def]

/-- Constants do not reach the coefficients of a positive degree. -/
theorem addConstants (h : LeadsRow d cs state) (hd : 0 < d) (hlength : cs.length = ks.length) :
    LeadsRow d cs fun x => List.zipWith (· + ·) (state x) ks := by
  obtain ⟨gs, hgs, rfl⟩ := h
  refine ⟨List.zipWith (fun g k x => g x + k) gs ks, ?_, ?_⟩
  · induction hgs generalizing ks with
    | nil => exact .nil
    | cons hlead _ ih =>
      cases ks with
      | nil => cases hlength
      | cons k ks => exact .cons (hlead.add_const k hd) (ih (Nat.succ.inj hlength))
  · simp only [List.map_zipWith, List.zipWith_map_left]

theorem map_fifth (h : LeadsRow d cs state) :
    LeadsRow (5 * d) (cs.map fifth) fun x => (state x).map fifth := by
  obtain ⟨gs, hgs, rfl⟩ := h
  refine ⟨gs.map fun g x => fifth (g x), ?_, ?_⟩
  · rw [List.forall₂_map_left_iff, List.forall₂_map_right_iff]
    exact hgs.imp fun _ _ hlead => hlead.fifth
  · simp only [List.map_map, Function.comp_def]

theorem raiseFirst (h : LeadsRow d cs state) (hd : 0 < d) :
    LeadsRow (5 * d) (leadFirst cs) fun x => Poseidon.raiseFirst (state x) := by
  obtain ⟨gs, hgs, rfl⟩ := h
  cases hgs with
  | nil => exact ⟨[], .nil, rfl⟩
  | @cons _ g _ gs hlead hgs =>
    refine ⟨(fun x => fifth (g x)) :: gs, .cons hlead.fifth ?_, rfl⟩
    rw [List.forall₂_map_left_iff]
    exact hgs.imp fun _ _ hlead => hlead.of_lt (by omega)

theorem fullRound (h : LeadsRow d cs state) (hd : 0 < d) (hlength : cs.length = ks.length)
    (matrix : List (List Fp)) :
    LeadsRow (5 * d) (leadFull matrix cs) fun x => Poseidon.fullRound matrix (state x) ks := by
  have hround := ((h.addConstants hd hlength).map_fifth).mix matrix
  simp only [List.map_zipWith] at hround
  exact hround

theorem partialRound (h : LeadsRow d cs state) (hd : 0 < d) (hlength : cs.length = ks.length)
    (matrix : List (List Fp)) :
    LeadsRow (5 * d) (leadPartial matrix cs) fun x =>
      Poseidon.partialRound matrix (state x) ks :=
  ((h.addConstants hd hlength).raiseFirst hd).mix matrix

/-- **Rounds multiply the degree by five each**, if they keep the length of the row. -/
theorem foldl {round : List Fp → List Fp → List Fp} {lead : List Fp → List Fp}
    {rows : List (List Fp)} {width n : ℕ} (hn : rows.length = n)
    (hround : ∀ {d cs ks state}, LeadsRow d cs state → 0 < d → cs.length = ks.length →
      LeadsRow (5 * d) (lead cs) fun x => round (state x) ks)
    (hwidth : ∀ cs, (lead cs).length = width) (hrows : ∀ ks ∈ rows, ks.length = width)
    (h : LeadsRow d cs state) (hd : 0 < d) (hlength : cs.length = width) :
    LeadsRow (5 ^ n * d) (lead^[n] cs) fun x => rows.foldl round (state x) := by
  induction rows generalizing n d cs state with
  | nil =>
    subst hn
    rw [List.length_nil, Nat.pow_zero, Nat.one_mul]
    exact h
  | cons ks rows ih =>
    subst hn
    obtain ⟨hks, hrows⟩ := List.forall_mem_cons.mp hrows
    have hfirst := hround h hd (hlength.trans hks.symm)
    rw [List.length_cons, Nat.pow_succ, Nat.mul_assoc, Function.iterate_succ_apply]
    exact ih rfl hrows hfirst (by omega) (hwidth cs)

end LeadsRow

/-- What the permutation makes of the coefficients, with the given number of partial rounds. -/
def leadPermute (matrix : List (List Fp)) (partialRounds : ℕ) (cs : List Fp) : List Fp :=
  (leadFull matrix)^[halfFullRounds]
    ((leadPartial matrix)^[partialRounds] ((leadFull matrix)^[halfFullRounds] cs))

theorem length_leadFull (matrix : List (List Fp)) (cs : List Fp) :
    (leadFull matrix cs).length = matrix.length := List.length_map _

theorem length_leadPartial (matrix : List (List Fp)) (cs : List Fp) :
    (leadPartial matrix cs).length = matrix.length := List.length_map _

theorem length_iterate {lead : List Fp → List Fp} {width : ℕ}
    (hwidth : ∀ cs, (lead cs).length = width) {cs : List Fp} (hcs : cs.length = width) (n : ℕ) :
    (lead^[n] cs).length = width := by
  cases n with
  | zero => exact hcs
  | succ n => rw [Function.iterate_succ_apply', hwidth]

/-- **The permutation multiplies the degree by five for each of its rounds.** -/
theorem LeadsRow.permute {d partialRounds : ℕ} {cs : List Fp} {state : Fp → List Fp}
    {p : Parameters} (h : LeadsRow d cs state) (hd : 0 < d) (hcs : cs.length = p.matrix.length)
    (hrounds : p.rounds.length = halfFullRounds + (partialRounds + halfFullRounds))
    (hrows : ∀ ks ∈ p.rounds, ks.length = p.matrix.length) :
    LeadsRow (5 ^ halfFullRounds * (5 ^ partialRounds * (5 ^ halfFullRounds * d)))
      (leadPermute p.matrix partialRounds cs) fun x => Poseidon.permute p (state x) := by
  have hrest : (p.rounds.drop halfFullRounds).length - halfFullRounds = partialRounds := by
    rw [List.length_drop]
    omega
  have hhead : (p.rounds.take halfFullRounds).length = halfFullRounds := by
    rw [List.length_take]
    omega
  have hmiddle : ((p.rounds.drop halfFullRounds).take partialRounds).length = partialRounds := by
    rw [List.length_take, List.length_drop]
    omega
  have htail : ((p.rounds.drop halfFullRounds).drop partialRounds).length = halfFullRounds := by
    rw [List.length_drop, List.length_drop]
    omega
  have hfull := length_leadFull p.matrix
  have hpartial := length_leadPartial p.matrix
  -- the full rounds, the partial rounds, and full rounds again
  have h₁ := h.foldl hhead (fun h hd hlength => h.fullRound hd hlength p.matrix) hfull
    (fun ks hks => hrows ks (List.mem_of_mem_take hks)) hd hcs
  have h₂ := h₁.foldl hmiddle (fun h hd hlength => h.partialRound hd hlength p.matrix) hpartial
    (fun ks hks => hrows ks (List.mem_of_mem_drop (List.mem_of_mem_take hks)))
    (by positivity) (length_iterate hfull hcs _)
  have h₃ := h₂.foldl htail (fun h hd hlength => h.fullRound hd hlength p.matrix) hfull
    (fun ks hks => hrows ks (List.mem_of_mem_drop (List.mem_of_mem_drop hks)))
    (by positivity) (length_iterate hpartial (length_iterate hfull hcs _) _)
  simp only [Poseidon.permute, hrest]
  exact h₃

theorem length_cutRows (width count : ℕ) (xs : List Fp) :
    (cutRows width count xs).length = count := by
  induction count generalizing xs with
  | zero => rfl
  | succ count ih => exact congrArg (· + 1) (ih _)

theorem length_of_mem_cutRows {width count : ℕ} {xs ks : List Fp} (h : ks ∈ cutRows width count xs)
    (hlength : xs.length = width * count) : ks.length = width := by
  induction count generalizing xs with
  | zero => cases h
  | succ count ih =>
    rw [Nat.mul_succ] at hlength
    cases h with
    | head => rw [List.length_take]; omega
    | tail _ hrest => exact ih hrest (by rw [List.length_drop]; omega)

/-- In the last input, the first cell has a coefficient that is not zero. -/
theorem leadPermute_matrix6 : (leadPermute matrix6 60 [0, 0, 0, 0, 0, 1]).headD 0 ≠ 0 := by
  decide +kernel

theorem LeadsRow.headD {d : ℕ} {cs : List Fp} {state : Fp → List Fp} (h : LeadsRow d cs state) :
    Leads d (cs.headD 0) fun x => (state x).headD 0 := by
  obtain ⟨gs, hgs, rfl⟩ := h
  cases hgs with
  | nil => exact .zero d
  | cons hlead _ => exact hlead

/-- **The hash of five elements is a polynomial of degree `5 ^ 68` in the last.** -/
theorem leads_hash5 (a b c d : Fp) : ∃ k ≠ 0, Leads (5 ^ 68) k (hash5 a b c d) := by
  obtain ⟨constants, hlength, hparameters⟩ := parameters6_eq
  have hstate : LeadsRow 1 [0, 0, 0, 0, 0, 1] fun x => [0, a, b, c, d, x] := by
    refine ⟨[fun _ => 0, fun _ => a, fun _ => b, fun _ => c, fun _ => d, fun x => x], ?_, rfl⟩
    have hconst (k : Fp) : Leads 1 0 fun _ => k := (Leads.const k).of_lt Nat.one_pos
    exact .cons (hconst 0) (.cons (hconst a) (.cons (hconst b) (.cons (hconst c)
      (.cons (hconst d) (.cons .id .nil)))))
  have hrounds : (cutRows 6 68 constants).length = halfFullRounds + (60 + halfFullRounds) :=
    length_cutRows ..
  have hpermute := hstate.permute (p := ⟨cutRows 6 68 constants, matrix6⟩) Nat.one_pos rfl hrounds
    fun ks hks => length_of_mem_cutRows hks hlength
  refine ⟨_, leadPermute_matrix6, ?_⟩
  have hdegree : 5 ^ halfFullRounds * (5 ^ 60 * (5 ^ halfFullRounds * 1)) = 5 ^ 68 := by decide
  rw [← hdegree]
  unfold hash5
  rw [hparameters]
  exact hpermute.headD

end Poseidon

end ProvableRecord
