import Mathlib.Algebra.Module.ZMod
import Mathlib.GroupTheory.OrderOfElement
import Mathlib.SetTheory.Cardinal.Finite
import ProvableRecord.Proofs.Curve.Multiple
import ProvableRecord.Proofs.Curve.Packing

/-!
# The number of points

The curve has eight times `subgroupOrder` points.  An ordinate and a sign determine a point, as they
determine its packed form, so there are at most twice as many points as field elements
(`card_le`).  The base point has the prime order `subgroupOrder` and the point `torsion` has order
eight, so the number of points is a multiple of both, and twice that multiple is too large
(`card_eq`).

It follows that eight times any point lies in the subgroup of prime order.  That subgroup is a
vector space over the integers modulo `subgroupOrder` (`PrimeSubgroup`), in which scalars of points
can be divided.
-/

namespace ProvableRecord

open Curve

/-! ## The subgroup order is prime -/

/-- A chain that ends with the subgroup order. -/
def subgroupOrderChain : List LucasStep :=
  [⟨3, 2, [2]⟩, ⟨5, 2, [2, 2]⟩, ⟨7, 3, [2, 3]⟩, ⟨11, 2, [2, 5]⟩, ⟨13, 2, [2, 2, 3]⟩,
   ⟨17, 3, [2, 2, 2, 2]⟩, ⟨19, 2, [2, 3, 3]⟩, ⟨23, 5, [2, 11]⟩, ⟨29, 2, [2, 2, 7]⟩,
   ⟨37, 2, [2, 2, 3, 3]⟩, ⟨47, 5, [2, 23]⟩, ⟨53, 2, [2, 2, 13]⟩, ⟨59, 2, [2, 29]⟩,
   ⟨61, 2, [2, 2, 3, 5]⟩, ⟨97, 5, [2, 2, 2, 2, 2, 3]⟩, ⟨109, 6, [2, 2, 3, 3, 3]⟩,
   ⟨139, 2, [2, 3, 23]⟩, ⟨257, 3, [2, 2, 2, 2, 2, 2, 2, 2]⟩, ⟨349, 2, [2, 2, 3, 29]⟩,
   ⟨521, 3, [2, 2, 2, 5, 13]⟩, ⟨709, 2, [2, 2, 3, 59]⟩, ⟨967, 5, [2, 3, 7, 23]⟩,
   ⟨1061, 2, [2, 2, 5, 53]⟩, ⟨2069, 2, [2, 2, 11, 47]⟩, ⟨2837, 2, [2, 2, 709]⟩,
   ⟨4139, 2, [2, 2069]⟩, ⟨6323, 2, [2, 29, 109]⟩, ⟨27743, 5, [2, 11, 13, 97]⟩,
   ⟨33409, 7, [2, 2, 2, 2, 2, 2, 2, 3, 3, 29]⟩, ⟨43189, 2, [2, 2, 3, 59, 61]⟩,
   ⟨128437, 5, [2, 2, 3, 7, 11, 139]⟩, ⟨295049, 3, [2, 2, 2, 13, 2837]⟩,
   ⟨336157, 2, [2, 2, 3, 109, 257]⟩, ⟨513749, 2, [2, 2, 128437]⟩,
   ⟨10206821, 2, [2, 2, 5, 13, 37, 1061]⟩, ⟨81654569, 3, [2, 2, 2, 10206821]⟩,
   ⟨25485742523, 2, [2, 43189, 295049]⟩,
   ⟨202795150404015601, 7, [2, 2, 2, 2, 3, 5, 5, 19, 349, 25485742523]⟩,
   ⟨431548080059745198929, 3, [2, 2, 2, 2, 7, 19, 202795150404015601]⟩,
   ⟨32151195060611136810608359, 3, [2, 3, 3, 4139, 431548080059745198929]⟩,
   ⟨27892051421815855583579, 2, [2, 23, 521, 27743, 513749, 81654569]⟩,
   ⟨1863691091902891838383581623, 5, [2, 33409, 27892051421815855583579]⟩,
   ⟨178259130663561045147472537592047227885001, 14,
    [2, 2, 2, 3, 3, 5, 5, 5, 5, 6323, 336157, 1863691091902891838383581623]⟩,
   ⟨subgroupOrder, 31,
    [2, 2, 2, 2, 3, 5, 11, 11, 17, 967, 32151195060611136810608359,
      178259130663561045147472537592047227885001]⟩]

/-- **The subgroup order is prime.** -/
theorem prime_subgroupOrder : Nat.Prime subgroupOrder := by
  have hchain : chainTest [2] subgroupOrderChain = true := by decide +kernel
  have htwo : ∀ q ∈ [2], Nat.Prime q := by
    intro q hq
    rw [List.mem_singleton.mp hq]
    exact Nat.prime_two
  exact prime_of_chainTest htwo hchain (List.mem_of_getLast? rfl)

instance : Fact (Nat.Prime subgroupOrder) := ⟨prime_subgroupOrder⟩

theorem coprime_eight_subgroupOrder : Nat.Coprime 8 subgroupOrder := by decide +kernel

namespace CurvePoint

/-! ## Two orders -/

/-- **The base point has the subgroup order.** -/
theorem addOrderOf_base : addOrderOf base = subgroupOrder := by
  refine addOrderOf_eq_prime subgroupOrder_nsmul_base ?_
  intro h
  have hpoint : Point.base = Point.identity := congrArg point h
  exact absurd hpoint (by decide)

/-- A point of order eight. -/
def torsion : CurvePoint :=
  ⟨⟨4342719913949491028786768530115087822524712248835451589697801404893164183326,
    4826523245007015323400664741523384119579596407052839571721035538011798951543⟩, by decide⟩

theorem addOrderOf_torsion : addOrderOf torsion = 8 := by
  have hfour : ¬ 2 ^ 2 • torsion = 0 := by
    intro h
    have hpoint := congrArg point h
    rw [point_nsmul] at hpoint
    exact absurd hpoint (by decide +kernel)
  have height : 2 ^ (2 + 1) • torsion = 0 := by
    apply CurvePoint.ext
    rw [point_nsmul]
    show torsion.point.mul (2 ^ (2 + 1)) = Point.identity
    decide +kernel
  exact addOrderOf_eq_prime_pow hfour height

/-! ## Counting -/

/-- The ordinate of a point and the sign of its abscissa. -/
def halves (P : CurvePoint) : ZMod fieldModulus × Bool := (P.point.y.toZMod, P.point.x.isUpper)

/-- An ordinate and a sign determine a point, as they determine what it is packed to. -/
theorem halves_injective : Function.Injective halves := by
  intro P Q h
  obtain ⟨hy, hsign⟩ := Prod.ext_iff.mp h
  have hy' : P.point.y = Q.point.y := Fp.toZMod_injective hy
  have hsign' : P.point.x.isUpper = Q.point.x.isUpper := hsign
  have hpack : P.point.pack = Q.point.pack := by
    rw [Point.pack, Point.pack, hy', hsign']
  exact CurvePoint.ext (P.onCurve.eq_of_pack_eq Q.onCurve hpack)

instance : Finite CurvePoint := Finite.of_injective halves halves_injective

/-- There are at most two points for each ordinate. -/
theorem card_le : Nat.card CurvePoint ≤ 2 * fieldModulus := by
  have hbool : Nat.card Bool = 2 := Nat.card_eq_fintype_card.trans Fintype.card_bool
  have hle := Nat.card_le_card_of_injective halves halves_injective
  rwa [Nat.card_prod, Nat.card_zmod, hbool, mul_comm] at hle

/-- **The curve has eight times `subgroupOrder` points.** -/
theorem card_eq : Nat.card CurvePoint = 8 * subgroupOrder := by
  have height : 8 ∣ Nat.card CurvePoint := addOrderOf_torsion ▸ addOrderOf_dvd_natCard torsion
  have horder : subgroupOrder ∣ Nat.card CurvePoint :=
    addOrderOf_base ▸ addOrderOf_dvd_natCard base
  obtain ⟨k, hk⟩ := coprime_eight_subgroupOrder.mul_dvd_of_dvd_of_dvd height horder
  have hpos : 0 < Nat.card CurvePoint := Nat.card_pos
  have hle := card_le
  -- twice the product is larger than twice the modulus
  have hlt : fieldModulus < 8 * subgroupOrder := by decide
  have hone : k = 1 := by
    rw [hk] at hpos hle
    have hk0 : k ≠ 0 := fun h0 => by rw [h0, mul_zero] at hpos; exact hpos.false
    by_contra hne
    have htwo : 2 ≤ k := by omega
    have := Nat.mul_le_mul_left (8 * subgroupOrder) htwo
    omega
  rw [hk, hone, mul_one]

/-- **Eight times the subgroup order annihilates every point.** -/
theorem mul_subgroupOrder_nsmul (P : CurvePoint) : (8 * subgroupOrder) • P = 0 := by
  rw [← card_eq]
  exact card_nsmul_eq_zero'

/-! ## The subgroup of prime order -/

/-- The points that the subgroup order annihilates. -/
def PrimeSubgroup : AddSubgroup CurvePoint := (nsmulAddMonoidHom subgroupOrder).ker

theorem mem_primeSubgroup {P : CurvePoint} : P ∈ PrimeSubgroup ↔ subgroupOrder • P = 0 :=
  AddMonoidHom.mem_ker

namespace PrimeSubgroup

theorem subgroupOrder_nsmul (P : PrimeSubgroup) : subgroupOrder • P = 0 :=
  Subtype.ext (mem_primeSubgroup.mp P.property)

/-- Scalars of points of the subgroup count modulo its order, a prime. -/
instance : Module (ZMod subgroupOrder) PrimeSubgroup :=
  AddCommGroup.zmodModule subgroupOrder_nsmul

/-- The base point, in the subgroup. -/
def generator : PrimeSubgroup := ⟨base, mem_primeSubgroup.mpr subgroupOrder_nsmul_base⟩

/-- **Eight times a point is in the subgroup**, whatever the point is. -/
def clear (P : CurvePoint) : PrimeSubgroup :=
  ⟨8 • P, by rw [mem_primeSubgroup, ← mul_nsmul', mul_comm, mul_subgroupOrder_nsmul]⟩

theorem point_nsmul_generator (n : ℕ) :
    ((n • generator : PrimeSubgroup) : CurvePoint).point = Point.base.mul n :=
  point_nsmul base n

theorem point_clear (P : CurvePoint) : (clear P : CurvePoint).point = P.point.mul 8 :=
  point_nsmul P 8

/-- Scalars of a point of the subgroup that is not neutral count modulo the subgroup order. -/
theorem nsmul_eq_nsmul_iff {P : PrimeSubgroup} (hP : P ≠ 0) {m n : ℕ} :
    m • P = n • P ↔ m ≡ n [MOD subgroupOrder] := by
  rw [nsmul_eq_nsmul_iff_modEq, addOrderOf_eq_prime (subgroupOrder_nsmul P) hP]

end PrimeSubgroup

end CurvePoint

end ProvableRecord
