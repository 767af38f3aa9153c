import Mathlib.Algebra.Group.Even
import Mathlib.Tactic.FieldSimp
import Mathlib.Tactic.LinearCombination
import Mathlib.Tactic.Ring

/-!
# The group of an Edwards curve

Over a field in which two is not zero and `d` is not a square, the solutions of
`x² + y² = 1 + d x² y²` form a commutative group under

`(x₁, y₁) + (x₂, y₂) = ((x₁y₂ + y₁x₂) / (1 + δ), (y₁y₂ - x₁x₂) / (1 - δ))`, `δ = d x₁x₂y₁y₂`.

* `cross_ne` — `δ` is neither `1` nor `-1`, so one formula serves all pairs of points
* `onCurve_sum` — the sum lies on the curve
* `tripleX_mul_tripleDen` — the polynomial identity behind associativity.  It speaks of abscissas
  only: the quarter turn `(x, y) ↦ (y, -x)` commutes with adding a point (`add_turn`) and carries
  the law over to ordinates
-/

namespace ProvableRecord

/-- The coefficient of an Edwards curve whose addition has no exceptional pairs. -/
class CompleteEdwards {F : Type*} [Field F] (d : F) : Prop where
  two_ne_zero : (2 : F) ≠ 0
  not_isSquare : ¬ IsSquare d

/-- A point of the Edwards curve with coefficient `d`. -/
@[ext]
structure EdwardsPoint {F : Type*} [Field F] (d : F) where
  x : F
  y : F
  onCurve : x ^ 2 + y ^ 2 = 1 + d * x ^ 2 * y ^ 2

namespace EdwardsPoint

variable {F : Type*} [Field F] {d : F} (P Q R : EdwardsPoint d)

instance : Zero (EdwardsPoint d) := ⟨⟨0, 1, by ring⟩⟩

instance : Neg (EdwardsPoint d) :=
  ⟨fun P => ⟨-P.x, P.y, by linear_combination P.onCurve⟩⟩

/-- The quarter turn, which is the sum with the point `(1, 0)`. -/
def turn : EdwardsPoint d := ⟨P.y, -P.x, by linear_combination P.onCurve⟩

/-- The term `δ` of the two denominators of a sum. -/
def cross : F := d * (P.x * Q.x) * (P.y * Q.y)

theorem cross_comm : cross P Q = cross Q P := by
  rw [cross, cross, mul_comm P.x, mul_comm P.y]

/-! ## The identity behind associativity -/

/-- The abscissa of `(P + Q) + R` with the denominators of `P + Q` cleared. -/
def tripleX : F :=
  (P.x * Q.y + P.y * Q.x) * (1 - cross P Q) * R.y
    + (P.y * Q.y - P.x * Q.x) * (1 + cross P Q) * R.x

/-- The denominator that goes with `tripleX`. -/
def tripleDen : F :=
  (1 + cross P Q) * (1 - cross P Q)
    + d * (P.x * Q.y + P.y * Q.x) * (P.y * Q.y - P.x * Q.x) * R.x * R.y

/-- The two ways to add three points give the same abscissa. -/
theorem tripleX_mul_tripleDen :
    tripleX P Q R * tripleDen Q R P = tripleX Q R P * tripleDen P Q R := by
  simp only [tripleX, tripleDen, cross]
  linear_combination
    d * Q.x * Q.y * R.x * R.y
        * (d * Q.x * Q.y * R.x * R.y
            * ((P.x * Q.y + P.y * Q.x) * R.y + (P.y * Q.y - P.x * Q.x) * R.x)
          - (R.x * (P.x * Q.x + P.y * Q.y) + R.y * (P.y * Q.x - P.x * Q.y))) * P.onCurve
      + d ^ 2 * P.x * P.y * Q.x * Q.y * R.x * R.y
        * (P.x * P.y * (P.x * Q.x * R.x - P.x * Q.y * R.y + P.y * Q.x * R.y + P.y * Q.y * R.x)
          - R.x * R.y * (P.x * Q.x * R.x + P.x * Q.y * R.y + P.y * Q.x * R.y - P.y * Q.y * R.x))
        * Q.onCurve
      - d * P.x * P.y * Q.x * Q.y
        * (d * P.x * P.y * Q.x * Q.y
            * ((Q.x * R.y + Q.y * R.x) * P.y + (Q.y * R.y - Q.x * R.x) * P.x)
          - (P.x * (Q.x * R.x + Q.y * R.y) + P.y * (R.y * Q.x - R.x * Q.y))) * R.onCurve

/-! ## The denominators do not vanish -/

/-- If `δ` were `e` with `e² = 1`, then `d` times the square of `x₁ y₁ (x₂ + s y₂)` would be the
square of `x₁ + s e y₁`, for either sign `s`. -/
private theorem square_of_cross {P Q : EdwardsPoint d} {e s : F} (he : e * e = 1) (hs : s * s = 1)
    (h : cross P Q = e) :
    (P.x + s * e * P.y) ^ 2 = d * (P.x * P.y * (Q.x + s * Q.y)) ^ 2 := by
  rw [cross] at h
  linear_combination P.onCurve - d * P.x ^ 2 * P.y ^ 2 * Q.onCurve
    - (2 * s * P.x * P.y + e + d * (P.x * Q.x) * (P.y * Q.y)) * h
    + (P.y ^ 2 * s ^ 2 - 1) * he + (P.y ^ 2 - d * P.x ^ 2 * P.y ^ 2 * Q.y ^ 2) * hs

/-- **Completeness of the addition.**  The cross term of two points is no square root of one. -/
theorem cross_ne [hd : CompleteEdwards d] {e : F} (he : e * e = 1) : cross P Q ≠ e := by
  intro h
  have he0 : e ≠ 0 := fun h0 => by simp [h0] at he
  have hP : P.x * P.y ≠ 0 := by
    intro h0
    apply he0
    rw [← h, cross]
    linear_combination d * Q.x * Q.y * h0
  -- `d` is no square, so both factors `x₂ + y₂` and `x₂ - y₂` vanish
  have hzero : ∀ s : F, s * s = 1 → Q.x + s * Q.y = 0 := by
    intro s hs
    by_contra hne
    refine hd.not_isSquare ⟨(P.x + s * e * P.y) / (P.x * P.y * (Q.x + s * Q.y)), ?_⟩
    rw [← pow_two, div_pow, square_of_cross he hs h, mul_div_assoc,
      div_self (pow_ne_zero 2 (mul_ne_zero hP hne)), mul_one]
  have hsum := hzero 1 (one_mul 1)
  have hdiff := hzero (-1) (by ring)
  have hx : Q.x = 0 := by
    refine (mul_eq_zero.mp ?_).resolve_left hd.two_ne_zero
    linear_combination hsum + hdiff
  exact he0 (by rw [← h, cross, hx]; ring)

variable [CompleteEdwards d]

theorem one_add_cross_ne : 1 + cross P Q ≠ 0 := fun h =>
  cross_ne P Q (e := -1) (by ring) (by linear_combination h)

theorem one_sub_cross_ne : 1 - cross P Q ≠ 0 := fun h =>
  cross_ne P Q (e := 1) (by ring) (by linear_combination -h)

/-! ## The sum -/

/-- The sum of two points satisfies the curve equation. -/
theorem onCurve_sum :
    ((P.x * Q.y + P.y * Q.x) / (1 + cross P Q)) ^ 2
        + ((P.y * Q.y - P.x * Q.x) / (1 - cross P Q)) ^ 2
      = 1 + d * ((P.x * Q.y + P.y * Q.x) / (1 + cross P Q)) ^ 2
        * ((P.y * Q.y - P.x * Q.x) / (1 - cross P Q)) ^ 2 := by
  have hadd := one_add_cross_ne P Q
  have hsub := one_sub_cross_ne P Q
  have hP := P.onCurve
  have hQ := Q.onCurve
  field_simp
  rw [cross]
  -- in the squared norms `rᵢ = xᵢ² + yᵢ²` and `mᵢ = d xᵢ² yᵢ²` the difference of the two sides is
  -- `r₁ r₂ (1 + m₁ m₂) - (1 - m₁ m₂)² - m₁ r₂² - m₂ r₁²`
  linear_combination
    ((Q.x ^ 2 + Q.y ^ 2) * (1 + d * P.x ^ 2 * P.y ^ 2 * (d * Q.x ^ 2 * Q.y ^ 2))
        - d * Q.x ^ 2 * Q.y ^ 2 * (P.x ^ 2 + P.y ^ 2 + 1 + d * P.x ^ 2 * P.y ^ 2)) * hP
      + ((1 + d * P.x ^ 2 * P.y ^ 2) * (1 + d * P.x ^ 2 * P.y ^ 2 * (d * Q.x ^ 2 * Q.y ^ 2))
        - d * P.x ^ 2 * P.y ^ 2 * (Q.x ^ 2 + Q.y ^ 2 + 1 + d * Q.x ^ 2 * Q.y ^ 2)) * hQ

instance : Add (EdwardsPoint d) :=
  ⟨fun P Q => ⟨(P.x * Q.y + P.y * Q.x) / (1 + cross P Q),
    (P.y * Q.y - P.x * Q.x) / (1 - cross P Q), onCurve_sum P Q⟩⟩

theorem x_add : (P + Q).x = (P.x * Q.y + P.y * Q.x) / (1 + cross P Q) := rfl

theorem y_add : (P + Q).y = (P.y * Q.y - P.x * Q.x) / (1 - cross P Q) := rfl

protected theorem add_comm : P + Q = Q + P := by
  ext
  · rw [x_add, x_add, cross_comm]
    ring
  · rw [y_add, y_add, cross_comm]
    ring

protected theorem zero_add : 0 + P = P := by
  have hcross : cross 0 P = 0 := by
    change d * (0 * P.x) * (1 * P.y) = 0
    ring
  ext
  · rw [x_add, hcross]
    change (0 * P.y + 1 * P.x) / (1 + 0) = P.x
    ring
  · rw [y_add, hcross]
    change (1 * P.y - 0 * P.x) / (1 - 0) = P.y
    ring

protected theorem neg_add_cancel : -P + P = 0 := by
  have hcross : 1 - cross (-P) P ≠ 0 := one_sub_cross_ne (-P) P
  ext
  · rw [x_add]
    change (-P.x * P.y + P.y * P.x) / _ = 0
    rw [show -P.x * P.y + P.y * P.x = 0 by ring, zero_div]
  · rw [y_add, div_eq_iff hcross]
    change P.y * P.y - -P.x * P.x = 1 * (1 - d * (-P.x * P.x) * (P.y * P.y))
    linear_combination P.onCurve

/-! ## Associativity -/

/-- `tripleX` over `tripleDen` is the abscissa of the sum of three points. -/
theorem x_add_add : tripleDen P Q R ≠ 0 ∧ (P + Q + R).x * tripleDen P Q R = tripleX P Q R := by
  have hadd := one_add_cross_ne P Q
  have hsub := one_sub_cross_ne P Q
  have houter := one_add_cross_ne (P + Q) R
  have hx : (P + Q).x * (1 + cross P Q) = P.x * Q.y + P.y * Q.x := div_mul_cancel₀ _ hadd
  have hy : (P + Q).y * (1 - cross P Q) = P.y * Q.y - P.x * Q.x := div_mul_cancel₀ _ hsub
  have hden : tripleDen P Q R
      = (1 + cross P Q) * (1 - cross P Q) * (1 + cross (P + Q) R) := by
    rw [tripleDen, ← hx, ← hy, cross, cross]
    ring
  refine ⟨hden ▸ mul_ne_zero (mul_ne_zero hadd hsub) houter, ?_⟩
  rw [hden, x_add (P + Q) R, tripleX, ← hx, ← hy]
  field_simp

theorem x_add_assoc : (P + Q + R).x = (P + (Q + R)).x := by
  obtain ⟨hl, hxl⟩ := x_add_add P Q R
  obtain ⟨hr, hxr⟩ := x_add_add Q R P
  rw [EdwardsPoint.add_comm P (Q + R)]
  refine mul_right_cancel₀ (mul_ne_zero hl hr) ?_
  linear_combination tripleDen Q R P * hxl - tripleDen P Q R * hxr + tripleX_mul_tripleDen P Q R

/-- A quarter turn of one summand turns the sum. -/
theorem add_turn : P + turn Q = turn (P + Q) := by
  have hcross : cross P (turn Q) = -cross P Q := by
    change d * (P.x * Q.y) * (P.y * -Q.x) = -(d * (P.x * Q.x) * (P.y * Q.y))
    ring
  ext
  · change (P.x * -Q.x + P.y * Q.y) / (1 + cross P (turn Q))
      = (P.y * Q.y - P.x * Q.x) / (1 - cross P Q)
    rw [hcross]
    ring
  · change (P.y * -Q.x - P.x * Q.y) / (1 - cross P (turn Q))
      = -((P.x * Q.y + P.y * Q.x) / (1 + cross P Q))
    rw [hcross]
    ring

protected theorem add_assoc : P + Q + R = P + (Q + R) := by
  ext
  · exact x_add_assoc P Q R
  · calc (P + Q + R).y = (turn (P + Q + R)).x := rfl
      _ = (P + (Q + turn R)).x := by rw [← add_turn, x_add_assoc]
      _ = (turn (P + (Q + R))).x := by rw [add_turn, add_turn]
      _ = (P + (Q + R)).y := rfl

/-- **The points of a complete Edwards curve form a commutative group.** -/
instance : AddCommGroup (EdwardsPoint d) where
  add_assoc P Q R := EdwardsPoint.add_assoc P Q R
  zero_add P := EdwardsPoint.zero_add P
  add_zero P := by rw [EdwardsPoint.add_comm, EdwardsPoint.zero_add]
  neg_add_cancel P := EdwardsPoint.neg_add_cancel P
  add_comm P Q := EdwardsPoint.add_comm P Q
  nsmul := nsmulRec
  zsmul := zsmulRec

end EdwardsPoint

end ProvableRecord
