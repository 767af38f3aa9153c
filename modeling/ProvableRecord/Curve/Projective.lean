import ProvableRecord.Curve.Point

/-!
# Scalar multiples

A scalar multiple is computed in projective coordinates, where a sum needs no inverse: the triple
`(X, Y, Z)` with `Z` not zero stands for the point `(X / Z, Y / Z)`, and one inverse at the end
brings the result back.
-/

namespace ProvableRecord

/-- Projective coordinates of a point. -/
structure Projective where
  x : Fp
  y : Fp
  z : Fp

namespace Projective

/-- The coordinates of a point with denominator one. -/
def ofPoint (P : Point) : Projective := ⟨P.x, P.y, 1⟩

/-- The point that the coordinates stand for. -/
def toPoint (P : Projective) : Point :=
  let w := P.z.inv
  ⟨P.x * w, P.y * w⟩

/-- The sum of two points, without an inverse. -/
def add (P Q : Projective) : Projective :=
  let zz := P.z * Q.z
  let square := zz * zz
  let xx := P.x * Q.x
  let yy := P.y * Q.y
  let cross := Curve.d * xx * yy
  let minus := square - cross
  let plus := square + cross
  ⟨zz * minus * (P.x * Q.y + P.y * Q.x), zz * plus * (yy - Curve.a * xx), minus * plus⟩

end Projective

namespace Point

/-- The sum of `n` copies of a point. -/
def mul (P : Point) (n : Nat) : Point :=
  (doubling Projective.add (.ofPoint identity) (.ofPoint P) n).toPoint

/-- The sum of `n` copies of a point, by adding it `n` times to the neutral point. -/
def iteratedAdd : (n : Nat) → Point → Point
  | 0, _ => identity
  | n + 1, P => iteratedAdd n P + P

end Point

end ProvableRecord
