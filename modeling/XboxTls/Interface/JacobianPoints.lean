import XboxTls.Interface.P256
import XboxTls.Model.P256Verify

/-!
# The points of the P-256 code

What its routines are given and what they return: Jacobian coordinates of a point of the curve,
affine coordinates of one, and numbers of 256 bits.  Each comes with the affine point or the
number that it stands for.
-/

set_option autoImplicit false

namespace XboxTls.Interface.P256

open Programs XboxTls.Model.P256

/-- A number below `p` without zero words at its end. -/
structure Coordinate (l : Limbs) : Prop where
  normal : Limbs.Normal l
  lt : Limbs.value l < p

/-- The element of the field. -/
def element (l : Limbs) : ZMod p := Limbs.value l

/-- A coordinate stands for zero only if it is zero. -/
theorem Coordinate.element_eq_zero {l : Limbs} (h : Coordinate l) :
    element l = 0 ↔ Limbs.value l = 0 := by
  unfold element
  rw [ZMod.natCast_eq_zero_iff]
  constructor
  · intro hdvd
    exact Nat.eq_zero_of_dvd_of_lt hdvd h.lt
  · intro hzero
    rw [hzero]
    exact Nat.dvd_zero p

/-- Finite Jacobian coordinates of the curve: `y² = x³ - 3xz⁴ + bz⁶` with `z ≠ 0`. -/
structure OnCurve (a : JP) : Prop where
  x : Coordinate a.x
  y : Coordinate a.y
  z : Coordinate a.z
  z_ne : Limbs.value a.z ≠ 0
  equation : element a.y ^ 2 =
    element a.x ^ 3 - 3 * element a.x * element a.z ^ 4 + b * element a.z ^ 6

/-- The third coordinate of a finite point is not zero in the field. -/
theorem OnCurve.element_z_ne {a : JP} (h : OnCurve a) : element a.z ≠ 0 :=
  mt h.z.element_eq_zero.mp h.z_ne

/-- They are those of the affine point `(x / z², y / z³)`. -/
theorem OnCurve.nonsingular {a : JP} (h : OnCurve a) :
    curve.Nonsingular (element a.x / element a.z ^ 2) (element a.y / element a.z ^ 3) := by
  have hz := h.element_z_ne
  have hequation := h.equation
  rw [curve_nonsingular_iff, curve_equation_iff]
  field_simp
  linear_combination hequation

/-- A point in Jacobian coordinates, or at infinity. -/
structure JacobianPoint where
  jp : JP
  onCurve : jp.inf = false → OnCurve jp

/-- The affine point. -/
def JacobianPoint.point (a : JacobianPoint) : curve.Point :=
  if h : a.jp.inf = false then .some _ _ (a.onCurve h).nonsingular else 0

/-- The two coordinates of an affine point of the curve. -/
structure AffinePoint where
  x : Limbs
  y : Limbs
  x_coordinate : Coordinate x
  y_coordinate : Coordinate y
  equation : element y ^ 2 = element x ^ 3 - 3 * element x + b

def AffinePoint.point (q : AffinePoint) : curve.Point :=
  .some (element q.x) (element q.y)
    ((curve_nonsingular_iff _ _).mpr ((curve_equation_iff _ _).mpr q.equation))

/-- A number of 256 bits. -/
structure Number256 where
  limbs : Limbs
  normal : Limbs.Normal limbs
  lt : Limbs.value limbs < 2 ^ 256

def Number256.value (k : Number256) : ℕ := Limbs.value k.limbs

/-- What the code computed is a point of the curve, and it is `R`. -/
def IsPoint (a : JP) (R : curve.Point) : Prop := ∃ r : JacobianPoint, r.jp = a ∧ r.point = R

/-- The coordinates of a point as numbers; the point at infinity has none. -/
def coordinates : curve.Point → Option (ℕ × ℕ)
  | .zero => none
  | .some x y _ => some (x.val, y.val)

end XboxTls.Interface.P256
