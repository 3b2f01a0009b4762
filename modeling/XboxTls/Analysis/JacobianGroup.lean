import XboxTls.Analysis.P256Agreement
import XboxTls.Interface.JacobianPoints

/-!
# The group law of the P-256 code

A `JP` that stands for coordinates of a point (`Denotes`) is one that satisfies the equation of
the curve in Jacobian coordinates, and the other way round.  So the routines take points of the
curve to points of the curve, and they are its group law.
-/

set_option autoImplicit false

namespace XboxTls.Analysis

open Programs XboxTls.Model.P256 XboxTls.Interface.P256

/-! ## Points and coordinates -/

/-- A coordinate stands for its element. -/
theorem residue_element {l : Limbs} (h : Coordinate l) : Residue (be pBe) l (element l) :=
  residue_of_lt modulus_p h.normal h.lt

/-- What stands for a class is a coordinate of it. -/
theorem coordinate_of_residue {l : Limbs} {x : ZMod p} (h : Residue (be pBe) l x) :
    Coordinate l ∧ element l = x := by
  have hlt := h.below.lt
  rw [modulus_p.value_eq] at hlt
  exact ⟨⟨h.below.normal, hlt⟩, h.cast⟩

/-- Jacobian coordinates stand for their affine point. -/
theorem denotes_jacobian (a : JacobianPoint) : Denotes a.jp a.point := by
  unfold JacobianPoint.point
  by_cases hinf : a.jp.inf = false
  · have honCurve := a.onCurve hinf
    have hz := honCurve.element_z_ne
    have hrep : WeierstrassCurve.Jacobian.Nonsingular curve
        (Triple.mk (element a.jp.x) (element a.jp.y) (element a.jp.z)).rep :=
      (WeierstrassCurve.Jacobian.nonsingular_of_Z_ne_zero hz).mpr honCurve.nonsingular
    rw [dif_pos hinf]
    exact ⟨some ⟨_, _, _⟩, ⟨hinf, residue_element honCurve.x, residue_element honCurve.y,
      residue_element honCurve.z⟩, hrep, hz,
      WeierstrassCurve.Jacobian.Point.toAffine_of_Z_ne_zero hrep hz⟩
  · rw [dif_neg hinf]
    rw [Bool.not_eq_false] at hinf
    exact ⟨none, hinf, rfl⟩

/-- Finite coordinates that stand for a point of the curve satisfy its equation. -/
theorem equation_of_represents {t : Triple (ZMod p)} {R : curve.Point}
    (h : Programs.Represents curve (some t) R) :
    t.y ^ 2 = t.x ^ 3 - 3 * t.x * t.z ^ 4 + b * t.z ^ 6 := by
  obtain ⟨hR, -⟩ := h.coordinates
  have hz := h.2.1
  rw [curve_nonsingular_iff, curve_equation_iff] at hR
  field_simp at hR
  linear_combination hR

/-- What stands for a point has coordinates on the curve. -/
theorem isPoint_of_denotes {a : JP} {R : curve.Point} (h : Denotes a R) : IsPoint a R := by
  obtain ⟨t, hstands, hpoint⟩ := h
  cases t with
  | none =>
    have hinf : a.inf = true := hstands
    refine ⟨⟨a, fun hfinite => ?_⟩, rfl, ?_⟩
    · rw [hinf] at hfinite
      cases hfinite
    · unfold JacobianPoint.point
      rw [dif_neg (by simp [hinf])]
      exact hpoint.symm
  | some t =>
    obtain ⟨hinf, hx, hy, hz⟩ := hstands
    obtain ⟨hx, hxe⟩ := coordinate_of_residue hx
    obtain ⟨hy, hye⟩ := coordinate_of_residue hy
    obtain ⟨hz, hze⟩ := coordinate_of_residue hz
    have hequation := equation_of_represents hpoint
    obtain ⟨hR, hcoord⟩ := hpoint.coordinates
    have hne : element a.z ≠ 0 := by
      rw [hze]
      exact hpoint.2.1
    rw [← hxe, ← hye, ← hze] at hequation
    refine ⟨⟨a, fun _ => ⟨hx, hy, hz, mt hz.element_eq_zero.mpr hne, hequation⟩⟩, rfl, ?_⟩
    unfold JacobianPoint.point
    rw [dif_pos hinf, hcoord]
    simp only [hxe, hye, hze]

/-! ## The routines -/

/-- The mixed addition adds the affine point. -/
theorem denotes_addMixed {a : JP} {R : curve.Point} (ha : Denotes a R) (q : AffinePoint) :
    Denotes (addMixed a q.x q.y (be pBe)) (R + q.point) := by
  obtain ⟨t, hstands, hpoint⟩ := ha
  exact ⟨_, stands_addMixed modulus_p hstands (residue_element q.x_coordinate)
    (residue_element q.y_coordinate), hpoint.add curve_minusThree two_ne_zero_mod_p
      (represents_affine _)⟩

/-- `affine_xy` gives the coordinates of the point. -/
theorem affineXY_eq {a : JP} {R : curve.Point} (ha : Denotes a R) :
    (affineXY a (be pBe)).map (fun l => (Limbs.value l.1, Limbs.value l.2)) = coordinates R := by
  rcases affineXY_denotes ha with ⟨rfl, hnone⟩ | ⟨x, y, h, l, k, rfl, hsome, hx, hy⟩
  · rw [hnone]
    rfl
  · rw [hsome, coordinates, hx.val modulus_p, hy.val modulus_p]
    rfl

/-- `affine_x` gives the first coordinate of the point. -/
theorem affineX_eq {a : JP} {R : curve.Point} (ha : Denotes a R) :
    (affineX a (be pBe)).map Limbs.value = (coordinates R).map Prod.fst := by
  rcases affineX_denotes ha with ⟨rfl, hnone⟩ | ⟨x, y, h, l, rfl, hsome, hx⟩
  · rw [hnone]
    rfl
  · rw [hsome, coordinates, Option.map_some, hx.val modulus_p]
    rfl

/-- **The routines on Jacobian coordinates are the group law of the curve.** -/
theorem jacobian_groupLaw (a b : JacobianPoint) (q : AffinePoint) (k : Number256) :
    IsPoint (dbl a.jp (be pBe)) (a.point + a.point) ∧
      IsPoint (addMixed a.jp q.x q.y (be pBe)) (a.point + q.point) ∧
      IsPoint (addj a.jp b.jp (be pBe)) (a.point + b.point) ∧
      IsPoint (scalar k.limbs q.x q.y (be pBe)) (k.value • q.point) ∧
      (affineX a.jp (be pBe)).map Limbs.value = (coordinates a.point).map Prod.fst ∧
      (affineXY a.jp (be pBe)).map (fun l => (Limbs.value l.1, Limbs.value l.2)) =
        coordinates a.point := by
  have ha := denotes_jacobian a
  have hb := denotes_jacobian b
  have hscalar : Denotes (scalar k.limbs q.x q.y (be pBe)) (k.value • q.point) :=
    denotes_scalar _ (residue_element q.x_coordinate) (residue_element q.y_coordinate) k.normal
  exact ⟨isPoint_of_denotes (denotes_dbl ha), isPoint_of_denotes (denotes_addMixed ha q),
    isPoint_of_denotes (denotes_addj ha hb), isPoint_of_denotes hscalar, affineX_eq ha,
    affineXY_eq ha⟩

/-! ## The generator -/

/-- The constants of the curve solve its equation. -/
theorem equation_gxBe_gyBe :
    element (be gyBe) ^ 2 = element (be gxBe) ^ 3 - 3 * element (be gxBe) + b := by
  rw [(coordinate_of_residue residue_gx).2, (coordinate_of_residue residue_gy).2]
  exact (curve_equation_iff _ _).mp ((curve_nonsingular_iff _ _).mp generator_nonsingular)

/-- The affine coordinates that the file keeps. -/
def generatorPoint : AffinePoint where
  x := be gxBe
  y := be gyBe
  x_coordinate := (coordinate_of_residue residue_gx).1
  y_coordinate := (coordinate_of_residue residue_gy).1
  equation := equation_gxBe_gyBe

/-- They are those of the generator. -/
theorem point_generatorPoint : generatorPoint.point = generator := by
  unfold AffinePoint.point generator
  simp only [generatorPoint, (coordinate_of_residue residue_gx).2,
    (coordinate_of_residue residue_gy).2]

/-- The third coordinate of an affine point. -/
theorem element_small_one : element (small 1) = 1 :=
  (coordinate_of_residue (residue_small_one modulus_p)).2

/-- An affine point with a third coordinate of one lies on the curve. -/
theorem onCurve_affine (q : AffinePoint) : OnCurve ⟨q.x, q.y, small 1, false⟩ where
  x := q.x_coordinate
  y := q.y_coordinate
  z := (coordinate_of_residue (residue_small_one modulus_p)).1
  z_ne := show Limbs.value (small 1) ≠ 0 by decide
  equation := by
    rw [element_small_one, q.equation]
    ring

/-- The Jacobian coordinates that `add_mixed` gives an affine point. -/
def jacobianOf (q : AffinePoint) : JacobianPoint :=
  ⟨⟨q.x, q.y, small 1, false⟩, fun _ => onCurve_affine q⟩

/-- They are those of the point. -/
theorem point_jacobianOf (q : AffinePoint) : (jacobianOf q).point = q.point := by
  have hfinite : (jacobianOf q).jp.inf = false := rfl
  unfold JacobianPoint.point AffinePoint.point
  rw [dif_pos hfinite]
  simp only [jacobianOf, element_small_one, one_pow, div_one]

/-- The order of the generator in limbs. -/
theorem value_nBe : Limbs.value (be nBe) = n := modulus_n.value_eq

/-- The order as a number of 256 bits. -/
def orderNumber : Number256 where
  limbs := be nBe
  normal := modulus_n.normal
  lt := value_nBe.trans_lt constants_lt.2.2.2.2.2.1

/-- The coordinates of the generator are the constants. -/
theorem coordinates_generator : coordinates generator = some (gx, gy) := by
  rw [generator, coordinates, ZMod.val_natCast_of_lt constants_lt.2.2.1,
    ZMod.val_natCast_of_lt constants_lt.2.2.2.1]

/-- The generator doubled in three ways, taken as often as its order, and read back. -/
theorem jacobian_groupLaw_generator :
    IsPoint (dbl (jacobianOf generatorPoint).jp (be pBe)) (generator + generator) ∧
      IsPoint (addMixed (jacobianOf generatorPoint).jp (be gxBe) (be gyBe) (be pBe))
        (generator + generator) ∧
      IsPoint (addj (jacobianOf generatorPoint).jp (jacobianOf generatorPoint).jp (be pBe))
        (generator + generator) ∧
      IsPoint (scalar (be nBe) (be gxBe) (be gyBe) (be pBe)) 0 ∧
      (affineX (jacobianOf generatorPoint).jp (be pBe)).map Limbs.value = some gx ∧
      (affineXY (jacobianOf generatorPoint).jp (be pBe)).map
        (fun l => (Limbs.value l.1, Limbs.value l.2)) = some (gx, gy) := by
  have hlaw := jacobian_groupLaw (jacobianOf generatorPoint) (jacobianOf generatorPoint)
    generatorPoint orderNumber
  have hvalue : orderNumber.value = n := value_nBe
  rw [point_jacobianOf, point_generatorPoint, hvalue, n_nsmul_generator,
    coordinates_generator] at hlaw
  exact hlaw

end XboxTls.Analysis
