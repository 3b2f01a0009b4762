import Mathlib.AlgebraicGeometry.EllipticCurve.Affine.Point
import Mathlib.Tactic.LinearCombination
import XboxTls.Programs.JacobianNumbers

/-!
# The Montgomery ladder

On a curve `y² = x³ + a x² + x` the first coordinates of `P + P`, and of `P + Q` when that of
`P - Q` is known, can be computed from those of `P` and `Q` alone, as ratios of which a zero
denominator stands for infinity.  The formulas are defined here over any field where 2 is not
zero and shown to be the group law of the curve, with the cases in which points coincide, are
opposite or of order two; the ladder then computes the first coordinate of every multiple.
-/

set_option autoImplicit false

namespace Programs

open WeierstrassCurve.Affine

variable {F : Type*}

/-- A ratio of two elements. -/
@[ext] structure Ratio (F : Type*) where
  x : F
  z : F

namespace Ratio

section Formulas

variable [CommRing F]

/-- The formulas for the double, with `c = (a - 2) / 4`. -/
def doubled (c : F) (r : Ratio F) : Ratio F :=
  let aa := (r.x + r.z) ^ 2
  let bb := (r.x - r.z) ^ 2
  let e := aa - bb
  ⟨aa * bb, e * (aa + c * e)⟩

/-- The formulas for the sum, where `u` is the first coordinate of the difference. -/
def sum (u : F) (r s : Ratio F) : Ratio F :=
  let da := (s.x - s.z) * (r.x + r.z)
  let cb := (s.x + s.z) * (r.x - r.z)
  ⟨(da + cb) ^ 2, u * (da - cb) ^ 2⟩

/-- The first coordinate of the doubled ratio, multiplied out. -/
theorem doubled_x (c : F) (r : Ratio F) : (r.doubled c).x = (r.x ^ 2 - r.z ^ 2) ^ 2 := by
  unfold doubled
  ring

/-- The second coordinate of the doubled ratio, multiplied out. -/
theorem doubled_z (c : F) (r : Ratio F) : (r.doubled c).z =
    4 * r.x * r.z * (r.x ^ 2 + (4 * c + 2) * (r.x * r.z) + r.z ^ 2) := by
  unfold doubled
  ring

/-- The first coordinate of the differential sum, multiplied out. -/
theorem sum_x (u : F) (r s : Ratio F) : (r.sum u s).x = 4 * (r.x * s.x - r.z * s.z) ^ 2 := by
  unfold sum
  ring

/-- The second coordinate of the differential sum, multiplied out. -/
theorem sum_z (u : F) (r s : Ratio F) :
    (r.sum u s).z = u * (4 * (s.x * r.z - s.z * r.x) ^ 2) := by
  unfold sum
  ring

/-- The differential sum does not depend on the order. -/
theorem sum_comm (u : F) (r s : Ratio F) : r.sum u s = s.sum u r := by
  ext
  · rw [sum_x, sum_x]
    ring
  · rw [sum_z, sum_z]
    ring

/-- The steps of the ladder for the bits of `k` below `n`, from the top down, on the first
coordinates of two neighbouring multiples. -/
def ladder (c u : F) (k : ℕ) : ℕ → Ratio F × Ratio F → Ratio F × Ratio F
  | 0, s => s
  | n + 1, (r, s) =>
    ladder c u k n (if k.testBit n then (r.sum u s, s.doubled c) else (r.doubled c, r.sum u s))

/-- From the first coordinate zero every numerator or denominator is zero. -/
theorem ladder_zero [NoZeroDivisors F] (c : F) (k n : ℕ) {r s : Ratio F} (hr : r.x * r.z = 0)
    (hs : s.x * s.z = 0) : (ladder c 0 k n (r, s)).1.x * (ladder c 0 k n (r, s)).1.z = 0 := by
  induction n generalizing r s with
  | zero => exact hr
  | succ n ih =>
    have hdouble {t : Ratio F} (ht : t.x * t.z = 0) :
        (t.doubled c).x * (t.doubled c).z = 0 := by
      rw [doubled_z, mul_assoc 4, ht]
      ring
    have hsum : (r.sum 0 s).x * (r.sum 0 s).z = 0 := by
      rw [sum_z]
      ring
    rw [ladder]
    by_cases hbit : k.testBit n = true
    · rw [if_pos hbit]
      exact ih hsum (hdouble hs)
    · rw [if_neg hbit]
      exact ih (hdouble hr) hsum

end Formulas

end Ratio

/-! ## The curve -/

section Curve

variable [Field F]

/-- A curve `y² = x³ + a x² + x` with `a = 4 c + 2`. -/
structure MontgomeryCurve (W : WeierstrassCurve.Affine F) (c : F) : Prop where
  a₁ : W.a₁ = 0
  a₂ : W.a₂ = 4 * c + 2
  a₃ : W.a₃ = 0
  a₄ : W.a₄ = 1
  a₆ : W.a₆ = 0
  two : (2 : F) ≠ 0
  smooth : W.a₂ ^ 2 ≠ 4

variable {W : WeierstrassCurve.Affine F} {c : F}

/-- The ratio is the first coordinate of the point; infinity has a zero denominator. -/
def Projects (r : Ratio F) : W.Point → Prop
  | .zero => r.x ≠ 0 ∧ r.z = 0
  | .some u _ _ => r.z ≠ 0 ∧ r.x = u * r.z

/-- The first coordinate, and zero for infinity. -/
def firstCoordinate : W.Point → F
  | .zero => 0
  | .some u _ _ => u

/-- The quotient of a ratio is the coordinate of its point. -/
theorem Projects.div {r : Ratio F} {P : W.Point} (h : Projects r P) :
    r.x / r.z = firstCoordinate P := by
  cases P with
  | zero =>
    rw [h.2, div_zero]
    rfl
  | some u v hP =>
    rw [h.2, mul_div_assoc, div_self h.1, mul_one]
    rfl

/-- Only infinity has a zero denominator. -/
theorem Projects.eq_zero {r : Ratio F} {P : W.Point} (h : Projects r P) (hz : r.z = 0) :
    P = 0 := by
  cases P with
  | zero => rfl
  | some u v hP => exact absurd hz h.1

variable (hW : MontgomeryCurve W c)
include hW

/-- The equation of a Montgomery curve. -/
theorem MontgomeryCurve.equation {u v : F} (h : W.Nonsingular u v) :
    v ^ 2 = u ^ 3 + W.a₂ * u ^ 2 + u := by
  have hequation := (equation_iff u v).mp h.1
  rw [hW.a₁, hW.a₃, hW.a₄, hW.a₆] at hequation
  linear_combination hequation

/-- The inverse point has the negative second coordinate. -/
theorem MontgomeryCurve.negY (u v : F) : W.negY u v = -v := by
  rw [WeierstrassCurve.Affine.negY, hW.a₁, hW.a₃]
  ring

/-- A Montgomery curve is over a field in which four is not zero. -/
theorem MontgomeryCurve.four : (4 : F) ≠ 0 := by
  have hsquare : (4 : F) = 2 * 2 := by norm_num
  rw [hsquare]
  exact mul_ne_zero hW.two hW.two

/-- No point of order two has the first coordinate `1` or `-1`. -/
theorem MontgomeryCurve.sq_ne_one {u : F} (h : W.Nonsingular u 0) : u ^ 2 ≠ 1 := by
  intro hone
  apply hW.smooth
  have hzero := hW.equation h
  have hsum : W.a₂ + 2 * u = 0 := by linear_combination -hzero + (-u - W.a₂) * hone
  linear_combination (W.a₂ - 2 * u) * hsum + 4 * hone

variable [DecidableEq F]

/-- **The double.** -/
theorem Projects.double {r : Ratio F} {P : W.Point} (h : Projects r P) :
    Projects (r.doubled c) (P + P) := by
  cases P with
  | zero =>
    obtain ⟨hx, hz⟩ := h
    refine ⟨?_, ?_⟩
    · rw [Ratio.doubled_x, hz]
      simpa using hx
    · rw [Ratio.doubled_z, hz]
      ring
  | some u v hP =>
    obtain ⟨hz, hx⟩ := h
    have hequation := hW.equation hP
    have hdenominator : (r.doubled c).z = 4 * r.z ^ 4 * v ^ 2 := by
      rw [Ratio.doubled_z, hx, ← hW.a₂, hequation]
      ring
    have hnumerator : (r.doubled c).x = r.z ^ 4 * (u ^ 2 - 1) ^ 2 := by
      rw [Ratio.doubled_x, hx]
      ring
    by_cases hv : v = 0
    · subst hv
      have hopposite : (0 : F) = W.negY u 0 := by rw [hW.negY, neg_zero]
      rw [Point.add_self_of_Y_eq hopposite]
      refine ⟨?_, ?_⟩
      · rw [hnumerator]
        exact mul_ne_zero (pow_ne_zero 4 hz) (pow_ne_zero 2 (sub_ne_zero.mpr (hW.sq_ne_one hP)))
      · rw [hdenominator]
        ring
    · have hne : v ≠ W.negY u v := by
        rw [hW.negY, ne_eq, eq_neg_iff_add_eq_zero, ← two_mul]
        exact mul_ne_zero hW.two hv
      rw [Point.add_self_of_Y_ne hne]
      refine ⟨?_, ?_⟩
      · rw [hdenominator]
        exact mul_ne_zero (mul_ne_zero hW.four (pow_ne_zero 4 hz)) (pow_ne_zero 2 hv)
      · rw [hdenominator, hnumerator, WeierstrassCurve.Affine.addX, slope_of_Y_ne rfl hne, hW.negY,
          hW.a₁, hW.a₄]
        have hdouble : v - -v = 2 * v := by ring
        rw [hdouble]
        have htwo := hW.two
        field_simp
        linear_combination (16 * W.a₂ + 32 * u) * hequation

/-- The product of the first coordinates of a sum and a difference. -/
theorem MontgomeryCurve.differential {u v u' v' : F} (h : W.Nonsingular u v)
    (h' : W.Nonsingular u' v') (hne : u ≠ u') :
    W.addX u u' (W.slope u u' v v') * W.addX u' u (W.slope u' u v' (W.negY u v)) * (u' - u) ^ 2 =
      (u * u' - 1) ^ 2 := by
  have hequation := hW.equation h
  have hequation' := hW.equation h'
  rw [WeierstrassCurve.Affine.addX, WeierstrassCurve.Affine.addX, slope_of_X_ne hne,
    slope_of_X_ne hne.symm, hW.negY, hW.a₁]
  have hsub : u - u' ≠ 0 := sub_ne_zero.mpr hne
  have hsub' : u' - u ≠ 0 := sub_ne_zero.mpr hne.symm
  field_simp
  linear_combination
    (v ^ 2 - v' ^ 2 + (u ^ 3 + W.a₂ * u ^ 2 + u) - (u' ^ 3 + W.a₂ * u' ^ 2 + u') -
      2 * (W.a₂ + u + u') * (u - u') ^ 2) * hequation -
    (v ^ 2 - v' ^ 2 + (u ^ 3 + W.a₂ * u ^ 2 + u) - (u' ^ 3 + W.a₂ * u' ^ 2 + u') +
      2 * (W.a₂ + u + u') * (u - u') ^ 2) * hequation'

/-- The sum of two points with the same first coordinate whose difference is finite, with a first
coordinate that is not zero. -/
theorem MontgomeryCurve.opposite {u v v' u₁ v₁ : F} (h : W.Nonsingular u v)
    (h' : W.Nonsingular u v') (h₁ : W.Nonsingular u₁ v₁) (hu₁ : u₁ ≠ 0)
    (hdifference : Point.some u v' h' = .some u v h + .some u₁ v₁ h₁) :
    v = -v' ∧ u ^ 2 ≠ 1 := by
  have hequation := hW.equation h
  have hequation' := hW.equation h'
  have hfinite : Point.some u₁ v₁ h₁ ≠ 0 := Point.some_ne_zero h₁
  have hne : v ≠ v' := by
    rintro rfl
    exact hfinite (left_eq_add.mp hdifference)
  have hopposite : v = -v' := by
    have hproduct : (v - v') * (v + v') = 0 := by linear_combination hequation - hequation'
    rcases mul_eq_zero.mp hproduct with hsame | hsum
    · exact absurd (sub_eq_zero.mp hsame) hne
    · exact eq_neg_of_add_eq_zero_left hsum
  refine ⟨hopposite, fun hone => ?_⟩
  -- the difference is the opposite of the double
  have hneg : Point.some u v' h' = -Point.some u v h := by
    rw [Point.neg_some]
    congr 1
    rw [hW.negY, hopposite, neg_neg]
  have hdouble : Point.some u v h + .some u v h = -Point.some u₁ v₁ h₁ := by
    rw [hneg] at hdifference
    rw [← neg_eq_iff_eq_neg, neg_add]
    nth_rewrite 1 [hdifference]
    abel
  have hprojects : Projects (Ratio.doubled c ⟨u, 1⟩) (Point.some u v h + .some u v h) :=
    Projects.double hW ⟨one_ne_zero, (mul_one u).symm⟩
  rw [hdouble, Point.neg_some] at hprojects
  obtain ⟨hz, hx⟩ := hprojects
  rw [Ratio.doubled_x, hone, one_pow, sub_self] at hx
  exact mul_ne_zero hu₁ hz (hx.symm.trans (by ring))

/-- **The sum** of two points whose difference is known. -/
theorem Projects.sum {r s : Ratio F} {R S : W.Point} {u₁ v₁ : F} {h₁ : W.Nonsingular u₁ v₁}
    (hu₁ : u₁ ≠ 0) (hr : Projects r R) (hs : Projects s S) (hdifference : S = R + .some u₁ v₁ h₁) :
    Projects (r.sum u₁ s) (R + S) := by
  have hfour := hW.four
  cases R with
  | zero =>
    obtain ⟨hx, hz⟩ := hr
    have hS : S = .some u₁ v₁ h₁ := hdifference.trans (zero_add _)
    subst hS
    obtain ⟨hz', hx'⟩ := hs
    have hdenominator : (r.sum u₁ s).z = u₁ * (4 * (s.z * r.x) ^ 2) := by
      rw [Ratio.sum_z, hz]
      ring
    refine ⟨?_, ?_⟩
    · rw [hdenominator]
      exact mul_ne_zero hu₁ (mul_ne_zero hfour (pow_ne_zero 2 (mul_ne_zero hz' hx)))
    · rw [hdenominator, Ratio.sum_x, hz, hx']
      ring
  | some u v hR =>
    obtain ⟨hz, hx⟩ := hr
    cases S with
    | zero =>
      obtain ⟨hx', hz'⟩ := hs
      have hopposite : Point.some u v hR = -Point.some u₁ v₁ h₁ :=
        eq_neg_of_add_eq_zero_left hdifference.symm
      have hu : u = u₁ := congrArg firstCoordinate hopposite
      have hdenominator : (r.sum u₁ s).z = u₁ * (4 * (s.x * r.z) ^ 2) := by
        rw [Ratio.sum_z, hz']
        ring
      refine ⟨?_, ?_⟩
      · rw [hdenominator]
        exact mul_ne_zero hu₁ (mul_ne_zero hfour (pow_ne_zero 2 (mul_ne_zero hx' hz)))
      · rw [hdenominator, Ratio.sum_x, hz', hx, hu]
        ring
    | some u' v' hS =>
      obtain ⟨hz', hx'⟩ := hs
      have hnumerator : (r.sum u₁ s).x = 4 * (r.z * s.z) ^ 2 * (u * u' - 1) ^ 2 := by
        rw [Ratio.sum_x, hx, hx']
        ring
      have hdenominator : (r.sum u₁ s).z = 4 * (r.z * s.z) ^ 2 * (u₁ * (u' - u) ^ 2) := by
        rw [Ratio.sum_z, hx, hx']
        ring
      have hfactor : 4 * (r.z * s.z) ^ 2 ≠ 0 :=
        mul_ne_zero hfour (pow_ne_zero 2 (mul_ne_zero hz hz'))
      by_cases hne : u = u'
      · subst hne
        obtain ⟨hopposite, hone⟩ := hW.opposite hR hS h₁ hu₁ hdifference
        have hzero : Point.some u v hR + .some u v' hS = 0 :=
          Point.add_of_Y_eq rfl (by rw [hW.negY, hopposite])
        rw [hzero]
        refine ⟨?_, ?_⟩
        · rw [hnumerator, ← pow_two]
          exact mul_ne_zero hfactor (pow_ne_zero 2 (sub_ne_zero.mpr hone))
        · rw [hdenominator]
          ring
      · rw [Point.add_of_X_ne hne]
        have hback : Point.some u₁ v₁ h₁ = .some u' v' hS + -Point.some u v hR := by
          rw [hdifference]
          abel
        rw [Point.neg_some, Point.add_of_X_ne (Ne.symm hne)] at hback
        have hu : u₁ = W.addX u' u (W.slope u' u v' (W.negY u v)) :=
          congrArg firstCoordinate hback
        have hproduct := hW.differential hR hS hne
        rw [← hu] at hproduct
        refine ⟨?_, ?_⟩
        · rw [hdenominator]
          exact mul_ne_zero hfactor
            (mul_ne_zero hu₁ (pow_ne_zero 2 (sub_ne_zero.mpr (Ne.symm hne))))
        · rw [hdenominator, hnumerator, ← hproduct]
          ring

/-- **The ladder.** -/
theorem Projects.ladder {Q : W.Point} {u₁ v₁ : F} {h₁ : W.Nonsingular u₁ v₁} (hu₁ : u₁ ≠ 0)
    (hQ : Q = .some u₁ v₁ h₁) (k n : ℕ) {r s : Ratio F} (hr : Projects r ((k / 2 ^ n) • Q))
    (hs : Projects s ((k / 2 ^ n + 1) • Q)) :
    Projects (Ratio.ladder c u₁ k n (r, s)).1 (k • Q) := by
  induction n generalizing r s with
  | zero =>
    rw [pow_zero, Nat.div_one] at hr
    exact hr
  | succ n ih =>
    have hhalf : k / 2 ^ (n + 1) = k / 2 ^ n / 2 := by rw [pow_succ, Nat.div_div_eq_div_mul]
    rw [hhalf] at hr hs
    have hsum := hr.sum hW hu₁ hs (by rw [succ_nsmul, hQ])
    rw [← add_nsmul] at hsum
    unfold Ratio.ladder
    by_cases hbit : k.testBit n = true
    · have hodd : k / 2 ^ n = k / 2 ^ n / 2 + (k / 2 ^ n / 2 + 1) := by
        rw [Nat.testBit_eq_decide_div_mod_eq, decide_eq_true_eq] at hbit
        omega
      have hdouble := hs.double hW
      rw [← add_nsmul, ← add_assoc, Nat.add_right_comm _ 1, Nat.add_assoc (k / 2 ^ n / 2), ← hodd]
        at hdouble
      rw [if_pos hbit]
      rw [← hodd] at hsum
      exact ih hsum hdouble
    · have heven : k / 2 ^ n = k / 2 ^ n / 2 + k / 2 ^ n / 2 := by
        rw [Nat.testBit_eq_decide_div_mod_eq, decide_eq_true_eq] at hbit
        omega
      have hdouble := hr.double hW
      rw [← add_nsmul, ← heven] at hdouble
      rw [← add_assoc, ← heven] at hsum
      rw [if_neg hbit]
      exact ih hdouble hsum

/-- A point with the first coordinate zero is infinity or of order two. -/
theorem MontgomeryCurve.add_self_eq_zero {Q : W.Point} (hQ : firstCoordinate Q = 0) :
    Q + Q = 0 := by
  cases Q with
  | zero => exact add_zero 0
  | some u v h =>
    have hu : u = 0 := hQ
    have hequation := hW.equation h
    have hv : v = 0 := by
      rw [hu] at hequation
      apply pow_eq_zero_iff (two_ne_zero) |>.mp
      rw [hequation]
      ring
    apply Point.add_self_of_Y_eq
    rw [hW.negY, hv, neg_zero]

/-- The multiples of a point with coordinate zero have it too. -/
theorem MontgomeryCurve.nsmul_of_firstCoordinate {Q : W.Point} (hQ : firstCoordinate Q = 0)
    (k : ℕ) : firstCoordinate (k • Q) = 0 := by
  have hdouble := hW.add_self_eq_zero hQ
  induction k using Nat.twoStepInduction with
  | zero => rw [zero_nsmul]; rfl
  | one => rwa [one_nsmul]
  | more k ih _ =>
    rw [add_nsmul, two_nsmul, hdouble, add_zero]
    exact ih

/-- **Every multiple**, infinity and the point of order two included. -/
theorem MontgomeryCurve.multiple {k n : ℕ} (hk : k < 2 ^ n) (Q : W.Point) {r : Ratio F}
    (hr : (Ratio.ladder c (firstCoordinate Q) k n (⟨1, 0⟩, ⟨firstCoordinate Q, 1⟩)).1 = r) :
    r.x / r.z = firstCoordinate (k • Q) := by
  by_cases hu : firstCoordinate Q = 0
  · rw [hW.nsmul_of_firstCoordinate hu, div_eq_zero_iff, ← mul_eq_zero, ← hr, hu]
    exact Ratio.ladder_zero c k n (by simp) (by simp)
  · cases Q with
    | zero => exact absurd rfl hu
    | some u v h =>
      have hquotient : k / 2 ^ n = 0 := Nat.div_eq_of_lt hk
      rw [← hr]
      apply Projects.div
      apply Projects.ladder hW hu rfl k n
      · rw [hquotient, zero_nsmul]
        exact ⟨one_ne_zero, rfl⟩
      · rw [hquotient, zero_add, one_nsmul]
        exact ⟨one_ne_zero, (mul_one u).symm⟩

end Curve

/-! ## The formulas on numbers -/

section Numbers

variable (p : ℕ)

namespace Ratio

/-- `doubled` on numbers. -/
def doubledMod (c : ℕ) (r : Ratio ℕ) : Ratio ℕ :=
  let aa := (r.x + r.z) ^ 2 % p
  let bb := modSub p r.x r.z ^ 2 % p
  let e := modSub p aa bb % p
  ⟨aa * bb % p, e * (aa + c * e) % p⟩

/-- `sum` on numbers. -/
def sumMod (u : ℕ) (r s : Ratio ℕ) : Ratio ℕ :=
  let da := modSub p s.x s.z * (r.x + r.z) % p
  let cb := (s.x + s.z) * modSub p r.x r.z % p
  ⟨(da + cb) ^ 2 % p, u * modSub p da cb ^ 2 % p⟩

/-- `ladder` on numbers. -/
def ladderMod (c u k : ℕ) : ℕ → Ratio ℕ × Ratio ℕ → Ratio ℕ × Ratio ℕ
  | 0, s => s
  | n + 1, (r, s) =>
    ladderMod c u k n
      (if k.testBit n then (r.sumMod p u s, s.doubledMod p c)
      else (r.doubledMod p c, r.sumMod p u s))

/-- The ratio as one of elements of the field. -/
def cast (r : Ratio ℕ) : Ratio (ZMod p) := ⟨r.x, r.z⟩

variable {p} [Fact p.Prime]

/-- Doubling the residues doubles the ratio of the classes. -/
theorem cast_doubledMod (c : ℕ) (r : Ratio ℕ) :
    (r.doubledMod p c).cast p = (r.cast p).doubled (c : ZMod p) := by
  simp only [doubledMod, cast, doubled]
  ext <;> push_cast [ZMod.natCast_mod, cast_modSub] <;> ring

/-- The differential sum of the residues is that of the classes. -/
theorem cast_sumMod (u : ℕ) (r s : Ratio ℕ) :
    (r.sumMod p u s).cast p = (r.cast p).sum (u : ZMod p) (s.cast p) := by
  simp only [sumMod, cast, sum]
  ext <;> push_cast [ZMod.natCast_mod, cast_modSub] <;> ring

/-- The ladder on numbers is that of the field. -/
theorem cast_ladderMod (c u k n : ℕ) (r s : Ratio ℕ) :
    ((ladderMod p c u k n (r, s)).1.cast p, (ladderMod p c u k n (r, s)).2.cast p) =
      ladder (c : ZMod p) u k n (r.cast p, s.cast p) := by
  induction n generalizing r s with
  | zero => rfl
  | succ n ih =>
    rw [ladderMod, ladder]
    by_cases hbit : k.testBit n = true
    · rw [if_pos hbit, if_pos hbit, ih, cast_sumMod, cast_doubledMod]
    · rw [if_neg hbit, if_neg hbit, ih, cast_sumMod, cast_doubledMod]

end Ratio

end Numbers

end Programs
