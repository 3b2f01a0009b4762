import Mathlib.AlgebraicGeometry.EllipticCurve.Jacobian.Point
import Mathlib.Data.Nat.Size
import Mathlib.Tactic.LinearCombination

/-!
# Jacobian coordinates with a mark for infinity

A program keeps a point of `y² = x³ - 3x + b` as three coordinates with `z ≠ 0`, or as the mark
for infinity.  Its formulas for the double and for the sum are defined here over any field where
2 is not zero, with the cases they cannot treat, and shown to be the group law of the curve.
-/

set_option autoImplicit false

namespace Programs

open WeierstrassCurve

open scoped WeierstrassCurve.Jacobian

variable {F : Type*} [Field F]

/-- Three coordinates. -/
@[ext] structure Triple (F : Type*) where
  x : F
  y : F
  z : F

namespace Triple

/-- The coordinates as a representative. -/
def rep (t : Triple F) : Fin 3 → F := ![t.x, t.y, t.z]

/-- The formulas for the double of a point with `a = -3`. -/
def doubled (t : Triple F) : Triple F :=
  let s := 4 * t.x * t.y ^ 2
  let d := t.x ^ 2 - t.z ^ 4
  let m := d + d + d
  let x := m ^ 2 - 2 * s
  ⟨x, m * (s - x) - 8 * t.y ^ 4, 2 * t.y * t.z⟩

/-- The formulas for the sum of two points that differ in their first coordinate. -/
def sum (t u : Triple F) : Triple F :=
  let u1 := t.x * u.z ^ 2
  let s1 := t.y * u.z ^ 3
  let h := u.x * t.z ^ 2 - u1
  let r := 2 * (u.y * t.z ^ 3 - s1)
  let x := r ^ 2 - 4 * h ^ 3 - 8 * u1 * h ^ 2
  ⟨x, r * (4 * u1 * h ^ 2 - x) - 8 * s1 * h ^ 3, 2 * t.z * u.z * h⟩

end Triple

/-- A curve `y² = x³ - 3x + b`. -/
structure MinusThree (W : Jacobian F) : Prop where
  a₁ : W.a₁ = 0
  a₂ : W.a₂ = 0
  a₃ : W.a₃ = 0
  a₄ : W.a₄ = -3

/-! ## The formulas -/

section Formulas

variable {W : Jacobian F}

/-- The doubling formula of the library is the one for `a = -3`. -/
theorem dblXYZ_rep (hW : MinusThree W) (t : Triple F) : W.dblXYZ t.rep = t.doubled.rep := by
  unfold Triple.doubled Triple.rep Jacobian.dblXYZ
  simp only [Jacobian.dblX, Jacobian.dblY, Jacobian.negDblY, Jacobian.dblZ, Jacobian.negY,
    Jacobian.dblU_eq, Jacobian.fin3_def_ext, hW.a₁, hW.a₂, hW.a₃, hW.a₄]
  congr 1
  · ring
  · congr 1
    · ring
    · congr 1
      ring

/-- The sum is the one of the general formulas up to a factor. -/
theorem sum_rep (hW : MinusThree W) {t u : Triple F} (ht : W.Equation t.rep)
    (hu : W.Equation u.rep) : (t.sum u).rep = (-2 * t.z * u.z) • W.addXYZ t.rep u.rep := by
  have hx := Jacobian.addX_eq' ht hu
  have hy := W.negAddY_eq' t.rep u.rep
  unfold Triple.sum
  simp only [Triple.rep, Jacobian.addZ, Jacobian.fin3_def_ext, hW.a₁, hW.a₂] at hx hy ⊢
  rw [Jacobian.smul_fin3]
  simp only [Jacobian.addXYZ, Jacobian.fin3_def_ext, Jacobian.addY, Jacobian.negY_eq, hW.a₁,
    hW.a₃, Jacobian.addZ]
  congr 1
  · linear_combination -4 * hx
  · congr 1
    · linear_combination -8 * hy - 8 * (t.y * u.z ^ 3 - u.y * t.z ^ 3) * hx
    · congr 1
      ring

end Formulas

/-! ## Points -/

variable (W : Jacobian F)

/-- Coordinates of a point with `z ≠ 0`, or the mark for infinity. -/
def Represents (a : Option (Triple F)) (P : W.toAffine.Point) : Prop :=
  match a with
  | none => P = 0
  | some t => W.Nonsingular t.rep ∧ t.z ≠ 0 ∧ Jacobian.Point.toAffine W t.rep = P

variable {W} {a b : Option (Triple F)} {P Q : W.toAffine.Point}

/-- The coordinates of an affine point with `z = 1` stand for it. -/
theorem represents_affine {x y : F} (h : W.toAffine.Nonsingular x y) :
    Represents W (some ⟨x, y, 1⟩) (.some x y h) := by
  have hrep : W.Nonsingular ![x, y, 1] := (Jacobian.nonsingular_some x y).mpr h
  exact ⟨hrep, one_ne_zero, Jacobian.Point.toAffine_some hrep⟩

/-- The coordinates that are represented. -/
theorem Represents.coordinates {t : Triple F} (h : Represents W (some t) P) :
    ∃ hP, P = .some (t.x / t.z ^ 2) (t.y / t.z ^ 3) hP := by
  obtain ⟨hrep, hz, hpoint⟩ := h
  rw [Jacobian.Point.toAffine_of_Z_ne_zero hrep hz] at hpoint
  exact ⟨_, hpoint.symm⟩

section Law

variable [DecidableEq F]

/-- The double, with a point of order two. -/
def doublePoint : Option (Triple F) → Option (Triple F)
  | none => none
  | some t => if t.y = 0 then none else some t.doubled

/-- The sum, with equal and opposite points. -/
def addPoints : Option (Triple F) → Option (Triple F) → Option (Triple F)
  | none, b => b
  | some t, none => some t
  | some t, some u =>
    if t.x * u.z ^ 2 = u.x * t.z ^ 2 then
      if t.y * u.z ^ 3 = u.y * t.z ^ 3 then doublePoint (some t) else none
    else some (t.sum u)

/-- The doubled coordinates stand for the doubled point. -/
theorem Represents.double (hW : MinusThree W) (htwo : (2 : F) ≠ 0) (ha : Represents W a P) :
    Represents W (doublePoint a) (P + P) := by
  cases a with
  | none =>
    cases ha
    exact add_zero 0
  | some t =>
    obtain ⟨hrep, hz, hpoint⟩ := ha
    have hadd := Jacobian.Point.toAffine_add hrep hrep
    have hdouble := Jacobian.nonsingular_add hrep hrep
    rw [Jacobian.add_self, dblXYZ_rep hW] at hadd hdouble
    rw [hpoint] at hadd
    by_cases hy : t.y = 0
    · rw [doublePoint, if_pos hy]
      have hzero : t.doubled.rep 2 = 0 := by simp [Triple.rep, Triple.doubled, hy]
      exact hadd.symm.trans (Jacobian.Point.toAffine_of_Z_eq_zero hzero)
    · rw [doublePoint, if_neg hy]
      exact ⟨hdouble, mul_ne_zero (mul_ne_zero htwo hy) hz, hadd⟩

/-- The sum of the coordinates stands for the sum of the points. -/
theorem Represents.add (hW : MinusThree W) (htwo : (2 : F) ≠ 0) (ha : Represents W a P)
    (hb : Represents W b Q) : Represents W (addPoints a b) (P + Q) := by
  cases a with
  | none =>
    cases ha
    rw [zero_add]
    exact hb
  | some t =>
    cases b with
    | none =>
      cases hb
      rw [add_zero]
      exact ha
    | some u =>
      have hdouble := ha.double hW htwo
      obtain ⟨hrep, hz, hpoint⟩ := ha
      obtain ⟨hrep', hz', hpoint'⟩ := hb
      have hadd := Jacobian.Point.toAffine_add hrep hrep'
      have hsum := Jacobian.nonsingular_add hrep hrep'
      rw [hpoint, hpoint'] at hadd
      by_cases hx : t.x * u.z ^ 2 = u.x * t.z ^ 2
      · rw [addPoints, if_pos hx]
        by_cases hy : t.y * u.z ^ 3 = u.y * t.z ^ 3
        · have hequiv : t.rep ≈ u.rep := Jacobian.equiv_of_X_eq_of_Y_eq hz hz' hx hy
          have hsame : P = Q := by
            rw [← hpoint, ← hpoint', Jacobian.Point.toAffine_of_equiv hequiv]
          rw [if_pos hy, ← hsame]
          exact hdouble
        · have hequiv : ¬ t.rep ≈ u.rep := fun h => hy (Jacobian.Y_eq_of_equiv h)
          rw [if_neg hy]
          rw [Jacobian.add_of_not_equiv hequiv] at hadd
          exact hadd.symm.trans (Jacobian.Point.toAffine_of_Z_eq_zero (Jacobian.addZ_of_X_eq hx))
      · have hequiv : ¬ t.rep ≈ u.rep := Jacobian.not_equiv_of_X_ne hx
        have hunit : IsUnit (-2 * t.z * u.z) :=
          (mul_ne_zero (mul_ne_zero (neg_ne_zero.mpr htwo) hz) hz').isUnit
        rw [addPoints, if_neg hx]
        rw [Jacobian.add_of_not_equiv hequiv] at hadd hsum
        refine ⟨?_, ?_, ?_⟩
        · rw [sum_rep hW hrep.left hrep'.left, Jacobian.nonsingular_smul _ hunit]
          exact hsum
        · exact mul_ne_zero (mul_ne_zero (mul_ne_zero htwo hz) hz')
            (sub_ne_zero.mpr (Ne.symm hx))
        · rw [sum_rep hW hrep.left hrep'.left, Jacobian.Point.toAffine_smul _ hunit]
          exact hadd

/-! ## Multiples -/

/-- The lowest `i` bits of `k`, from the top down: double, and add `q` where a bit is set. -/
def multipleLoop (k : ℕ) (q : Triple F) : ℕ → Option (Triple F) → Option (Triple F)
  | 0, r => r
  | i + 1, r =>
    multipleLoop k q i
      (if k.testBit i then addPoints (doublePoint r) (some q) else doublePoint r)

/-- The loop from bit `i` down to 0 completes the multiple. -/
theorem Represents.multipleLoop (hW : MinusThree W) (htwo : (2 : F) ≠ 0) {q : Triple F}
    (hq : Represents W (some q) Q) (k i : ℕ) (ha : Represents W a ((k / 2 ^ i) • Q)) :
    Represents W (multipleLoop k q i a) (k • Q) := by
  induction i generalizing a with
  | zero =>
    rw [pow_zero, Nat.div_one] at ha
    exact ha
  | succ i ih =>
    have hdouble := ha.double hW htwo
    rw [← two_nsmul, ← mul_nsmul', pow_succ, ← Nat.div_div_eq_div_mul] at hdouble
    unfold Programs.multipleLoop
    apply ih
    by_cases hbit : k.testBit i = true
    · have hodd : 2 * (k / 2 ^ i / 2) + 1 = k / 2 ^ i := by
        rw [Nat.testBit_eq_decide_div_mod_eq, decide_eq_true_eq] at hbit
        omega
      rw [if_pos hbit, ← hodd, succ_nsmul]
      exact hdouble.add hW htwo hq
    · have heven : 2 * (k / 2 ^ i / 2) = k / 2 ^ i := by
        rw [Nat.testBit_eq_decide_div_mod_eq, decide_eq_true_eq] at hbit
        omega
      rw [if_neg hbit]
      rw [heven] at hdouble
      exact hdouble

/-- All bits of `k` from infinity on. -/
theorem represents_multiple (hW : MinusThree W) (htwo : (2 : F) ≠ 0) {q : Triple F}
    (hq : Represents W (some q) Q) (k : ℕ) :
    Represents W (multipleLoop k q k.size none) (k • Q) := by
  apply Represents.multipleLoop hW htwo hq
  rw [Nat.div_eq_of_lt (Nat.lt_size_self k)]
  exact zero_nsmul Q

end Law

end Programs
