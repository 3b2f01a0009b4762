import Mathlib.FieldTheory.Finite.Basic
import XboxTls.Programs.Jacobian

/-!
# Jacobian coordinates as numbers

The formulas for points over a prime field, on natural numbers below the prime, so that a multiple
of a point can be evaluated.
-/

set_option autoImplicit false

namespace Programs

/-! ## The formulas on numbers -/

section Numbers

variable (p : ℕ)

/-- The difference, as a number that is not reduced. -/
def modSub (x y : ℕ) : ℕ := x + (p - y % p)

namespace Triple

/-- `doubled` on numbers. -/
def doubledMod (t : Triple ℕ) : Triple ℕ :=
  let s := 4 * t.x * t.y ^ 2 % p
  let m := 3 * modSub p (t.x ^ 2) (t.z ^ 4) % p
  let x := modSub p (m ^ 2) (2 * s) % p
  ⟨x, modSub p (m * modSub p s x) (8 * t.y ^ 4) % p, 2 * t.y * t.z % p⟩

/-- `sum` on numbers. -/
def sumMod (t u : Triple ℕ) : Triple ℕ :=
  let u1 := t.x * u.z ^ 2 % p
  let s1 := t.y * u.z ^ 3 % p
  let h := modSub p (u.x * t.z ^ 2) u1 % p
  let r := 2 * modSub p (u.y * t.z ^ 3) s1 % p
  let x := modSub p (r ^ 2) (4 * h ^ 3 + 8 * u1 * h ^ 2) % p
  ⟨x, modSub p (r * modSub p (4 * u1 * h ^ 2) x) (8 * s1 * h ^ 3) % p, 2 * t.z * u.z * h % p⟩

/-- The coordinates as elements of the field. -/
def cast (t : Triple ℕ) : Triple (ZMod p) := ⟨t.x, t.y, t.z⟩

end Triple

/-- `doublePoint` on numbers. -/
def doublePointMod : Option (Triple ℕ) → Option (Triple ℕ)
  | none => none
  | some t => if t.y % p = 0 then none else some (t.doubledMod p)

/-- `addPoints` on numbers. -/
def addPointsMod : Option (Triple ℕ) → Option (Triple ℕ) → Option (Triple ℕ)
  | none, b => b
  | some t, none => some t
  | some t, some u =>
    if t.x * u.z ^ 2 % p = u.x * t.z ^ 2 % p then
      if t.y * u.z ^ 3 % p = u.y * t.z ^ 3 % p then doublePointMod p (some t) else none
    else some (t.sumMod p u)

/-- `multipleLoop` on numbers. -/
def multipleLoopMod (k : ℕ) (q : Triple ℕ) : ℕ → Option (Triple ℕ) → Option (Triple ℕ)
  | 0, r => r
  | i + 1, r =>
    multipleLoopMod k q i
      (if k.testBit i then addPointsMod p (doublePointMod p r) (some q) else doublePointMod p r)

end Numbers

/-! ## Elements of the field -/

section Field

variable {p : ℕ} [Fact p.Prime]

/-- The difference of residues stands for that of their classes. -/
@[simp] theorem cast_modSub (x y : ℕ) : ((modSub p x y : ℕ) : ZMod p) = x - y := by
  have hpos := (Fact.out : p.Prime).pos
  rw [modSub, Nat.cast_add, Nat.cast_sub (Nat.mod_lt y hpos).le, ZMod.natCast_self,
    ZMod.natCast_mod, zero_sub, sub_eq_add_neg]

/-- Doubling the residues doubles the classes. -/
theorem cast_doubledMod (t : Triple ℕ) : (t.doubledMod p).cast p = (t.cast p).doubled := by
  simp only [Triple.doubledMod, Triple.cast, Triple.doubled]
  ext <;> push_cast [ZMod.natCast_mod, cast_modSub] <;> ring

/-- The sum of the residues is that of the classes. -/
theorem cast_sumMod (t u : Triple ℕ) : (t.sumMod p u).cast p = (t.cast p).sum (u.cast p) := by
  simp only [Triple.sumMod, Triple.cast, Triple.sum]
  ext <;> push_cast [ZMod.natCast_mod, cast_modSub] <;> ring

/-- The doubled point of the residues is that of the classes. -/
theorem cast_doublePointMod (a : Option (Triple ℕ)) :
    (doublePointMod p a).map (Triple.cast p) = doublePoint (a.map (Triple.cast p)) := by
  cases a with
  | none => rfl
  | some t =>
    have hzero : (t.cast p).y = 0 ↔ t.y % p = 0 := by
      rw [← Nat.dvd_iff_mod_eq_zero, ← ZMod.natCast_eq_zero_iff]
      rfl
    rw [Option.map_some, doublePoint, doublePointMod]
    by_cases hy : t.y % p = 0
    · rw [if_pos hy, if_pos (hzero.mpr hy)]
      rfl
    · rw [if_neg hy, if_neg (mt hzero.mp hy), Option.map_some, cast_doubledMod]

/-- The sum of two points in residues is that in classes. -/
theorem cast_addPointsMod (a b : Option (Triple ℕ)) :
    (addPointsMod p a b).map (Triple.cast p) =
      addPoints (a.map (Triple.cast p)) (b.map (Triple.cast p)) := by
  cases a with
  | none => rfl
  | some t =>
    cases b with
    | none => rfl
    | some u =>
      have hx : (t.cast p).x * (u.cast p).z ^ 2 = (u.cast p).x * (t.cast p).z ^ 2 ↔
          t.x * u.z ^ 2 % p = u.x * t.z ^ 2 % p := by
        rw [← ZMod.natCast_eq_natCast_iff']
        push_cast
        rfl
      have hy : (t.cast p).y * (u.cast p).z ^ 3 = (u.cast p).y * (t.cast p).z ^ 3 ↔
          t.y * u.z ^ 3 % p = u.y * t.z ^ 3 % p := by
        rw [← ZMod.natCast_eq_natCast_iff']
        push_cast
        rfl
      rw [Option.map_some, Option.map_some, addPoints, addPointsMod]
      by_cases hxeq : t.x * u.z ^ 2 % p = u.x * t.z ^ 2 % p
      · rw [if_pos hxeq, if_pos (hx.mpr hxeq)]
        by_cases hyeq : t.y * u.z ^ 3 % p = u.y * t.z ^ 3 % p
        · rw [if_pos hyeq, if_pos (hy.mpr hyeq)]
          exact cast_doublePointMod (some t)
        · rw [if_neg hyeq, if_neg (mt hy.mp hyeq)]
          rfl
      · rw [if_neg hxeq, if_neg (mt hx.mp hxeq), Option.map_some, cast_sumMod]

/-- The multiple on numbers is that of the field. -/
theorem cast_multipleLoopMod (k : ℕ) (q : Triple ℕ) (i : ℕ) (r : Option (Triple ℕ)) :
    (multipleLoopMod p k q i r).map (Triple.cast p) =
      multipleLoop k (q.cast p) i (r.map (Triple.cast p)) := by
  induction i generalizing r with
  | zero => rfl
  | succ i ih =>
    rw [multipleLoopMod, multipleLoop, ih]
    by_cases hbit : k.testBit i = true
    · rw [if_pos hbit, if_pos hbit, cast_addPointsMod, cast_doublePointMod]
      rfl
    · rw [if_neg hbit, if_neg hbit, cast_doublePointMod]

end Field

end Programs
