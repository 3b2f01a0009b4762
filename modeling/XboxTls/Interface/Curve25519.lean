import Mathlib.AlgebraicGeometry.EllipticCurve.Affine.Point
import Mathlib.Tactic.NormNum.Prime
import XboxTls.Interface.X25519
import XboxTls.Programs.Lucas
import XboxTls.Programs.MontgomeryLadder

/-!
# The curve of X25519

The curve `y² = x³ + 486662 x² + x` over the field of `2^255 - 19` elements, its base point, and
the prime order of the base point.
-/

set_option autoImplicit false

namespace XboxTls.Interface.X25519

open Programs XboxTls.Model

/-! ## The two primes -/

/-- The order of the base point. -/
def order : ℕ := 2 ^ 252 + 27742317777372353535851937790883648493

/-- The small primes that the two tests come down to. -/
def smallPrimes : List ℕ :=
  [2, 3, 5, 7, 11, 13, 19, 23, 31, 41, 43, 47, 73, 107, 127, 223, 269, 307, 353, 1361, 2437, 2851,
    4153, 5879, 30703, 57467, 65147, 75707, 82163, 132049, 132667, 137849, 409477, 430751, 531581,
    569003, 1224481, 1923133, 8574133]

/-- The small primes are prime. -/
theorem prime_of_smallPrimes : ∀ q ∈ smallPrimes, q.Prime := by
  norm_num [smallPrimes]

/-- The large primes, each behind those that divide the number before it. -/
def lucasSteps : List LucasStep :=
  [⟨2773320623, 5, [2, 2437, 569003]⟩,
    ⟨72106336199, 7, [2, 13, 2773320623]⟩,
    ⟨1919519569386763, 2, [2, 3, 7, 19, 47, 47, 127, 8574133]⟩,
    ⟨75445702479781427272750846543864801, 7,
      [2, 2, 2, 2, 2, 3, 3, 5, 5, 75707, 72106336199, 1919519569386763]⟩,
    ⟨31757755568855353, 10, [2, 2, 2, 3, 31, 107, 223, 4153, 430751]⟩,
    ⟨74058212732561358302231226437062788676166966415465897661863160754340907, 2,
      [2, 3, 353, 57467, 132049, 1923133, 31757755568855353,
        75445702479781427272750846543864801]⟩,
    ⟨p, 2, [2, 2, 3, 65147,
      74058212732561358302231226437062788676166966415465897661863160754340907]⟩,
    ⟨1257559732178653, 2, [2, 2, 3, 7, 23, 531581, 1224481]⟩,
    ⟨4434155615661930479, 17, [2, 41, 43, 1257559732178653]⟩,
    ⟨172054593956031949258510691, 2, [2, 5, 1361, 2851, 4434155615661930479]⟩,
    ⟨292386187, 2, [2, 3, 3, 3, 3, 307, 5879]⟩,
    ⟨213441916511, 13, [2, 5, 73, 292386187]⟩,
    ⟨19757330305831588566944191468367130476339, 2,
      [2, 269, 213441916511, 172054593956031949258510691]⟩,
    ⟨276602624281642239937218680557139826668747, 2,
      [2, 7, 19757330305831588566944191468367130476339]⟩,
    ⟨14741173, 2, [2, 2, 3, 3, 409477]⟩,
    ⟨58964693, 2, [2, 2, 14741173]⟩,
    ⟨3044861653679985063343, 5, [2, 3, 11, 30703, 82163, 132667, 137849]⟩,
    ⟨198211423230930754013084525763697, 5, [2, 2, 2, 2, 3, 23, 58964693, 3044861653679985063343]⟩,
    ⟨order, 2, [2, 2, 3, 11, 198211423230930754013084525763697,
      276602624281642239937218680557139826668747]⟩]

/-- The numbers of the chain are prime. -/
theorem prime_of_lucasSteps {c : LucasStep} (hc : c ∈ lucasSteps) : c.p.Prime :=
  prime_of_lucasTests prime_of_smallPrimes (by decide +kernel) hc

/-- The order of the field is prime. -/
theorem prime_p : p.Prime := by
  apply prime_of_lucasSteps (c := lucasSteps[6])
  exact List.getElem_mem _

/-- The order of the base point is prime. -/
theorem prime_order : order.Prime := by
  apply prime_of_lucasSteps (c := lucasSteps[18])
  exact List.getElem_mem _

instance : Fact p.Prime := ⟨prime_p⟩

/-! ## The curve -/

/-- `y² = x³ + 486662 x² + x`. -/
def curve : WeierstrassCurve.Affine (ZMod p) where
  a₁ := 0
  a₂ := 486662
  a₃ := 0
  a₄ := 1
  a₆ := 0

/-- The second coordinate of the base point. -/
def baseY : ℕ := 14781619447589544791020593568409986887264606134616475288964881837755586237401

/-- Numbers with different remainders are different elements. -/
theorem natCast_ne_natCast {x y : ℕ} (h : x % p ≠ y % p) : (x : ZMod p) ≠ y :=
  mt (ZMod.natCast_eq_natCast_iff' x y p).mp h

/-- The curve is a Montgomery curve with `(A - 2) / 4 = 121665`. -/
theorem montgomeryCurve_curve : MontgomeryCurve curve 121665 where
  a₁ := rfl
  a₂ := by
    have hcoefficient : (486662 : ZMod p) = 4 * 121665 + 2 := by norm_num
    exact hcoefficient
  a₃ := rfl
  a₄ := rfl
  a₆ := rfl
  two := by
    have htwo := natCast_ne_natCast (x := 2) (y := 0) (by decide +kernel)
    exact_mod_cast htwo
  smooth := by
    have hsquare := natCast_ne_natCast (x := 486662 ^ 2) (y := 4) (by decide +kernel)
    exact_mod_cast hsquare

/-- The equation of the curve. -/
theorem curve_equation_iff (x y : ZMod p) :
    curve.Equation x y ↔ y ^ 2 = x ^ 3 + 486662 * x ^ 2 + x := by
  rw [WeierstrassCurve.Affine.equation_iff]
  simp [curve]

/-- The curve has no singular point. -/
theorem curve_discriminant_ne_zero : curve.Δ ≠ 0 := by
  have hvalue : curve.Δ = (16 * 486662 ^ 2 : ℕ) - (64 : ℕ) := by
    simp only [WeierstrassCurve.Δ, WeierstrassCurve.b₂, WeierstrassCurve.b₄, WeierstrassCurve.b₆,
      WeierstrassCurve.b₈, curve]
    push_cast
    ring
  rw [hvalue, sub_ne_zero]
  exact natCast_ne_natCast (by decide +kernel)

/-- The base point lies on the curve. -/
theorem baseY_nonsingular : curve.Nonsingular (9 : ZMod p) (baseY : ZMod p) := by
  have hequation : ((baseY ^ 2 : ℕ) : ZMod p) = (9 ^ 3 + 486662 * 9 ^ 2 + 9 : ℕ) :=
    (ZMod.natCast_eq_natCast_iff' _ _ _).mpr (by decide +kernel)
  rw [← curve.equation_iff_nonsingular_of_Δ_ne_zero curve_discriminant_ne_zero,
    curve_equation_iff]
  exact_mod_cast hequation

/-- The base point. -/
def generator : curve.Point := .some 9 baseY baseY_nonsingular

end XboxTls.Interface.X25519
