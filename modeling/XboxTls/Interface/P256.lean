import Mathlib.AlgebraicGeometry.EllipticCurve.Affine.Point
import Mathlib.Tactic.NormNum.Prime
import XboxTls.Model.Crypto
import XboxTls.Programs.Lucas
import XboxTls.Programs.Octets

/-!
# P-256 and ECDSA of the standards

The curve with its generator, the uncompressed encoding of its points, and the verification of an
ECDSA signature with a hash of 32 bytes.  The points are those of the affine curve with the group
law of chords and tangents.
-/

set_option autoImplicit false

namespace XboxTls.Interface.P256

open Programs XboxTls.Model

/-! ## The two primes -/

/-- The order of the field. -/
def p : ℕ := 2 ^ 256 - 2 ^ 224 + 2 ^ 192 + 2 ^ 96 - 1

/-- The order of the generator. -/
def n : ℕ := 0xffffffff00000000ffffffffffffffffbce6faada7179e84f3b9cac2fc632551

/-- The small primes that the two tests come down to. -/
def smallPrimes : List ℕ :=
  [2, 3, 5, 7, 11, 17, 23, 29, 41, 43, 53, 71, 107, 127, 131, 173, 197, 229, 257, 311, 373, 641,
    1201, 1297, 1531, 2411, 3023, 3407, 3677, 3769, 16879, 17449, 18169, 38189, 65537, 78283,
    126241, 155317, 490463, 704251, 3969899, 6700417]

/-- The small primes are prime. -/
theorem prime_of_smallPrimes : ∀ q ∈ smallPrimes, q.Prime := by
  norm_num [smallPrimes]

/-- The large primes, each behind those that divide the number before it. -/
def lucasSteps : List LucasStep :=
  [⟨66417393611, 6, [2, 5, 53, 173, 197, 3677]⟩,
    ⟨11290956913871, 13, [2, 5, 17, 66417393611]⟩,
    ⟨46076956964474543, 5, [2, 23, 18169, 78283, 704251]⟩,
    ⟨204061199, 11, [2, 11, 23, 107, 3769]⟩,
    ⟨34282281433, 17, [2, 2, 2, 3, 7, 204061199]⟩,
    ⟨774023187263532362759620327192479577272145303, 3,
      [2, 3, 3, 2411, 34282281433, 11290956913871, 46076956964474543]⟩,
    ⟨835945042244614951780389953367877943453916927241, 11,
      [2, 2, 2, 3, 3, 3, 5, 774023187263532362759620327192479577272145303]⟩,
    ⟨p, 6, [2, 3, 5, 5, 17, 257, 641, 1531, 65537, 490463, 6700417,
      835945042244614951780389953367877943453916927241]⟩,
    ⟨1002328039319, 19, [2, 126241, 3969899]⟩,
    ⟨191039911, 3, [2, 3, 5, 41, 155317]⟩,
    ⟨208150935158385979, 2, [2, 3, 11, 43, 127, 3023, 191039911]⟩,
    ⟨2624747550333869278416773953, 7,
      [2, 2, 2, 2, 2, 2, 3, 3, 1297, 16879, 208150935158385979]⟩,
    ⟨311245691, 2, [2, 5, 7, 17, 29, 29, 311]⟩,
    ⟨622491383, 5, [2, 311245691]⟩,
    ⟨9350987, 2, [2, 17, 229, 1201]⟩,
    ⟨187019741, 2, [2, 2, 5, 9350987]⟩,
    ⟨n, 7, [2, 2, 2, 2, 3, 71, 131, 373, 3407, 17449, 38189, 187019741, 622491383,
      1002328039319, 2624747550333869278416773953]⟩]

/-- The numbers of the chain are prime. -/
theorem prime_of_lucasSteps {c : LucasStep} (hc : c ∈ lucasSteps) : c.p.Prime :=
  prime_of_lucasTests prime_of_smallPrimes (by decide +kernel) hc

/-- The order of the field is prime. -/
theorem prime_p : p.Prime := by
  apply prime_of_lucasSteps (c := lucasSteps[7])
  exact List.getElem_mem _

/-- The order of the generator is prime. -/
theorem prime_n : n.Prime := by
  apply prime_of_lucasSteps (c := lucasSteps[16])
  exact List.getElem_mem _

instance : Fact p.Prime := ⟨prime_p⟩

instance : Fact n.Prime := ⟨prime_n⟩

/-! ## The curve -/

/-- The last coefficient. -/
def b : ℕ := 0x5ac635d8aa3a93e7b3ebbd55769886bc651d06b0cc53b0f63bce3c3e27d2604b

/-- The coordinates of the generator. -/
def gx : ℕ := 0x6b17d1f2e12c4247f8bce6e563a440f277037d812deb33a0f4a13945d898c296

@[inherit_doc gx]
def gy : ℕ := 0x4fe342e2fe1a7f9b8ee7eb4a7c0f9e162bce33576b315ececbb6406837bf51f5

/-- `y² = x³ - 3x + b`. -/
def curve : WeierstrassCurve.Affine (ZMod p) where
  a₁ := 0
  a₂ := 0
  a₃ := 0
  a₄ := -3
  a₆ := b

/-- The equation of the curve. -/
theorem curve_equation_iff (x y : ZMod p) : curve.Equation x y ↔ y ^ 2 = x ^ 3 - 3 * x + b := by
  rw [WeierstrassCurve.Affine.equation_iff]
  simp [curve, sub_eq_add_neg]

/-- A cast is zero if the number is a multiple. -/
theorem natCast_eq_natCast {x y : ℕ} (h : x % p = y % p) : (x : ZMod p) = y :=
  (ZMod.natCast_eq_natCast_iff' x y p).mpr h

/-- The curve has no singular point. -/
theorem curve_discriminant_ne_zero : curve.Δ ≠ 0 := by
  have hvalue : curve.Δ = (1728 : ℕ) - (432 * b ^ 2 : ℕ) := by
    simp only [WeierstrassCurve.Δ, WeierstrassCurve.b₂, WeierstrassCurve.b₄, WeierstrassCurve.b₆,
      WeierstrassCurve.b₈, curve]
    push_cast
    ring
  rw [hvalue, sub_ne_zero, ne_eq, ZMod.natCast_eq_natCast_iff']
  decide +kernel

/-- Every solution of the equation is a point. -/
theorem curve_nonsingular_iff (x y : ZMod p) : curve.Nonsingular x y ↔ curve.Equation x y :=
  (curve.equation_iff_nonsingular_of_Δ_ne_zero curve_discriminant_ne_zero).symm

/-- The generator lies on the curve. -/
theorem generator_nonsingular : curve.Nonsingular (gx : ZMod p) (gy : ZMod p) := by
  have hequation : ((gy ^ 2 + 3 * gx : ℕ) : ZMod p) = (gx ^ 3 + b : ℕ) :=
    natCast_eq_natCast (by decide +kernel)
  rw [curve_nonsingular_iff, curve_equation_iff]
  push_cast at hequation
  linear_combination hequation

/-- The generator. -/
def generator : curve.Point := .some gx gy generator_nonsingular

/-- The uncompressed encoding of an affine point. -/
def uncompressed (x y : ZMod p) : Bytes := 0x04 :: (toOctets 32 x.val ++ toOctets 32 y.val)

/-- The key is the encoding of the affine point `Q`. -/
def Encodes (key : Bytes) (Q : curve.Point) : Prop :=
  ∃ x y h, Q = .some x y h ∧ key = uncompressed x y

/-- A private key: a number from 1 to `n - 1` in 32 octets. -/
def PrivateKey (d : FixedBytes 32) : Prop := 1 ≤ ofOctets d.val ∧ ofOctets d.val < n

/-! ## ECDSA -/

/-- The signature `(r, s)` of the message is valid for the key `Q`. -/
structure EcdsaVerify (hash : Bytes → FixedBytes 32) (Q : curve.Point) (message : Bytes)
    (r s : ℕ) : Prop where
  r_pos : 1 ≤ r
  r_lt : r < n
  s_pos : 1 ≤ s
  s_lt : s < n
  point : ∃ x y h, (ofOctets (hash message).val * (s : ZMod n)⁻¹).val • generator +
    (r * (s : ZMod n)⁻¹).val • Q = .some x y h ∧ x.val ≡ r [MOD n]

end XboxTls.Interface.P256
