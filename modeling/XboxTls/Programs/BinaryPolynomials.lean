import Mathlib.Algebra.CharP.Two
import Mathlib.Algebra.Field.ZMod
import Mathlib.RingTheory.AdjoinRoot

/-!
# Polynomials over two elements as bits

A polynomial over `ZMod 2` of degree below `n` is the sequence of its `n` coefficients.  Sums are
sums without carry of the bits, a shift is a product with the unknown up to the bit that leaves,
and adding shifted copies is a product.  Modulo a monic polynomial of degree `n` different bits
stand for different residues.
-/

set_option autoImplicit false

namespace Programs

open Polynomial

/-- The polynomial with the coefficients `f`. -/
noncomputable def ofBits (n : ℕ) (f : ℕ → Bool) : (ZMod 2)[X] :=
  ∑ i ∈ Finset.range n, if f i then X ^ i else 0

variable {n : ℕ} {f g : ℕ → Bool}

/-- Only the first `n` bits count. -/
theorem ofBits_congr (h : ∀ i < n, f i = g i) : ofBits n f = ofBits n g := by
  apply Finset.sum_congr rfl
  intro i hi
  rw [h i (Finset.mem_range.mp hi)]

/-- A coefficient is one where the bit is set. -/
theorem coeff_ofBits (f : ℕ → Bool) {i : ℕ} (hi : i < n) :
    (ofBits n f).coeff i = if f i then 1 else 0 := by
  unfold ofBits
  rw [finsetSum_coeff, Finset.sum_eq_single_of_mem i (Finset.mem_range.mpr hi)]
  · split <;> simp
  · intro j _ hne
    split
    · rw [coeff_X_pow, if_neg hne.symm]
    · exact coeff_zero i

/-- `n` bits make a polynomial of a degree below `n`. -/
theorem degree_ofBits_lt (n : ℕ) (f : ℕ → Bool) : (ofBits n f).degree < n := by
  refine (degree_sum_le _ _).trans_lt ((Finset.sup_lt_iff (WithBot.bot_lt_coe n)).mpr ?_)
  intro i hi
  split
  · rw [degree_X_pow]
    exact WithBot.coe_lt_coe.mpr (Finset.mem_range.mp hi)
  · rw [degree_zero]
    exact WithBot.bot_lt_coe n

/-- The polynomial determines the bits. -/
theorem ofBits_injective (h : ofBits n f = ofBits n g) {i : ℕ} (hi : i < n) : f i = g i := by
  have hcoeff := congrArg (coeff · i) h
  simp only [coeff_ofBits _ hi] at hcoeff
  cases hf : f i <;> cases hg : g i <;> simp [hf, hg] at hcoeff ⊢

/-- The exclusive or of the bits is the sum of the polynomials. -/
theorem ofBits_xor (n : ℕ) (f g : ℕ → Bool) :
    ofBits n (fun i => f i ^^ g i) = ofBits n f + ofBits n g := by
  have hterm : ∀ (a b : Bool) (i : ℕ), (if (a ^^ b) then (X : (ZMod 2)[X]) ^ i else 0) =
      (if a then X ^ i else 0) + if b then X ^ i else 0 := by
    intro a b i
    cases a <;> cases b <;> simp [CharTwo.add_self_eq_zero]
  unfold ofBits
  rw [← Finset.sum_add_distrib]
  exact Finset.sum_congr rfl fun i _ => hterm (f i) (g i) i

/-- The bits of a shift: each takes the place of the next. -/
def shiftBits (f : ℕ → Bool) (i : ℕ) : Bool := i ≠ 0 && f (i - 1)

/-- The bit that leaves is the coefficient of `X ^ n`. -/
theorem X_mul_ofBits (n : ℕ) (f : ℕ → Bool) :
    X * ofBits (n + 1) f = ofBits (n + 1) (shiftBits f) + if f n then X ^ (n + 1) else 0 := by
  unfold ofBits
  rw [Finset.sum_range_succ, Finset.sum_range_succ' (fun i => if shiftBits f i then _ else _),
    mul_add, Finset.mul_sum]
  have hzero : shiftBits f 0 = false := rfl
  have hsucc : ∀ i, shiftBits f (i + 1) = f i := fun i => by simp [shiftBits]
  simp only [hzero, hsucc, mul_ite, mul_zero, ← pow_succ']
  simp

/-! ## Residues -/

variable {q : (ZMod 2)[X]}

/-- The residue of the polynomial with the coefficients `f`. -/
noncomputable def residueOf (q : (ZMod 2)[X]) (n : ℕ) (f : ℕ → Bool) : AdjoinRoot q :=
  AdjoinRoot.mk q (ofBits n f)

/-- The exclusive or of the bits is the sum of the residues. -/
theorem residueOf_xor (n : ℕ) (f g : ℕ → Bool) :
    residueOf q n (fun i => f i ^^ g i) = residueOf q n f + residueOf q n g := by
  unfold residueOf
  rw [ofBits_xor, map_add]

/-- Only the first `n` bits count for the residue. -/
theorem residueOf_congr (h : ∀ i < n, f i = g i) : residueOf q n f = residueOf q n g :=
  congrArg (AdjoinRoot.mk q) (ofBits_congr h)

/-- The bits are the remainder of any polynomial with their residue. -/
theorem ofBits_eq_modByMonic (hq : q.Monic) (hdegree : q.degree = n) {r : (ZMod 2)[X]}
    (h : residueOf q n f = AdjoinRoot.mk q r) : ofBits n f = r %ₘ q := by
  have hlt := degree_ofBits_lt n f
  have hdvd := AdjoinRoot.mk_eq_mk.mp h
  have hmod := (modByMonic_eq_zero_iff_dvd hq).mpr hdvd
  rw [sub_modByMonic, sub_eq_zero, (modByMonic_eq_self_iff hq).mpr (hlt.trans_eq hdegree.symm)]
    at hmod
  exact hmod

/-- Modulo a polynomial of degree `n` the residue determines `n` bits. -/
theorem residueOf_injective (hq : q.Monic) (hdegree : q.degree = n)
    (h : residueOf q n f = residueOf q n g) {i : ℕ} (hi : i < n) : f i = g i := by
  have hleft := ofBits_eq_modByMonic hq hdegree h
  have hright := ofBits_eq_modByMonic hq hdegree (rfl : residueOf q n g = _)
  exact ofBits_injective (hleft.trans hright.symm) hi

/-- A shift is the product with the root of `X ^ (n + 1) + r`, once the bit that leaves is added
as `r`. -/
theorem root_mul_residueOf {r : (ZMod 2)[X]} (hq : q = X ^ (n + 1) + r) (f : ℕ → Bool) :
    AdjoinRoot.root q * residueOf q (n + 1) f =
      residueOf q (n + 1) (shiftBits f) + if f n then AdjoinRoot.mk q r else 0 := by
  have htop : AdjoinRoot.mk q (X ^ (n + 1)) = AdjoinRoot.mk q r := by
    rw [AdjoinRoot.mk_eq_mk, CharTwo.sub_eq_add, ← hq]
  unfold residueOf
  rw [← AdjoinRoot.mk_X, ← map_mul, X_mul_ofBits, map_add]
  split
  · rw [htop]
  · rw [map_zero]

end Programs
