import XboxTls.Interface.P256
import XboxTls.Model.P256Verify
import XboxTls.Programs.Jacobian
import XboxTls.Programs.Residues

/-!
# Points of the P-256 verifier

A `JP` stands for Jacobian coordinates when its numbers stand for them (`Stands`).  The point
routines of the code compute the formulas over the field step by step, so that a `JP` that stands
for a point of the curve is taken to one that stands for its double, for a sum, for a multiple.
-/

set_option autoImplicit false

namespace XboxTls.Analysis

open Programs XboxTls.Model.P256

/-! ## Formulas -/

section Formulas

variable {q : ℕ} {m : Limbs}

/-- The numbers of a `JP` stand for coordinates, or it has the mark for infinity. -/
def Stands (m : Limbs) (a : JP) (t : Option (Triple (ZMod q))) : Prop :=
  match t with
  | none => a.inf = true
  | some t => a.inf = false ∧ Residue m a.x t.x ∧ Residue m a.y t.y ∧ Residue m a.z t.z

variable {a b : JP} {t u : Option (Triple (ZMod q))}

/-- The test for zero is that of the class. -/
theorem zero_iff (hm : Modulus q m) {l : Limbs} {x : ZMod q} (h : Residue m l x) :
    zero l ↔ x = 0 := by
  rw [← h.eq_nil hm]
  exact List.length_eq_zero_iff

/-- The comparison is that of the classes. -/
theorem eq_iff (hm : Modulus q m) {l k : Limbs} {x y : ZMod q} (hl : Residue m l x)
    (hk : Residue m k y) : eq l k ↔ x = y :=
  hl.cmp_eq_zero hm hk

variable [Fact q.Prime]

/-- `dbl` doubles the coordinates. -/
theorem stands_dbl (hm : Modulus q m) (ha : Stands m a t) :
    Stands m (dbl a m) (doublePoint t) := by
  cases t with
  | none =>
    have hinf : a.inf = true := ha
    unfold dbl
    rw [if_pos (Or.inl hinf)]
    rfl
  | some t =>
    obtain ⟨hinf, hx, hy, hz⟩ := ha
    have hcond : a.inf = true ∨ zero a.y ↔ t.y = 0 := by
      rw [zero_iff hm hy, hinf]
      simp
    unfold dbl
    rw [doublePoint]
    by_cases hzero : t.y = 0
    · rw [if_pos (hcond.mpr hzero), if_pos hzero]
      rfl
    · rw [if_neg (mt hcond.mp hzero), if_neg hzero]
      extract_lets xx yy yyyy zz xpy s s' zz2 d slope x3 y3 z3
      have hxx : Residue m xx (t.x ^ 2) := (hx.mul hm hx).of_eq (by ring)
      have hyy : Residue m yy (t.y ^ 2) := (hy.mul hm hy).of_eq (by ring)
      have hzz : Residue m zz (t.z ^ 2) := (hz.mul hm hz).of_eq (by ring)
      clear_value xx yy zz
      have hyyyy : Residue m yyyy (t.y ^ 4) := (hyy.mul hm hyy).of_eq (by ring)
      have hxpy : Residue m xpy (t.x + t.y ^ 2) := hx.add hm hyy
      have hzz2 : Residue m zz2 (t.z ^ 4) := (hzz.mul hm hzz).of_eq (by ring)
      clear_value yyyy xpy zz2
      have hs : Residue m s (2 * t.x * t.y ^ 2) :=
        (((hxpy.mul hm hxpy).sub hm hxx).sub hm hyyyy).of_eq (by ring)
      have hs' : Residue m s' (4 * t.x * t.y ^ 2) := (hs.add hm hs).of_eq (by ring)
      have hd : Residue m d (t.x ^ 2 - t.z ^ 4) := hxx.sub hm hzz2
      have hslope : Residue m slope (t.x ^ 2 - t.z ^ 4 + (t.x ^ 2 - t.z ^ 4) +
          (t.x ^ 2 - t.z ^ 4)) := (hd.add hm hd).add hm hd
      clear_value s' slope
      have hx3 : Residue m x3 t.doubled.x :=
        ((hslope.mul hm hslope).sub hm (hs'.add hm hs')).of_eq (by simp only [Triple.doubled]; ring)
      clear_value x3
      have htwo := hyyyy.add hm hyyyy
      have hfour := htwo.add hm htwo
      have hy3 : Residue m y3 t.doubled.y :=
        ((hslope.mul hm (hs'.sub hm hx3)).sub hm (hfour.add hm hfour)).of_eq
          (by simp only [Triple.doubled]; ring)
      have hsum := hy.add hm hz
      have hz3 : Residue m z3 t.doubled.z :=
        (((hsum.mul hm hsum).sub hm hyy).sub hm hzz).of_eq (by simp only [Triple.doubled]; ring)
      clear_value y3 z3
      exact ⟨rfl, hx3, hy3, hz3⟩

/-- `small(1)` stands for one. -/
theorem residue_small_one (hm : Modulus q m) : Residue m (small 1) (1 : ZMod q) :=
  residue_one hm (Fact.out : q.Prime).one_lt

/-- `add_mixed` adds the affine coordinates. -/
theorem stands_addMixed (hm : Modulus q m) (ha : Stands m a t) {l k : Limbs} {x y : ZMod q}
    (hl : Residue m l x) (hk : Residue m k y) :
    Stands m (addMixed a l k m) (addPoints t (some ⟨x, y, 1⟩)) := by
  cases t with
  | none =>
    have hinf : a.inf = true := ha
    unfold addMixed
    rw [if_pos hinf]
    exact ⟨rfl, hl, hk, residue_small_one hm⟩
  | some t =>
    have hdouble := stands_dbl hm ha
    obtain ⟨hinf, hx, hy, hz⟩ := ha
    have hfinite : ¬ a.inf = true := by simp [hinf]
    unfold addMixed
    rw [if_neg hfinite, addPoints]
    extract_lets zz u s h hh i j r v x3 y3 z3
    have hzz : Residue m zz (t.z ^ 2) := (hz.mul hm hz).of_eq (by ring)
    clear_value zz
    have hu : Residue m u (x * t.z ^ 2) := hl.mul hm hzz
    have hs : Residue m s (y * t.z ^ 3) := (hk.mul hm (hz.mul hm hzz)).of_eq (by ring)
    clear_value u s
    have hxcond : eq u a.x ↔ t.x * 1 ^ 2 = x * t.z ^ 2 := by
      rw [eq_iff hm hu hx, one_pow, mul_one, eq_comm]
    have hycond : eq s a.y ↔ t.y * 1 ^ 3 = y * t.z ^ 3 := by
      rw [eq_iff hm hs hy, one_pow, mul_one, eq_comm]
    by_cases hxeq : t.x * 1 ^ 2 = x * t.z ^ 2
    · rw [if_pos (hxcond.mpr hxeq), if_pos hxeq]
      by_cases hyeq : t.y * 1 ^ 3 = y * t.z ^ 3
      · rw [if_pos (hycond.mpr hyeq), if_pos hyeq]
        exact hdouble
      · rw [if_neg (mt hycond.mp hyeq), if_neg hyeq]
        rfl
    · rw [if_neg (mt hxcond.mp hxeq), if_neg hxeq]
      have hh1 : Residue m h (x * t.z ^ 2 - t.x) := hu.sub hm hx
      clear_value h
      have hh2 : Residue m hh ((x * t.z ^ 2 - t.x) ^ 2) := (hh1.mul hm hh1).of_eq (by ring)
      clear_value hh
      have htwo := hh2.add hm hh2
      have hi : Residue m i (4 * (x * t.z ^ 2 - t.x) ^ 2) := (htwo.add hm htwo).of_eq (by ring)
      clear_value i
      have hj : Residue m j (4 * (x * t.z ^ 2 - t.x) ^ 3) := (hh1.mul hm hi).of_eq (by ring)
      have hdiff := hs.sub hm hy
      have hr : Residue m r (2 * (y * t.z ^ 3 - t.y)) := (hdiff.add hm hdiff).of_eq (by ring)
      have hv : Residue m v (t.x * (4 * (x * t.z ^ 2 - t.x) ^ 2)) := hx.mul hm hi
      clear_value j r v
      have hx3 : Residue m x3 (t.sum ⟨x, y, 1⟩).x :=
        (((hr.mul hm hr).sub hm hj).sub hm (hv.add hm hv)).of_eq (by simp only [Triple.sum]; ring)
      clear_value x3
      have hyj := hy.mul hm hj
      have hy3 : Residue m y3 (t.sum ⟨x, y, 1⟩).y :=
        ((hr.mul hm (hv.sub hm hx3)).sub hm (hyj.add hm hyj)).of_eq
          (by simp only [Triple.sum]; ring)
      have hsum := hz.add hm hh1
      have hz3 : Residue m z3 (t.sum ⟨x, y, 1⟩).z :=
        (((hsum.mul hm hsum).sub hm hzz).sub hm hh2).of_eq (by simp only [Triple.sum]; ring)
      clear_value y3 z3
      exact ⟨rfl, hx3, hy3, hz3⟩

/-- `addj` adds the coordinates. -/
theorem stands_addj (hm : Modulus q m) (ha : Stands m a t) (hb : Stands m b u) :
    Stands m (addj a b m) (addPoints t u) := by
  cases t with
  | none =>
    have hinf : a.inf = true := ha
    unfold addj
    rw [if_pos hinf]
    exact hb
  | some t =>
    have hdouble := stands_dbl hm ha
    have hleft := ha
    obtain ⟨hinf, hx, hy, hz⟩ := ha
    have hfinite : ¬ a.inf = true := by simp [hinf]
    unfold addj
    rw [if_neg hfinite]
    cases u with
    | none =>
      have hinf' : b.inf = true := hb
      rw [if_pos hinf']
      exact hleft
    | some u =>
      obtain ⟨hinf', hx', hy', hz'⟩ := hb
      have hfinite' : ¬ b.inf = true := by simp [hinf']
      rw [if_neg hfinite', addPoints]
      extract_lets zz zz' u1 u2 s1 s2 h twoh i j r v x3 y3 zsum z3
      have hzz : Residue m zz (t.z ^ 2) := (hz.mul hm hz).of_eq (by ring)
      have hzz' : Residue m zz' (u.z ^ 2) := (hz'.mul hm hz').of_eq (by ring)
      clear_value zz zz'
      have hu1 : Residue m u1 (t.x * u.z ^ 2) := hx.mul hm hzz'
      have hu2 : Residue m u2 (u.x * t.z ^ 2) := hx'.mul hm hzz
      have hs1 : Residue m s1 (t.y * u.z ^ 3) := (hy.mul hm (hz'.mul hm hzz')).of_eq (by ring)
      have hs2 : Residue m s2 (u.y * t.z ^ 3) := (hy'.mul hm (hz.mul hm hzz)).of_eq (by ring)
      clear_value u1 u2 s1 s2
      have hxcond := eq_iff hm hu1 hu2
      have hycond := eq_iff hm hs1 hs2
      by_cases hxeq : t.x * u.z ^ 2 = u.x * t.z ^ 2
      · rw [if_pos (hxcond.mpr hxeq), if_pos hxeq]
        by_cases hyeq : t.y * u.z ^ 3 = u.y * t.z ^ 3
        · rw [if_pos (hycond.mpr hyeq), if_pos hyeq]
          exact hdouble
        · rw [if_neg (mt hycond.mp hyeq), if_neg hyeq]
          rfl
      · rw [if_neg (mt hxcond.mp hxeq), if_neg hxeq]
        have hh : Residue m h (u.x * t.z ^ 2 - t.x * u.z ^ 2) := hu2.sub hm hu1
        clear_value h
        have htwoh : Residue m twoh (2 * (u.x * t.z ^ 2 - t.x * u.z ^ 2)) :=
          (hh.add hm hh).of_eq (by ring)
        clear_value twoh
        have hi : Residue m i (4 * (u.x * t.z ^ 2 - t.x * u.z ^ 2) ^ 2) :=
          (htwoh.mul hm htwoh).of_eq (by ring)
        clear_value i
        have hj : Residue m j (4 * (u.x * t.z ^ 2 - t.x * u.z ^ 2) ^ 3) :=
          (hh.mul hm hi).of_eq (by ring)
        have hdiff := hs2.sub hm hs1
        have hr : Residue m r (2 * (u.y * t.z ^ 3 - t.y * u.z ^ 3)) :=
          (hdiff.add hm hdiff).of_eq (by ring)
        have hv : Residue m v (t.x * u.z ^ 2 * (4 * (u.x * t.z ^ 2 - t.x * u.z ^ 2) ^ 2)) :=
          hu1.mul hm hi
        clear_value j r v
        have hx3 : Residue m x3 (t.sum u).x :=
          (((hr.mul hm hr).sub hm hj).sub hm (hv.add hm hv)).of_eq
            (by simp only [Triple.sum]; ring)
        clear_value x3
        have hsj := hs1.mul hm hj
        have hy3 : Residue m y3 (t.sum u).y :=
          ((hr.mul hm (hv.sub hm hx3)).sub hm (hsj.add hm hsj)).of_eq
            (by simp only [Triple.sum]; ring)
        have hsum : Residue m zsum (t.z + u.z) := hz.add hm hz'
        clear_value zsum
        have hz3 : Residue m z3 (t.sum u).z :=
          ((((hsum.mul hm hsum).sub hm hzz).sub hm hzz').mul hm hh).of_eq
            (by simp only [Triple.sum]; ring)
        clear_value y3 z3
        exact ⟨rfl, hx3, hy3, hz3⟩

/-- The loop of `scalar` doubles, and adds at every bit that is set. -/
theorem stands_scalarLoop (hm : Modulus q m) {l k : Limbs} {x y : ZMod q}
    (hl : Residue m l x) (hk : Residue m k y) (d : Limbs) (i : ℕ) (ha : Stands m a t) :
    Stands m (scalarLoop d l k m i a) (multipleLoop (Limbs.value d) ⟨x, y, 1⟩ i t) := by
  induction i generalizing a t with
  | zero => exact ha
  | succ i ih =>
    have hdouble := stands_dbl hm ha
    unfold scalarLoop multipleLoop
    dsimp only
    apply ih
    rw [show bit d i = _ from Limbs.bit_eq_testBit d i]
    by_cases hbit : (Limbs.value d).testBit i = true
    · rw [if_pos hbit, if_pos hbit]
      exact stands_addMixed hm hdouble hl hk
    · rw [if_neg hbit, if_neg hbit]
      exact hdouble

/-- `scalar` runs over all bits of the number. -/
theorem stands_scalar (hm : Modulus q m) {l k : Limbs} {x y : ZMod q} (hl : Residue m l x)
    (hk : Residue m k y) {d : Limbs} (hd : Limbs.Normal d) : Stands m (scalar d l k m)
      (multipleLoop (Limbs.value d) ⟨x, y, 1⟩ (Limbs.value d).size none) := by
  unfold scalar
  rw [show nbits d = _ from Limbs.bits_eq_size hd]
  exact stands_scalarLoop hm hl hk d _ rfl

/-- The exponent of the inverse. -/
theorem value_sub_two (hm : Modulus q m) : Limbs.value (subraw m (small 2)) = q - 2 := by
  have htwo := (Fact.out : q.Prime).two_le
  have hsmall : Limbs.value (small 2) = 2 := by simp [small]
  have hle : Limbs.value (small 2) ≤ Limbs.value m := by rwa [hsmall, hm.value_eq]
  have hnormal : Limbs.Normal (small 2) := by
    intro w h
    cases h
    decide
  have hsub := Limbs.value_sub (hnormal.length_le hle) hle
  rwa [hsmall, hm.value_eq] at hsub

/-- The coordinate that is computed from a finite point. -/
theorem affineX_some (hm : Modulus q m) {t : Triple (ZMod q)} (ha : Stands m a (some t))
    (hz : t.z ≠ 0) : ∃ l, affineX a m = some l ∧ Residue m l (t.x / t.z ^ 2) := by
  obtain ⟨hinf, hx, -, ht⟩ := ha
  have hfinite : ¬ a.inf = true := by simp [hinf]
  have hinv := ht.inv hm (Limbs.normal_sub m (small 2)) (value_sub_two hm) hz
  unfold affineX
  rw [if_neg hfinite]
  refine ⟨_, rfl, ((hx.mul hm (hinv.mul hm hinv)).of_eq ?_)⟩
  rw [div_eq_mul_inv, sq, mul_inv]

end Formulas

/-! ## Points of the curve -/

open XboxTls.Interface.P256

/-- The constants of the code are those of the standard. -/
theorem ofOctets_constants : ofOctets pBe = p ∧ ofOctets nBe = n ∧ ofOctets bBe = b ∧
    ofOctets gxBe = gx ∧ ofOctets gyBe = gy := by
  decide +kernel

/-- The constants lie below the primes, and those below `2 ^ 256`. -/
theorem constants_lt : 2 < p ∧ b < p ∧ gx < p ∧ gy < p ∧ p < 256 ^ 32 ∧ n < 256 ^ 32 ∧
    256 ^ 32 < n + n := by
  decide +kernel

/-- The limbs of `p` are a modulus. -/
theorem modulus_p : Modulus p (be pBe) := by
  refine ⟨Limbs.normal_fromOctets 8 pBe, ?_⟩
  rw [Limbs.value_fromOctets (by decide)]
  exact ofOctets_constants.1

/-- The curve has `a = -3`. -/
theorem curve_minusThree : MinusThree curve := ⟨rfl, rfl, rfl, rfl⟩

/-- Two is not zero in the field. -/
theorem two_ne_zero_mod_p : (2 : ZMod p) ≠ 0 := by
  rw [← Nat.cast_two, ne_eq, ZMod.natCast_eq_zero_iff]
  exact Nat.not_dvd_of_pos_of_lt Nat.two_pos constants_lt.1

/-- The `JP` stands for the point. -/
def Denotes (a : JP) (R : curve.Point) : Prop :=
  ∃ t : Option (Triple (ZMod p)), Stands (be pBe) a t ∧ Programs.Represents curve t R

variable {a b : JP} {R S : curve.Point}

/-- `dbl` doubles the point. -/
theorem denotes_dbl (ha : Denotes a R) : Denotes (dbl a (be pBe)) (R + R) := by
  obtain ⟨t, hstands, hpoint⟩ := ha
  exact ⟨_, stands_dbl modulus_p hstands, hpoint.double curve_minusThree two_ne_zero_mod_p⟩

/-- `addj` adds the points. -/
theorem denotes_addj (ha : Denotes a R) (hb : Denotes b S) :
    Denotes (addj a b (be pBe)) (R + S) := by
  obtain ⟨t, hstands, hpoint⟩ := ha
  obtain ⟨u, hstands', hpoint'⟩ := hb
  exact ⟨_, stands_addj modulus_p hstands hstands',
    hpoint.add curve_minusThree two_ne_zero_mod_p hpoint'⟩

/-- The multiple of an affine point. -/
theorem denotes_scalar {l k d : Limbs} {x y : ZMod p} (h : curve.Nonsingular x y)
    (hl : Residue (be pBe) l x) (hk : Residue (be pBe) k y) (hd : Limbs.Normal d) :
    Denotes (scalar d l k (be pBe)) (Limbs.value d • .some x y h) :=
  ⟨_, stands_scalar modulus_p hl hk hd,
    represents_multiple curve_minusThree two_ne_zero_mod_p (represents_affine h) _⟩

/-- There is no coordinate at infinity only. -/
theorem affineX_denotes (ha : Denotes a R) :
    (R = 0 ∧ affineX a (be pBe) = none) ∨
      ∃ x y h l, R = .some x y h ∧ affineX a (be pBe) = some l ∧ Residue (be pBe) l x := by
  obtain ⟨t, hstands, hpoint⟩ := ha
  cases t with
  | none =>
    have hinf : a.inf = true := hstands
    refine Or.inl ⟨hpoint, ?_⟩
    unfold affineX
    rw [if_pos hinf]
  | some t =>
    obtain ⟨l, hsome, hresidue⟩ := affineX_some modulus_p hstands hpoint.2.1
    obtain ⟨hR, hcoord⟩ := hpoint.coordinates
    exact Or.inr ⟨_, _, hR, l, hcoord, hsome, hresidue⟩

end XboxTls.Analysis
