import XboxTls.Analysis.DerReaders
import XboxTls.Analysis.P256Points
import XboxTls.Interface.PlainCrypto

/-!
# The P-256 verifier

The checks of the key find exactly the encodings of affine points (`encodes_iff`), and the numbers
that the code computes are the scalars of the standard, so that `native_p256_ecdsa_sha256_verify`
accepts what ECDSA does (`p256Verify_ok_iff`).
-/

set_option autoImplicit false

namespace XboxTls.Analysis

open Programs XboxTls.Model XboxTls.Model.P256 XboxTls.Interface.P256

/-! ## The key -/

/-- An octet string of 32 octets with a number below the modulus. -/
theorem residue_be {s : Bytes} (hlen : s.length = 32) (h : ofOctets s < p) :
    Residue (be pBe) (be s) (ofOctets s : ZMod p) := by
  have hvalue : Limbs.value (be s) = ofOctets s := Limbs.value_fromOctets (by omega)
  have hresidue := residue_of_lt modulus_p (Limbs.normal_fromOctets 8 s)
    (show Limbs.value (be s) < p by rwa [hvalue])
  rwa [hvalue] at hresidue

/-- The range check of a coordinate. -/
theorem cmp_be_nonneg_iff {s : Bytes} (hlen : s.length = 32) :
    P256.cmp (be s) (be pBe) ≥ 0 ↔ ¬ ofOctets s < p := by
  have hvalue : Limbs.value (be s) = ofOctets s := Limbs.value_fromOctets (by omega)
  rw [ge_iff_le, Limbs.cmp_nonneg (Limbs.normal_fromOctets 8 s) modulus_p.normal,
    modulus_p.value_eq, hvalue, Nat.not_lt]

/-- The constant of the curve stands for `b`. -/
theorem residue_b : Residue (be pBe) (be bBe) (b : ZMod p) := by
  have hvalue := ofOctets_constants.2.2.1
  have hresidue := residue_be (s := bBe) rfl (hvalue.trans_lt constants_lt.2.1)
  rwa [hvalue] at hresidue

/-- The code's check is the equation of the curve. -/
theorem onCurve_iff {l k : Limbs} {x y : ZMod p} (hl : Residue (be pBe) l x)
    (hk : Residue (be pBe) k y) : onCurve l k (be bBe) (be pBe) ↔ curve.Equation x y := by
  have hm := modulus_p
  have hleft := hk.mul hm hk
  have hcube := (hl.mul hm hl).mul hm hl
  have hthree := (hl.add hm hl).add hm hl
  have hright := (hcube.sub hm hthree).add hm residue_b
  have hcmp := eq_iff hm hleft hright
  rw [curve_equation_iff]
  apply hcmp.trans
  rw [show y * y = y ^ 2 by ring, show x * x * x - (x + x + x) + b = x ^ 3 - 3 * x + b by ring]

/-- The encodings of a point, by the parts of the string. -/
theorem encodes_iff (key : Bytes) (Q : curve.Point) : Encodes key Q ↔
    (key.length = 65 ∧ byteAt key 0 = 0x04) ∧
      (ofOctets (slice key 1 32) < p ∧ ofOctets (slice key 33 32) < p) ∧
      ∃ h, Q = .some (ofOctets (slice key 1 32) : ZMod p) (ofOctets (slice key 33 32) : ZMod p) h
    := by
  constructor
  · rintro ⟨x, y, h, rfl, rfl⟩
    have hoctets : ∀ v : ZMod p, ofOctets (toOctets 32 v.val) = v.val := by
      intro v
      rw [ofOctets_toOctets, Nat.mod_eq_of_lt ((ZMod.val_lt v).trans constants_lt.2.2.2.2.1)]
    have hx : slice (uncompressed x y) 1 32 = toOctets 32 x.val := by
      simp [uncompressed, slice]
    have hy : slice (uncompressed x y) 33 32 = toOctets 32 y.val := by
      simp [uncompressed, slice]
    rw [hx, hy, hoctets, hoctets]
    refine ⟨⟨by simp [uncompressed], rfl⟩, ⟨ZMod.val_lt x, ZMod.val_lt y⟩, ?_⟩
    rw [ZMod.natCast_zmod_val, ZMod.natCast_zmod_val]
    exact ⟨h, rfl⟩
  · rintro ⟨⟨hlen, htag⟩, ⟨hx, hy⟩, h, hQ⟩
    refine ⟨_, _, h, hQ, ?_⟩
    have hfirst : (slice key 1 32).length = 32 := slice_length (by omega)
    have hsecond : (slice key 33 32).length = 32 := slice_length (by omega)
    have hone := toOctets_ofOctets (slice key 1 32)
    have htwo := toOctets_ofOctets (slice key 33 32)
    rw [hfirst] at hone
    rw [hsecond] at htwo
    unfold uncompressed
    rw [ZMod.val_natCast, ZMod.val_natCast, Nat.mod_eq_of_lt hx, Nat.mod_eq_of_lt hy, hone, htwo]
    cases key with
    | nil => cases hlen
    | cons tag rest =>
      have hrest : rest.length = 64 := Nat.succ_injective hlen
      have hhead : tag = 0x04 := htag
      have hlow : slice (tag :: rest) 1 32 = rest.take 32 := rfl
      have hhigh : slice (tag :: rest) 33 32 = rest.drop 32 :=
        List.take_of_length_le (by simp [hrest])
      rw [hlow, hhigh, List.take_append_drop, hhead]

/-! ## The scalars -/

/-- The limbs of `n` are a modulus. -/
theorem modulus_n : Modulus n (be nBe) := by
  refine ⟨Limbs.normal_fromOctets 8 nBe, ?_⟩
  rw [Limbs.value_fromOctets (by decide)]
  exact ofOctets_constants.2.1

/-- The number of a digest is reduced by at most one subtraction. -/
theorem residue_digest (d : FixedBytes 32) :
    Residue (be nBe)
      (if P256.cmp (be d.val) (be nBe) ≥ 0 then subraw (be d.val) (be nBe) else be d.val)
      (ofOctets d.val : ZMod n) := by
  have hm := modulus_n
  have hd := Limbs.normal_fromOctets 8 d.val
  have hvalue : Limbs.value (be d.val) = ofOctets d.val :=
    Limbs.value_fromOctets (by rw [d.property])
  have hlt := ofOctets_lt d.val
  rw [d.property] at hlt
  have htwice := constants_lt.2.2.2.2.2.2
  have hcmp := Limbs.cmp_nonneg hd hm.normal
  rw [hm.value_eq, hvalue] at hcmp
  by_cases hle : n ≤ ofOctets d.val
  · have hsub : Limbs.value (subraw (be d.val) (be nBe)) = ofOctets d.val - n := by
      rw [show subraw (be d.val) (be nBe) = Limbs.sub (be d.val) (be nBe) from rfl,
        Limbs.value_sub (hm.normal.length_le (by rwa [hm.value_eq, hvalue]))
          (by rwa [hm.value_eq, hvalue]), hvalue, hm.value_eq]
    rw [if_pos (hcmp.mpr hle)]
    apply (residue_of_lt hm (Limbs.normal_sub _ _) (by rw [hsub]; omega)).of_eq
    rw [hsub, Nat.cast_sub hle, ZMod.natCast_self, sub_zero]
  · rw [if_neg (mt hcmp.mp hle)]
    apply (residue_of_lt hm hd (by rw [hvalue]; omega)).of_eq
    rw [hvalue]

/-- As many rounds as the number is large are enough. -/
theorem reduceLoop_spec {m : Limbs} (hm : Limbs.Normal m) (hpos : 0 < Limbs.value m) (fuel : ℕ)
    {x : Limbs} (hx : Limbs.Normal x) (hfuel : Limbs.value x ≤ fuel) :
    Limbs.Normal (reduceLoop m fuel x) ∧
      Limbs.value (reduceLoop m fuel x) = Limbs.value x % Limbs.value m := by
  induction fuel generalizing x with
  | zero =>
    have hzero : Limbs.value x = 0 := Nat.le_zero.mp hfuel
    refine ⟨hx, ?_⟩
    rw [hzero, Nat.zero_mod]
    exact hzero
  | succ fuel ih =>
    have hcmp := Limbs.cmp_nonneg hx hm
    unfold reduceLoop
    by_cases hle : Limbs.value m ≤ Limbs.value x
    · have hsub := Limbs.value_sub (hm.length_le hle) hle
      have hrest := ih (Limbs.normal_sub x m) (by omega)
      rw [if_pos (hcmp.mpr hle)]
      refine ⟨hrest.1, hrest.2.trans ?_⟩
      rw [hsub, ← Nat.mod_eq_sub_mod hle]
    · rw [if_neg (mt hcmp.mp hle)]
      exact ⟨hx, (Nat.mod_eq_of_lt (Nat.not_le.mp hle)).symm⟩

/-! ## The check -/

/-- The numbers of a signature have no leading zeros. -/
theorem normal_of_parseSig {signature : Bytes} {r s : Limbs}
    (h : parseSig signature = some (r, s)) : Limbs.Normal r ∧ Limbs.Normal s := by
  unfold parseSig at h
  simp only [Option.bind_eq_bind, Option.bind_none, Option.ite_none_left_eq_some,
    Option.bind_eq_some_iff, Option.pure_def, Option.some.injEq, Prod.mk.injEq] at h
  obtain ⟨-, -, -, -, -, -, -, -, -, -, rfl, rfl⟩ := h
  exact ⟨Limbs.normal_fromOctets _ _, Limbs.normal_fromOctets _ _⟩

/-- The range check of a scalar. -/
theorem range_iff {r : Limbs} (hr : Limbs.Normal r) :
    ¬ zero r ∧ ¬ P256.cmp r (be nBe) ≥ 0 ↔ 1 ≤ Limbs.value r ∧ Limbs.value r < n := by
  have hcmp := Limbs.cmp_nonneg hr modulus_n.normal
  have hzero : zero r ↔ Limbs.value r = 0 := by
    rw [hr.value_eq_zero]
    exact List.length_eq_zero_iff
  rw [modulus_n.value_eq] at hcmp
  rw [hzero, ge_iff_le, hcmp, Nat.one_le_iff_ne_zero, Nat.not_le]

/-- The first coordinate of the generator. -/
theorem residue_gx : Residue (be pBe) (be gxBe) (gx : ZMod p) := by
  have hvalue := ofOctets_constants.2.2.2.1
  have hresidue := residue_be (s := gxBe) rfl (hvalue.trans_lt constants_lt.2.2.1)
  rwa [hvalue] at hresidue

/-- The second coordinate of the generator. -/
theorem residue_gy : Residue (be pBe) (be gyBe) (gy : ZMod p) := by
  have hvalue := ofOctets_constants.2.2.2.2
  have hresidue := residue_be (s := gyBe) rfl (hvalue.trans_lt constants_lt.2.2.2.1)
  rwa [hvalue] at hresidue

/-- The sum of the two multiples. -/
theorem denotes_sum {l k : Limbs} {x y : ZMod p} (h : curve.Nonsingular x y)
    (hl : Residue (be pBe) l x) (hk : Residue (be pBe) k y) {z r s : Limbs} {u v w : ZMod n}
    (hz : Residue (be nBe) z u) (hr : Residue (be nBe) r v) (hs : Residue (be nBe) s w)
    (hw : w ≠ 0) :
    Denotes (addj
      (scalar (mulm z (powm s (subraw (be nBe) (small 2)) (be nBe)) (be nBe)) (be gxBe) (be gyBe)
        (be pBe))
      (scalar (mulm r (powm s (subraw (be nBe) (small 2)) (be nBe)) (be nBe)) l k (be pBe))
      (be pBe)) ((u * w⁻¹).val • generator + (v * w⁻¹).val • .some x y h) := by
  have hm := modulus_n
  have hinv := (hs.inv hm (Limbs.normal_sub _ _) (value_sub_two hm) hw)
  have hfirst := hz.mul hm hinv
  have hsecond := hr.mul hm hinv
  rw [hfirst.val hm, hsecond.val hm]
  exact denotes_addj (denotes_scalar generator_nonsingular residue_gx residue_gy
    hfirst.below.normal) (denotes_scalar h hl hk hsecond.below.normal)

/-- The comparison at the end, with the coordinate of the sum. -/
theorem checkSignature_ok_iff (P : Crypto) (message : Bytes) {l k : Limbs} {x y : ZMod p}
    (h : curve.Nonsingular x y) (hl : Residue (be pBe) l x) (hk : Residue (be pBe) k y)
    {r s : Limbs} (hr : Limbs.Normal r) (hrn : Limbs.value r < n) (hs : Limbs.Normal s)
    (hpos : 1 ≤ Limbs.value s) (hsn : Limbs.value s < n) :
    checkSignature P message l k r s = .ok () ↔
      ∃ x' y' h', (ofOctets (P.sha256 message).val * (Limbs.value s : ZMod n)⁻¹).val • generator +
        (Limbs.value r * (Limbs.value s : ZMod n)⁻¹).val • .some x y h = .some x' y' h' ∧
          x'.val ≡ Limbs.value r [MOD n] := by
  have hm := modulus_n
  have hne : (Limbs.value s : ZMod n) ≠ 0 := by
    rw [ne_eq, ZMod.natCast_eq_zero_iff]
    exact Nat.not_dvd_of_pos_of_lt hpos hsn
  have hsum := denotes_sum h hl hk (residue_digest (P.sha256 message))
    (residue_of_lt hm hr hrn) (residue_of_lt hm hs hsn) hne
  unfold checkSignature
  dsimp only
  rcases affineX_denotes hsum with ⟨hzero, hnone⟩ | ⟨x', y', h', c, hsome, hc, hresidue⟩
  · rw [hnone, hzero]
    constructor
    · intro herr
      cases herr
    · rintro ⟨x', y', h', hpoint, -⟩
      cases hpoint
  · have hnpos : 0 < Limbs.value (be nBe) := by
      rw [hm.value_eq]
      exact prime_n.pos
    obtain ⟨hnormal, hvalue⟩ := reduceLoop_spec hm.normal hnpos (Limbs.value c)
      hresidue.below.normal (le_refl _)
    have heq : P256.eq (reduceLoop (be nBe) (Limbs.value c) c) r ↔
        x'.val ≡ Limbs.value r [MOD n] := by
      rw [hresidue.val modulus_p]
      apply (Limbs.cmp_eq_zero hnormal hr).trans
      rw [hvalue, hm.value_eq, Nat.ModEq, Nat.mod_eq_of_lt hrn]
    rw [hc, hsome]
    dsimp only
    rw [show (throw Error.verify : Except Error Unit) = .error .verify from rfl, refuse_eq_ok, heq,
      not_not]
    constructor
    · rintro ⟨hcong, -⟩
      exact ⟨x', y', h', rfl, hcong⟩
    · rintro ⟨x'', y'', h'', hpoint, hcong⟩
      cases hpoint
      exact ⟨hcong, rfl⟩

/-- **The verifier accepts what ECDSA does.** -/
theorem p256Verify_ok_iff (P : Crypto) (key message signature : Bytes) (r s : Limbs)
    (h : parseSig signature = some (r, s)) :
    nativeP256EcdsaSha256Verify P key message signature = .ok () ↔ ∃ Q, Encodes key Q ∧
      EcdsaVerify P.sha256 Q message (Limbs.value r) (Limbs.value s) := by
  obtain ⟨hr, hs⟩ := normal_of_parseSig h
  have hrange := range_iff hr
  have hrange' := range_iff hs
  unfold nativeP256EcdsaSha256Verify
  rw [h]
  simp only [throw_bind, refuse_eq_ok]
  simp only [encodes_iff, not_or, ne_eq, not_not] at hrange hrange' ⊢
  constructor
  · rintro ⟨hkey, ⟨hx, hy⟩, hcurve, ⟨hr0, hs0, hrn, hsn⟩, hcheck⟩
    have hx32 := slice_length (show 1 + 32 ≤ key.length by rw [hkey.1]; decide)
    have hy32 := slice_length (show 33 + 32 ≤ key.length by rw [hkey.1])
    rw [cmp_be_nonneg_iff hx32, not_not] at hx
    rw [cmp_be_nonneg_iff hy32, not_not] at hy
    have hqx := residue_be hx32 hx
    have hqy := residue_be hy32 hy
    rw [onCurve_iff hqx hqy, ← curve_nonsingular_iff] at hcurve
    obtain ⟨hrpos, hrlt⟩ := hrange.mp ⟨hr0, hrn⟩
    obtain ⟨hspos, hslt⟩ := hrange'.mp ⟨hs0, hsn⟩
    refine ⟨_, ⟨hkey, ⟨hx, hy⟩, hcurve, rfl⟩, hrpos, hrlt, hspos, hslt, ?_⟩
    exact (checkSignature_ok_iff P message hcurve hqx hqy hr hrlt hs hspos hslt).mp hcheck
  · rintro ⟨Q, ⟨hkey, ⟨hx, hy⟩, hcurve, rfl⟩, hvalid⟩
    have hx32 := slice_length (show 1 + 32 ≤ key.length by rw [hkey.1]; decide)
    have hy32 := slice_length (show 33 + 32 ≤ key.length by rw [hkey.1])
    have hqx := residue_be hx32 hx
    have hqy := residue_be hy32 hy
    obtain ⟨hr0, hrn⟩ := hrange.mpr ⟨hvalid.r_pos, hvalid.r_lt⟩
    obtain ⟨hs0, hsn⟩ := hrange'.mpr ⟨hvalid.s_pos, hvalid.s_lt⟩
    have hequation := (onCurve_iff hqx hqy).mpr ((curve_nonsingular_iff _ _).mp hcurve)
    refine ⟨hkey, ?_, hequation, ⟨hr0, hs0, hrn, hsn⟩, ?_⟩
    · rw [cmp_be_nonneg_iff hx32, cmp_be_nonneg_iff hy32, not_not, not_not]
      exact ⟨hx, hy⟩
    · exact (checkSignature_ok_iff P message hcurve hqx hqy hr hvalid.r_lt hs hvalid.s_pos
        hvalid.s_lt).mpr hvalid.point

/-- The key is the generator, and the signature (1, 1). -/
theorem p256Verify_ok_iff_one :
    parseSig [0x30, 0x06, 0x02, 0x01, 0x01, 0x02, 0x01, 0x01] = some ([1], [1]) ∧
      (nativeP256EcdsaSha256Verify Interface.plainCrypto (uncompressed gx gy) []
        [0x30, 0x06, 0x02, 0x01, 0x01, 0x02, 0x01, 0x01] = .ok () ↔
          ∃ Q, Encodes (uncompressed gx gy) Q ∧
            EcdsaVerify Interface.plainCrypto.sha256 Q [] (Limbs.value [1]) (Limbs.value [1])) :=
  ⟨by decide, p256Verify_ok_iff Interface.plainCrypto _ _ _ _ _ (by decide)⟩

end XboxTls.Analysis
