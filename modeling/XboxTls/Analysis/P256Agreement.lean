import XboxTls.Analysis.P256Verify
import XboxTls.Programs.JacobianNumbers

/-!
# Key agreement on P-256

The generator has the prime order `n`, so a private key in range and the public key of another
give a finite point, the same for both parties.  A peer value that is not the encoding of an affine
point is refused.
-/

set_option autoImplicit false

namespace XboxTls.Analysis

open Programs XboxTls.Model XboxTls.Model.P256 XboxTls.Interface.P256

/-! ## The order of the generator -/

/-- A multiple of the generator that the formulas take to infinity. -/
theorem nsmul_generator_eq_zero {k : ℕ}
    (hk : multipleLoopMod p k ⟨gx, gy, 1⟩ k.size none = none) : k • generator = 0 := by
  have hmultiple := represents_multiple curve_minusThree two_ne_zero_mod_p
    (represents_affine generator_nonsingular) k
  have hcast := cast_multipleLoopMod (p := p) k ⟨gx, gy, 1⟩ k.size none
  have hgenerator : (Triple.cast p ⟨gx, gy, 1⟩ : Triple (ZMod p)) = ⟨gx, gy, 1⟩ := by
    simp [Triple.cast]
  rw [hk, hgenerator, Option.map_none] at hcast
  rw [← hcast] at hmultiple
  exact hmultiple

/-- The multiple by `n` is the point at infinity. -/
theorem n_nsmul_generator : n • generator = 0 := by
  apply nsmul_generator_eq_zero
  decide +kernel

/-- The generator has order `n`. -/
theorem addOrderOf_generator : addOrderOf generator = n := by
  apply addOrderOf_eq_prime n_nsmul_generator
  intro hzero
  cases hzero

/-- A multiple is infinity exactly where `n` divides the factor. -/
theorem nsmul_generator_eq_zero_iff (d : ℕ) : d • generator = 0 ↔ n ∣ d := by
  rw [← addOrderOf_generator, addOrderOf_dvd_iff_nsmul_eq_zero]

/-! ## Affine coordinates -/

variable {a : JP} {R : curve.Point}

/-- There are no coordinates at infinity only. -/
theorem affineXY_denotes (ha : Denotes a R) :
    (R = 0 ∧ affineXY a (be pBe) = none) ∨
      ∃ x y h l k, R = .some x y h ∧ affineXY a (be pBe) = some (l, k) ∧
        Residue (be pBe) l x ∧ Residue (be pBe) k y := by
  obtain ⟨t, hstands, hpoint⟩ := ha
  cases t with
  | none =>
    have hinf : a.inf = true := hstands
    refine Or.inl ⟨hpoint, ?_⟩
    unfold affineXY
    rw [if_pos hinf]
  | some t =>
    have hm := modulus_p
    obtain ⟨hinf, hx, hy, ht⟩ := hstands
    have hfinite : ¬ a.inf = true := by simp [hinf]
    have hinv := ht.inv hm (Limbs.normal_sub _ (small 2)) (value_sub_two hm) hpoint.2.1
    obtain ⟨hR, hcoord⟩ := hpoint.coordinates
    refine Or.inr ⟨_, _, hR, _, _, hcoord, ?_, (hx.mul hm (hinv.mul hm hinv)).of_eq ?_,
      (hy.mul hm ((hinv.mul hm hinv).mul hm hinv)).of_eq ?_⟩
    · unfold affineXY
      rw [if_neg hfinite]
      rfl
    · rw [div_eq_mul_inv, sq, mul_inv]
    · rw [div_eq_mul_inv, pow_succ, sq, mul_inv, mul_inv]

/-- A coordinate is written in 32 octets. -/
theorem toBe32_residue {l : Limbs} {x : ZMod p} (h : Residue (be pBe) l x) :
    (toBe32 l).val = toOctets 32 x.val := by
  rw [h.val modulus_p]
  exact Limbs.toFixed_eq_toOctets l 32

/-! ## The two functions -/

/-- A private key is the number of its octets. -/
theorem value_private (d : FixedBytes 32) : Limbs.value (be d.val) = ofOctets d.val :=
  Limbs.value_fromOctets (by rw [d.property])

/-- The code accepts exactly the private keys. -/
theorem validPrivate_iff (d : FixedBytes 32) :
    validPrivate (be d.val) (be nBe) ↔ PrivateKey d := by
  have hrange := range_iff (Limbs.normal_fromOctets 8 d.val)
  rw [value_private] at hrange
  rw [PrivateKey, ← hrange, validPrivate, ge_iff_le, not_le]

/-- The public key encodes the multiple of the generator. -/
theorem p256PublicFromPrivate_spec {d : FixedBytes 32} (hd : PrivateKey d) :
    ∃ key, p256PublicFromPrivate d = .ok key ∧ Encodes key.val (ofOctets d.val • generator) := by
  have hscalar := denotes_scalar generator_nonsingular residue_gx residue_gy
    (Limbs.normal_fromOctets 8 d.val)
  rw [value_private] at hscalar
  unfold p256PublicFromPrivate
  dsimp only
  rw [if_neg (not_not.mpr ((validPrivate_iff d).mpr hd))]
  rcases affineXY_denotes hscalar with ⟨hzero, -⟩ | ⟨x, y, h, l, k, hpoint, hsome, hx, hy⟩
  · have hdvd := (nsmul_generator_eq_zero_iff _).mp hzero
    exact absurd hd.2 (Nat.not_lt.mpr (Nat.le_of_dvd hd.1 hdvd))
  · rw [hsome]
    refine ⟨_, rfl, x, y, h, hpoint, ?_⟩
    dsimp only
    rw [toBe32_residue hx, toBe32_residue hy]
    rfl

/-- The secret is the first coordinate of the multiple of the peer's point. -/
theorem p256SharedSecret_spec {d : FixedBytes 32} (hd : PrivateKey d) {peer : FixedBytes 65}
    {Q : curve.Point} (hQ : Encodes peer.val Q) {x y : ZMod p} {h : curve.Nonsingular x y}
    (hpoint : ofOctets d.val • Q = .some x y h) :
    ∃ secret, p256SharedSecret d peer = .ok secret ∧ secret.val = toOctets 32 x.val := by
  obtain ⟨⟨hlen, htag⟩, ⟨hxlt, hylt⟩, hcurve, rfl⟩ := (encodes_iff _ _).mp hQ
  have hx32 := slice_length (show 1 + 32 ≤ peer.val.length by rw [hlen]; decide)
  have hy32 := slice_length (show 33 + 32 ≤ peer.val.length by rw [hlen])
  have hqx := residue_be hx32 hxlt
  have hqy := residue_be hy32 hylt
  have hscalar := denotes_scalar hcurve hqx hqy (Limbs.normal_fromOctets 8 d.val)
  have hequation := (onCurve_iff hqx hqy).mpr ((curve_nonsingular_iff _ _).mp hcurve)
  have hbelow : ¬ (P256.cmp (be (slice peer.val 1 32)) (be pBe) ≥ 0 ∨
      P256.cmp (be (slice peer.val 33 32)) (be pBe) ≥ 0) := by
    rw [cmp_be_nonneg_iff hx32, cmp_be_nonneg_iff hy32]
    tauto
  rw [value_private, hpoint] at hscalar
  unfold p256SharedSecret
  dsimp only
  rw [if_neg (not_not.mpr htag), if_neg (not_not.mpr ((validPrivate_iff d).mpr hd)),
    if_neg hbelow, if_neg (not_not.mpr hequation)]
  rcases affineXY_denotes hscalar with ⟨hzero, -⟩ | ⟨x', y', h', l, k, hsame, hsome, hx, -⟩
  · cases hzero
  · rw [hsome]
    cases hsame
    exact ⟨_, rfl, toBe32_residue hx⟩

/-- What does not encode an affine point is refused. -/
theorem p256SharedSecret_of_not_encodes (d : FixedBytes 32) {peer : FixedBytes 65}
    (hpeer : ¬ ∃ Q, Encodes peer.val Q) : p256SharedSecret d peer = .error .verify := by
  have hx32 := slice_length (show 1 + 32 ≤ peer.val.length by rw [peer.property]; decide)
  have hy32 := slice_length (show 33 + 32 ≤ peer.val.length by rw [peer.property])
  unfold p256SharedSecret
  dsimp only
  by_cases htag : byteAt peer.val 0 ≠ 0x04
  · rw [if_pos htag]
    rfl
  rw [if_neg htag]
  by_cases hd : ¬ validPrivate (be d.val) (be nBe)
  · rw [if_pos hd]
    rfl
  rw [if_neg hd]
  by_cases hcmp : P256.cmp (be (slice peer.val 1 32)) (be pBe) ≥ 0 ∨
      P256.cmp (be (slice peer.val 33 32)) (be pBe) ≥ 0
  · rw [if_pos hcmp]
    rfl
  rw [if_neg hcmp]
  rw [cmp_be_nonneg_iff hx32, cmp_be_nonneg_iff hy32, not_or, not_not, not_not] at hcmp
  have hqx := residue_be hx32 hcmp.1
  have hqy := residue_be hy32 hcmp.2
  have hcurve : ¬ onCurve (be (slice peer.val 1 32)) (be (slice peer.val 33 32)) (be bBe)
      (be pBe) := by
    rw [onCurve_iff hqx hqy, ← curve_nonsingular_iff]
    intro hcurve
    apply hpeer
    exact ⟨_, (encodes_iff _ _).mpr ⟨⟨peer.property, not_not.mp htag⟩, hcmp, hcurve, rfl⟩⟩
  rw [if_pos hcurve]
  rfl

/-! ## The agreement -/

/-- The secret of two parties is a finite point. -/
theorem secret_ne_zero {a b : FixedBytes 32} (ha : PrivateKey a) (hb : PrivateKey b) :
    ofOctets a.val • ofOctets b.val • generator ≠ 0 := by
  intro hzero
  rw [← mul_nsmul', nsmul_generator_eq_zero_iff, prime_n.dvd_mul] at hzero
  rcases hzero with hdvd | hdvd
  · exact absurd ha.2 (Nat.not_lt.mpr (Nat.le_of_dvd ha.1 hdvd))
  · exact absurd hb.2 (Nat.not_lt.mpr (Nat.le_of_dvd hb.1 hdvd))

/-- **Two parties agree, and a peer value that is no point gives no secret.** -/
theorem p256_agreement :
    (∀ a b, PrivateKey a → PrivateKey b → ∃ keyA keyB secret,
      p256PublicFromPrivate a = .ok keyA ∧ p256PublicFromPrivate b = .ok keyB ∧
        p256SharedSecret a keyB = .ok secret ∧ p256SharedSecret b keyA = .ok secret) ∧
    ∀ d peer, (¬ ∃ Q, Encodes peer.val Q) → p256SharedSecret d peer = .error .verify := by
  constructor
  · intro a b ha hb
    obtain ⟨keyA, hkeyA, hencodeA⟩ := p256PublicFromPrivate_spec ha
    obtain ⟨keyB, hkeyB, hencodeB⟩ := p256PublicFromPrivate_spec hb
    have hcomm : ofOctets b.val • ofOctets a.val • generator =
        ofOctets a.val • ofOctets b.val • generator := nsmul_left_comm _ _ _
    have hfinite := secret_ne_zero ha hb
    cases hpoint : ofOctets a.val • ofOctets b.val • generator with
    | zero => exact absurd hpoint hfinite
    | some x y h =>
      rw [hpoint] at hcomm
      obtain ⟨secret, hsecret, hvalue⟩ := p256SharedSecret_spec ha hencodeB hpoint
      obtain ⟨secret', hsecret', hvalue'⟩ := p256SharedSecret_spec hb hencodeA hcomm
      have hsame : secret' = secret := Subtype.ext (hvalue'.trans hvalue.symm)
      rw [hsame] at hsecret'
      exact ⟨keyA, keyB, secret, hkeyA, hkeyB, hsecret, hsecret'⟩
  · intro d peer hpeer
    exact p256SharedSecret_of_not_encodes d hpeer

/-- A private key from its number. -/
def privateKeyOf (d : ℕ) : FixedBytes 32 := ⟨toOctets 32 d, length_toOctets 32 d⟩

/-- A key of zeros encodes no point. -/
theorem zeros_not_encodes : ¬ ∃ Q, Encodes (FixedBytes.zero 65).val Q := by
  rintro ⟨Q, hQ⟩
  have htag := ((encodes_iff _ _).mp hQ).1.2
  cases htag

/-- The private keys of `test_core.cpp`, and a peer value of zeros. -/
theorem p256_agreement_one_two :
    PrivateKey (privateKeyOf 1) ∧ PrivateKey (privateKeyOf 2) ∧
      (∃ keyA keyB secret, p256PublicFromPrivate (privateKeyOf 1) = .ok keyA ∧
        p256PublicFromPrivate (privateKeyOf 2) = .ok keyB ∧
          p256SharedSecret (privateKeyOf 1) keyB = .ok secret ∧
            p256SharedSecret (privateKeyOf 2) keyA = .ok secret) ∧
      p256SharedSecret (privateKeyOf 1) (FixedBytes.zero 65) = .error .verify := by
  have hone : PrivateKey (privateKeyOf 1) := by unfold PrivateKey; decide +kernel
  have htwo : PrivateKey (privateKeyOf 2) := by unfold PrivateKey; decide +kernel
  exact ⟨hone, htwo, p256_agreement.1 _ _ hone htwo, p256_agreement.2 _ _ zeros_not_encodes⟩

end XboxTls.Analysis
