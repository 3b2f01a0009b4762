import XboxTls.Analysis.X25519
import XboxTls.Interface.Curve25519

/-!
# Key agreement on X25519

The ladder of the standard computes the first coordinate of every multiple of a point.  The base
point has a prime order above every private scalar without its factor eight, so two parties get
one secret, and the only points of the curve that give none are those that eight takes to infinity.
-/

set_option autoImplicit false

namespace XboxTls.Analysis

open Programs XboxTls.Model XboxTls.Model.X25519 XboxTls.Interface.X25519

/-! ## The ladder -/

/-- The variables of the ladder as ratios, with the swap that is still due. -/
def ratios (s : State) : Ratio (ZMod p) × Ratio (ZMod p) :=
  if s.swap then (⟨s.x3, s.z3⟩, ⟨s.x2, s.z2⟩) else (⟨s.x2, s.z2⟩, ⟨s.x3, s.z3⟩)

/-- A step of the ladder on ratios. -/
theorem ratios_step (k : ℕ) (u : ZMod p) (s : State) (t : ℕ) :
    ratios (step k u s t) =
      if k.testBit t then
        ((ratios s).1.sum u (ratios s).2, (ratios s).2.doubled 121665)
      else ((ratios s).1.doubled 121665, (ratios s).1.sum u (ratios s).2) := by
  obtain ⟨x2, z2, x3, z3, swap⟩ := s
  by_cases hbit : k.testBit t = true
  · rw [if_pos hbit, Ratio.sum_comm]
    cases swap <;> simp only [ratios, step, cswap, hbit] <;> rfl
  · rw [if_neg hbit]
    rw [Bool.not_eq_true] at hbit
    cases swap
    · simp only [ratios, step, cswap, hbit]
      rfl
    · simp only [ratios, step, cswap, hbit]
      rfl

/-- The ladder on ratios. -/
theorem ratios_ladder (k : ℕ) (u : ZMod p) (n : ℕ) (s : State) :
    ratios (ladder k u n s) = Ratio.ladder 121665 u k n (ratios s) := by
  induction n generalizing s with
  | zero => rfl
  | succ n ih =>
    rw [ladder, ih, ratios_step]
    rfl

/-- The inverse, as the power that is computed. -/
theorem pow_sub_two (z : ZMod p) : z ^ (p - 2) = z⁻¹ := by
  have hp := prime_p.two_le
  by_cases hz : z = 0
  · have hexponent : p - 2 ≠ 0 := by
      rw [p]
      norm_num
    rw [hz, zero_pow hexponent, inv_zero]
  · have hone := ZMod.pow_card_sub_one_eq_one hz
    have hsplit : p - 1 = p - 2 + 1 := by omega
    rw [hsplit, pow_succ] at hone
    exact eq_inv_of_mul_eq_one_left hone

/-- **The first coordinate of a multiple.** -/
theorem montgomery_multiple {k : ℕ} (hk : k < 2 ^ 255) (Q : curve.Point) :
    montgomery k (firstCoordinate Q) = firstCoordinate (k • Q) := by
  rw [← montgomeryCurve_curve.multiple hk Q rfl]
  have hratios := ratios_ladder k (firstCoordinate Q) 255 ⟨1, 0, firstCoordinate Q, 1, false⟩
  have hstart : ratios ⟨1, 0, firstCoordinate Q, 1, false⟩ =
      (⟨1, 0⟩, ⟨firstCoordinate Q, 1⟩) := rfl
  rw [hstart] at hratios
  rw [← hratios, montgomery_eq k _ rfl, pow_sub_two, ← div_eq_mul_inv]
  generalize ladder k (firstCoordinate Q) 255 ⟨1, 0, firstCoordinate Q, 1, false⟩ = s
  obtain ⟨x2, z2, x3, z3, swap⟩ := s
  cases swap <;> rfl

/-! ## The encodings -/

/-- A coordinate that was encoded is decoded. -/
theorem decodeUCoordinate_encode (x : ZMod p) : decodeUCoordinate (encodeUCoordinate x) = x := by
  have hlt := ZMod.val_lt x
  have hp : p < 2 ^ 255 := by
    rw [p]
    norm_num
  have hwide : (2 : ℕ) ^ 255 < 256 ^ 32 := by norm_num
  rw [decodeUCoordinate, encodeUCoordinate, littleEndian, List.reverse_reverse, ofOctets_toOctets,
    Nat.mod_eq_of_lt (hlt.trans (hp.trans hwide)), Nat.mod_eq_of_lt (hlt.trans hp),
    ZMod.natCast_zmod_val]

/-- A coordinate has 32 octets. -/
theorem length_encodeUCoordinate (x : ZMod p) : (encodeUCoordinate x).length = 32 := by
  rw [encodeUCoordinate, List.length_reverse, length_toOctets]

/-- Only zero is encoded as zeros. -/
theorem encodeUCoordinate_eq_zero_iff (x : ZMod p) :
    encodeUCoordinate x = List.replicate 32 0 ↔ x = 0 := by
  constructor
  · intro hzero
    rw [← decodeUCoordinate_encode x, hzero, decodeUCoordinate, littleEndian,
      List.reverse_replicate, ofOctets_replicate_zero, Nat.zero_mod, Nat.cast_zero]
  · rintro rfl
    rw [encodeUCoordinate, ZMod.val_zero]
    decide

/-- The base point has coordinate 9. -/
theorem basePoint_eq : decodeUCoordinate basePoint = firstCoordinate generator := by
  have hnumber : littleEndian basePoint = 9 := by decide
  rw [decodeUCoordinate, hnumber]
  rfl

/-- The array that `x25519_public_from_private` multiplies is the base point. -/
theorem set_nine_eq : ((FixedBytes.zero 32).set 0 9).val = basePoint := by decide

/-- Its coordinate is that of the generator. -/
theorem decodeUCoordinate_set_nine :
    decodeUCoordinate ((FixedBytes.zero 32).set 0 9).val = firstCoordinate generator := by
  rw [set_nine_eq, basePoint_eq]

/-! ## The scalars -/

/-- A private scalar is eight times a number below the order. -/
theorem decodeScalar_eq (k : Bytes) : ∃ m, decodeScalar k = 8 * m ∧ 0 < m ∧ m < 2 ^ 252 := by
  refine ⟨2 ^ 251 + littleEndian k % 2 ^ 254 / 8, ?_, by omega, by omega⟩
  rw [decodeScalar]
  omega

/-- A scalar has 255 bits. -/
theorem decodeScalar_lt (k : Bytes) : decodeScalar k < 2 ^ 255 := by
  obtain ⟨m, hm, -, hlt⟩ := decodeScalar_eq k
  omega

/-- The order has more than 252 bits. -/
theorem order_gt : 2 ^ 252 < order := by
  rw [order]
  omega

/-- A number that is prime to the order, times eight. -/
theorem not_dvd_scalar {m : ℕ} (hpos : 0 < m) (hlt : m < 2 ^ 252) : ¬ order ∣ m := by
  intro hdvd
  have hle := Nat.le_of_dvd hpos hdvd
  have hgt := order_gt
  omega

/-- The order does not divide two. -/
theorem not_dvd_two : ¬ order ∣ 2 := not_dvd_scalar (by omega) (by norm_num)

/-! ## The order of the base point -/

/-- Nine is not zero in the field. -/
theorem nine_ne_zero : (9 : ZMod p) ≠ 0 := by
  have hnine := natCast_ne_natCast (x := 9) (y := 0) (by decide +kernel)
  exact_mod_cast hnine

/-- A multiple of the base point that the formulas take to infinity. -/
theorem nsmul_basePoint_eq_zero {k n : ℕ} (hk : k < 2 ^ n)
    (hzero : (Ratio.ladderMod p 121665 9 k n (⟨1, 0⟩, ⟨9, 1⟩)).1.z = 0) : k • generator = 0 := by
  have hquotient : k / 2 ^ n = 0 := Nat.div_eq_of_lt hk
  have hprojects : Projects (Ratio.ladder 121665 9 k n (⟨1, 0⟩, ⟨9, 1⟩)).1 (k • generator) := by
    apply Projects.ladder montgomeryCurve_curve nine_ne_zero rfl k n
    · rw [hquotient, zero_nsmul]
      exact ⟨one_ne_zero, rfl⟩
    · rw [hquotient, zero_add, one_nsmul]
      exact ⟨one_ne_zero, (mul_one _).symm⟩
  have hcast := congrArg Prod.fst (Ratio.cast_ladderMod (p := p) 121665 9 k n ⟨1, 0⟩ ⟨9, 1⟩)
  have hfirst : (Ratio.cast p ⟨1, 0⟩ : Ratio (ZMod p)) = ⟨1, 0⟩ := by simp [Ratio.cast]
  have hsecond : (Ratio.cast p ⟨9, 1⟩ : Ratio (ZMod p)) = ⟨9, 1⟩ := by simp [Ratio.cast]
  rw [hfirst, hsecond, Nat.cast_ofNat, Nat.cast_ofNat] at hcast
  rw [← hcast] at hprojects
  apply hprojects.eq_zero
  show (((Ratio.ladderMod p 121665 9 k n (⟨1, 0⟩, ⟨9, 1⟩)).1.z : ℕ) : ZMod p) = 0
  rw [hzero, Nat.cast_zero]

/-- The multiple by the order is the point at infinity. -/
theorem order_nsmul_basePoint : order • generator = 0 := by
  apply nsmul_basePoint_eq_zero (n := 253)
  · rw [order]
    norm_num
  · decide +kernel

/-- A multiple is infinity exactly where the order divides the factor. -/
theorem nsmul_basePoint_eq_zero_iff (k : ℕ) : k • generator = 0 ↔ order ∣ k := by
  have : Fact order.Prime := ⟨prime_order⟩
  have horder : addOrderOf generator = order := by
    apply addOrderOf_eq_prime order_nsmul_basePoint
    intro hzero
    cases hzero
  rw [← horder, addOrderOf_dvd_iff_nsmul_eq_zero]

/-! ## The functions on points -/

/-- Twice a point with the first coordinate zero is infinity. -/
theorem two_nsmul_eq_zero {Q : curve.Point} (hQ : firstCoordinate Q = 0) : 2 • Q = 0 := by
  rw [two_nsmul]
  exact montgomeryCurve_curve.add_self_eq_zero hQ

/-- X25519 of a private key and of the encoding of a point. -/
theorem x25519_point (d peer : FixedBytes 32) {Q : curve.Point}
    (hpeer : decodeUCoordinate peer.val = firstCoordinate Q) :
    x25519 d.val peer.val = encodeUCoordinate (firstCoordinate (decodeScalar d.val • Q)) := by
  rw [x25519, hpeer, montgomery_multiple (decodeScalar_lt d.val)]

/-- The secret is refused exactly when its first coordinate is zero. -/
theorem x25519SharedSecret_point (d peer : FixedBytes 32) {Q : curve.Point}
    (hpeer : decodeUCoordinate peer.val = firstCoordinate Q) :
    x25519SharedSecret d peer =
      some (if firstCoordinate (decodeScalar d.val • Q) = 0 then .error .verify
        else .ok (encodeUCoordinate (firstCoordinate (decodeScalar d.val • Q)))) := by
  have hzero := allZero_iff (encodeUCoordinate (firstCoordinate (decodeScalar d.val • Q)))
  rw [length_encodeUCoordinate, encodeUCoordinate_eq_zero_iff] at hzero
  simp only [x25519SharedSecret, scalarmult_eq, x25519_point d peer hpeer, Option.bind_eq_bind,
    Option.bind_some, Option.pure_def, hzero]

/-- A public key is the coordinate of a multiple of the base point. -/
theorem x25519PublicFromPrivate_point (d : FixedBytes 32) :
    x25519PublicFromPrivate d =
      some (encodeUCoordinate (firstCoordinate (decodeScalar d.val • generator))) := by
  rw [x25519PublicFromPrivate, scalarmult_eq, x25519_point d _ decodeUCoordinate_set_nine]

/-- No private scalar takes a point to the first coordinate zero that is not taken to infinity by
eight, if its order divides that of the whole curve. -/
theorem firstCoordinate_nsmul_eq_zero_iff (d : Bytes) {Q : curve.Point}
    (hQ : (8 * order) • Q = 0) : firstCoordinate (decodeScalar d • Q) = 0 ↔ 8 • Q = 0 := by
  obtain ⟨m, hm, hpos, hlt⟩ := decodeScalar_eq d
  constructor
  · intro hzero
    have hdouble := two_nsmul_eq_zero hzero
    rw [hm, ← mul_nsmul', ← addOrderOf_dvd_iff_nsmul_eq_zero] at hdouble
    rw [← addOrderOf_dvd_iff_nsmul_eq_zero] at hQ ⊢
    have hcoprime : (2 * m).Coprime order := by
      rw [Nat.coprime_comm, prime_order.coprime_iff_not_dvd, prime_order.dvd_mul, not_or]
      exact ⟨not_dvd_two, not_dvd_scalar hpos hlt⟩
    have hgcd : Nat.gcd (2 * (8 * m)) (8 * order) = 8 := by
      rw [Nat.mul_left_comm, Nat.gcd_mul_left, hcoprime, Nat.mul_one]
    rw [← hgcd]
    exact Nat.dvd_gcd hdouble hQ
  · intro hzero
    rw [hm, Nat.mul_comm, mul_nsmul', hzero, nsmul_zero]
    rfl

/-! ## The agreement -/

/-- A multiple of the base point by a private scalar, and its double. -/
theorem public_point (d : Bytes) :
    (8 * order) • decodeScalar d • generator = 0 ∧ 8 • decodeScalar d • generator ≠ 0 := by
  obtain ⟨m, hm, hpos, hlt⟩ := decodeScalar_eq d
  rw [← mul_nsmul', ← mul_nsmul', nsmul_basePoint_eq_zero_iff, ne_eq, nsmul_basePoint_eq_zero_iff]
  refine ⟨Dvd.dvd.mul_right (Nat.dvd_mul_left order 8) _, fun hdvd => ?_⟩
  rw [hm, ← Nat.mul_assoc, prime_order.dvd_mul] at hdvd
  rcases hdvd with hdvd | hdvd
  · exact not_dvd_scalar (by omega) (by norm_num) hdvd
  · exact not_dvd_scalar hpos hlt hdvd

/-- The encoding of the first coordinate, as an array. -/
def encoded (Q : curve.Point) : FixedBytes 32 :=
  ⟨encodeUCoordinate (firstCoordinate Q), length_encodeUCoordinate (firstCoordinate Q)⟩

/-- The octets of an encoded point. -/
theorem encoded_val (Q : curve.Point) :
    (encoded Q).val = encodeUCoordinate (firstCoordinate Q) := by
  rw [encoded]

/-- A point that was encoded is decoded to its coordinate. -/
theorem decodeUCoordinate_encoded (Q : curve.Point) :
    decodeUCoordinate (encoded Q).val = firstCoordinate Q := by
  rw [encoded_val, decodeUCoordinate_encode]

/-- A public key encodes a multiple of the base point. -/
theorem x25519PublicFromPrivate_encoded (d : FixedBytes 32) :
    x25519PublicFromPrivate d = some (encoded (decodeScalar d.val • generator)).val := by
  rw [encoded_val, x25519PublicFromPrivate_point]

/-- What a party gets from the public key of another. -/
theorem secret_of_public (a b : FixedBytes 32) :
    x25519SharedSecret a (encoded (decodeScalar b.val • generator)) =
      some (.ok (encoded (decodeScalar a.val • decodeScalar b.val • generator)).val) := by
  obtain ⟨horder, height⟩ := public_point b.val
  rw [x25519SharedSecret_point a _ (decodeUCoordinate_encoded _), encoded_val,
    if_neg (mt (firstCoordinate_nsmul_eq_zero_iff a.val horder).mp height)]

/-- **Two parties agree, and a point gives no secret exactly if eight takes it to infinity.** -/
theorem x25519_agreement :
    (∀ a b : FixedBytes 32, ∃ keyA keyB secret : FixedBytes 32,
      x25519PublicFromPrivate a = some keyA.val ∧ x25519PublicFromPrivate b = some keyB.val ∧
        x25519SharedSecret a keyB = some (.ok secret.val) ∧
        x25519SharedSecret b keyA = some (.ok secret.val)) ∧
    ∀ (d peer : FixedBytes 32) (Q : curve.Point),
      decodeUCoordinate peer.val = firstCoordinate Q → (8 * order) • Q = 0 →
      (8 • Q = 0 → x25519SharedSecret d peer = some (.error .verify)) ∧
      (8 • Q ≠ 0 → x25519SharedSecret d peer = some (.ok (encodeUCoordinate
        (firstCoordinate (decodeScalar d.val • Q))))) := by
  constructor
  · intro a b
    refine ⟨encoded (decodeScalar a.val • generator), encoded (decodeScalar b.val • generator),
      encoded (decodeScalar a.val • decodeScalar b.val • generator),
      x25519PublicFromPrivate_encoded a, x25519PublicFromPrivate_encoded b,
      secret_of_public a b, ?_⟩
    rw [secret_of_public b a, nsmul_left_comm]
  · intro d peer Q hpeer horder
    have hzero := firstCoordinate_nsmul_eq_zero_iff d.val horder
    rw [x25519SharedSecret_point d peer hpeer]
    constructor
    · intro height
      rw [if_pos (hzero.mpr height)]
    · intro height
      rw [if_neg (mt hzero.mp height)]

/-- Two private keys, and the peer values of infinity and of the base point. -/
theorem x25519_agreement_zero :
    (∃ keyA keyB secret : FixedBytes 32,
      x25519PublicFromPrivate (FixedBytes.zero 32) = some keyA.val ∧
        x25519PublicFromPrivate ((FixedBytes.zero 32).set 31 1) = some keyB.val ∧
        x25519SharedSecret (FixedBytes.zero 32) keyB = some (.ok secret.val) ∧
        x25519SharedSecret ((FixedBytes.zero 32).set 31 1) keyA = some (.ok secret.val)) ∧
      x25519SharedSecret (FixedBytes.zero 32) (FixedBytes.zero 32) = some (.error .verify) ∧
      ∃ secret, x25519SharedSecret (FixedBytes.zero 32) ((FixedBytes.zero 32).set 0 9) =
        some (.ok secret) := by
  have hzero : decodeUCoordinate (FixedBytes.zero 32).val = firstCoordinate (0 : curve.Point) := by
    have hnumber : littleEndian (FixedBytes.zero 32).val = 0 := by decide
    rw [decodeUCoordinate, hnumber]
    rfl
  have horder : (8 * order) • generator = 0 := by
    rw [nsmul_basePoint_eq_zero_iff]
    exact Nat.dvd_mul_left order 8
  have height : 8 • generator ≠ 0 := by
    rw [ne_eq, nsmul_basePoint_eq_zero_iff]
    exact not_dvd_scalar (by omega) (by norm_num)
  refine ⟨x25519_agreement.1 _ _, ?_, ?_⟩
  · exact (x25519_agreement.2 _ _ 0 hzero (nsmul_zero _)).1 (nsmul_zero _)
  · exact ⟨_, (x25519_agreement.2 _ _ generator decodeUCoordinate_set_nine horder).2 height⟩

end XboxTls.Analysis
