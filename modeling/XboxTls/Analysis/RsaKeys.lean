import Mathlib.FieldTheory.Finite.Basic
import Mathlib.Tactic.NormNum.Prime
import XboxTls.Analysis.DerEncoding

/-!
# RSA keys and the power of a signature

`parse_rsa` reads the modulus of a key in DER without its sign octet, and the exponent with it:
an exponent of 32 bits takes five octets and is refused (`parseRsa_der`).  `rsa_public` then is
RSAVP1 with its result in as many octets as the modulus has (`rsaPublic_der`).
-/

set_option autoImplicit false

namespace XboxTls.Analysis

open Programs XboxTls.Model XboxTls.Model.RsaVerify XboxTls.Interface

/-! ## The numbers of a key -/

variable (key : RsaPublicKey)

/-- The modulus has at least one bit. -/
theorem modBits_pos : 0 < key.modBits := Nat.size_pos.mpr (Nat.lt_trans Nat.one_pos key.one_lt_n)

/-- The modulus has at least one octet. -/
theorem k_pos : 0 < key.k := by
  have hpos := modBits_pos key
  unfold RsaPublicKey.k
  omega

/-- The modulus has at most 4096 bits. -/
theorem modBits_le : key.modBits ≤ 4096 := key.n_size

/-- The modulus has at most 512 octets. -/
theorem k_le : key.k ≤ 512 := by
  have hle := modBits_le key
  unfold RsaPublicKey.k
  omega

/-- The modulus fits its octets. -/
theorem n_lt_pow_k : key.n < 256 ^ key.k :=
  (size_octets (Nat.lt_trans Nat.one_pos key.one_lt_n)).2

/-- The modulus without its sign octet. -/
theorem modulus_octets : (if (derNatural key.n).length > 1 ∧ byteAt (derNatural key.n) 0 = 0 then
    (derNatural key.n).drop 1 else derNatural key.n) = toOctets key.k key.n := by
  obtain ⟨hlow, hhigh⟩ := size_octets (Nat.lt_trans Nat.one_pos key.one_lt_n)
  have hpos := modBits_pos key
  unfold RsaPublicKey.modBits at hpos
  unfold derNatural RsaPublicKey.k RsaPublicKey.modBits
  by_cases hsign : key.n.size % 8 = 0
  · have hk : (key.n.size + 7) / 8 = key.n.size / 8 := by omega
    rw [hk] at hhigh ⊢
    have hfirst : toOctets (key.n.size / 8 + 1) key.n = 0 :: toOctets (key.n.size / 8) key.n := by
      rw [toOctets_succ, Nat.div_eq_of_lt hhigh]
      rfl
    have hlength : 0 < key.n.size / 8 := by omega
    rw [hfirst, if_pos]
    · rfl
    · refine ⟨?_, rfl⟩
      rw [List.length_cons, length_toOctets]
      omega
  · have hk : (key.n.size + 7) / 8 = key.n.size / 8 + 1 := by omega
    rw [hk] at hlow hhigh ⊢
    rw [if_neg]
    rintro ⟨-, hzero⟩
    exact toOctets_head_ne_zero hlow hhigh hzero

/-- The exponent takes four octets of DER exactly below `2 ^ 31`. -/
theorem exponent_length : (derNatural key.e).length ≤ 4 ↔ key.e < 2 ^ 31 := by
  unfold derNatural
  rw [length_toOctets, ← Nat.size_le]
  omega

/-- The exponent as the loop of `parse_rsa` reads it. -/
theorem exponent_octets : (derNatural key.e).foldl (fun ev b => ev * 256 + b.toNat) 0 = key.e := by
  have hlt : key.e < 256 ^ (key.e.size / 8 + 1) := by
    rw [show 256 = 2 ^ 8 from rfl, ← pow_mul]
    exact Nat.lt_of_lt_of_le (Nat.lt_size_self _) (Nat.pow_le_pow_right (by omega) (by omega))
  unfold derNatural
  rw [foldl_eq_ofOctets, Nat.zero_mul, Nat.zero_add, ofOctets_toOctets, Nat.mod_eq_of_lt hlt]

/-! ## The key in DER -/

/-- The content of an element inside a string. -/
theorem value_derEncode (front rest : Bytes) (tag : UInt8) (content : Bytes) :
    slice (front ++ derEncode tag content ++ rest)
      (front.length + 1 + (derLength content.length).length) content.length = content := by
  have hsplit : front ++ derEncode tag content ++ rest =
      (front ++ tag :: derLength content.length) ++ (content ++ rest) := by
    simp [derEncode]
  rw [hsplit, slice_append_right, List.take_left]
  simp only [List.length_append, List.length_cons]
  omega

/-- A length takes at most five octets. -/
theorem derLength_le {n : ℕ} (hn : n < 2 ^ 32) : (derLength n).length ≤ 5 := by
  have hsize : n.size ≤ 32 := Nat.size_le.mpr hn
  rw [derLength_length]
  split <;> omega

/-- The key is read unless the exponent is too large. -/
theorem parseRsa_der : parseRsa key.der =
    if key.e < 2 ^ 31 then .ok (toOctets key.k key.n, key.e) else .error .unsupported := by
  have hnLength : (derNatural key.n).length ≤ 513 := by
    have hle := modBits_le key
    unfold RsaPublicKey.modBits at hle
    unfold derNatural
    rw [length_toOctets]
    omega
  have heLength : (derNatural key.e).length ≤ 5 := by
    have hsize : key.e.size ≤ 32 := Nat.size_le.mpr key.e_lt
    unfold derNatural
    rw [length_toOctets]
    omega
  have heNonempty : ¬ (derNatural key.e).length = 0 := by
    unfold derNatural
    rw [length_toOctets]
    omega
  have hnDer := derLength_le (n := (derNatural key.n).length) (by omega)
  have heDer := derLength_le (n := (derNatural key.e).length) (by omega)
  have hbody : (derEncode 0x02 (derNatural key.n) ++ derEncode 0x02 (derNatural key.e)).length <
      2 ^ 32 := by
    rw [List.length_append, derEncode_length, derEncode_length]
    omega
  have hseq := rsaTlv_derEncode [] [] 0x30 hbody
  have hseqValue := value_derEncode [] [] 0x30
    (derEncode 0x02 (derNatural key.n) ++ derEncode 0x02 (derNatural key.e))
  have hnFits : (derNatural key.n).length < 2 ^ 32 := by omega
  have heFits : (derNatural key.e).length < 2 ^ 32 := by omega
  have hn := rsaTlv_derEncode [] (derEncode 0x02 (derNatural key.e)) 0x02 hnFits
  have hnValue := value_derEncode [] (derEncode 0x02 (derNatural key.e)) 0x02 (derNatural key.n)
  have he := rsaTlv_derEncode (derEncode 0x02 (derNatural key.n)) [] 0x02 heFits
  have heValue := value_derEncode (derEncode 0x02 (derNatural key.n)) [] 0x02 (derNatural key.e)
  simp only [List.nil_append, List.append_nil, List.length_nil, Nat.zero_add]
    at hseq hseqValue hn hnValue he heValue
  have hk := k_le key
  have hkpos := k_pos key
  unfold parseRsa RsaPublicKey.der
  rw [hseq, except_ok_bind]
  simp only [throw_bind, Span.bytes, hseqValue, hn, he, except_ok_bind]
  have hnext : ¬ ((0x02 : UInt8) ≠ 0x02 ∨ (derEncode 0x02 (derNatural key.n)).length +
      (derEncode 0x02 (derNatural key.e)).length ≠
        (derEncode 0x02 (derNatural key.n) ++ derEncode 0x02 (derNatural key.e)).length) := by
    simp
  have hsize : ¬ ((toOctets key.k key.n).length = 0 ∨ (toOctets key.k key.n).length > 512) := by
    rw [length_toOctets]
    omega
  have hexp : ¬ (key.e < 3 ∨ key.e % 2 = 0) := by
    have hge := key.e_ge
    have hodd := key.e_odd
    omega
  rw [if_neg (by simp), if_neg (by simp), if_neg hnext, hnValue, heValue, modulus_octets,
    if_neg hsize, exponent_octets, if_neg hexp]
  by_cases hshort : key.e < 2 ^ 31
  · have hlen : ¬ ((derNatural key.e).length = 0 ∨ (derNatural key.e).length > 4) := by
      have h4 := (exponent_length key).mpr hshort
      omega
    rw [if_neg hlen, if_pos hshort]
    rfl
  · have hlen : (derNatural key.e).length = 0 ∨ (derNatural key.e).length > 4 := by
      have h4 := mt (exponent_length key).mp hshort
      omega
    rw [if_pos hlen, if_neg hshort]

/-! ## The power -/

/-- **`rsa_public`** on a key in DER. -/
theorem rsaPublic_der (signature : Bytes) : rsaPublic key.der signature =
    if key.e < 2 ^ 31 then
      if signature.length ≠ key.k then .error .verify
      else match key.rsavp1 (ofOctets signature) with
        | none => .error .verify
        | some m => .ok (toOctets key.k m, key.modBits)
    else .error .unsupported := by
  unfold rsaPublic
  rw [parseRsa_der]
  by_cases hshort : key.e < 2 ^ 31
  · rw [if_pos hshort, if_pos hshort, except_ok_bind]
    simp only [throw_bind, length_toOctets]
    by_cases hlen : signature.length = key.k
    · have hk := k_le key
      have hm : Limbs.value (fromBe (toOctets key.k key.n)) = key.n := by
        rw [fromBe, Limbs.value_fromOctets (by rw [length_toOctets, maxWords]; omega),
          ofOctets_toOctets, Nat.mod_eq_of_lt (n_lt_pow_k key)]
      have hs : Limbs.value (fromBe signature) = ofOctets signature :=
        Limbs.value_fromOctets (by rw [hlen, maxWords]; omega)
      have hmNormal : Limbs.Normal (fromBe (toOctets key.k key.n)) := Limbs.normal_fromOctets _ _
      have hsNormal : Limbs.Normal (fromBe signature) := Limbs.normal_fromOctets _ _
      rw [if_neg (not_not.mpr hlen), if_neg (not_not.mpr hlen)]
      generalize fromBe (toOctets key.k key.n) = m at hm hmNormal ⊢
      generalize fromBe signature = s at hs hsNormal ⊢
      have hrefuse : m.length = 0 ∨ RsaVerify.cmp s m ≥ 0 ↔ ¬ ofOctets signature < key.n := by
        have hcmp := Limbs.cmp_nonneg hsNormal hmNormal
        rw [hm, hs] at hcmp
        rw [ge_iff_le, hcmp, Nat.not_lt, or_iff_right]
        intro hzero
        have hnil := List.eq_nil_of_length_eq_zero hzero
        have hone := key.one_lt_n
        rw [← hm, hnil] at hone
        cases hone
      unfold RsaPublicKey.rsavp1
      by_cases hlt : ofOctets signature < key.n
      · have hone : 1 < Limbs.value m := by
          rw [hm]
          exact key.one_lt_n
        have hbelow : Limbs.Below m s := ⟨hsNormal, by rw [hm, hs]; exact hlt⟩
        obtain ⟨-, hpower⟩ := Limbs.below_powLoop hmNormal 32 key.e_lt (Limbs.below_one hone) hbelow
        rw [if_neg (mt hrefuse.mp (not_not.mpr hlt)), if_pos hlt]
        have hbits : bits m = key.modBits := by
          rw [bits, Limbs.bits_eq_size hmNormal, hm]
          rfl
        have hstart : Limbs.value [1] = 1 := by simp
        rw [toBeFixed, Limbs.toFixed_eq_toOctets, powU32Mod, hpower, hm, hs, hbits, hstart,
          Nat.one_mul]
        rfl
      · rw [if_pos (hrefuse.mpr hlt), if_neg hlt]
    · rw [if_pos hlen, if_pos hlen]
  · rw [if_neg hshort, if_neg hshort]
    rfl

/-! ## Keys that leave every number alone -/

/-- A product of distinct primes divides `x ^ (d + 1) - x` if `p - 1` divides `d` for each. -/
theorem pow_succ_modEq (x d : ℕ) (primes : List ℕ) (hprime : ∀ p ∈ primes, p.Prime ∧ p - 1 ∣ d)
    (hnodup : primes.Nodup) : x ^ (d + 1) ≡ x [MOD primes.prod] := by
  induction primes with
  | nil => exact Nat.modEq_one
  | cons p primes ih =>
    obtain ⟨hp, hdvd⟩ := hprime p (List.mem_cons_self ..)
    obtain ⟨hnotin, hnodup⟩ := List.nodup_cons.mp hnodup
    have hrest := ih (fun q hq => hprime q (List.mem_cons_of_mem _ hq)) hnodup
    have hcoprime : p.Coprime primes.prod := by
      rw [Nat.coprime_list_prod_right_iff]
      intro q hq
      have hq' := (hprime q (List.mem_cons_of_mem _ hq)).1
      exact (Nat.coprime_primes hp hq').mpr fun heq => hnotin (heq ▸ hq)
    have hfirst : x ^ (d + 1) ≡ x [MOD p] := by
      have := Fact.mk hp
      obtain ⟨c, rfl⟩ := hdvd
      rw [← ZMod.natCast_eq_natCast_iff, Nat.cast_pow, pow_succ, pow_mul]
      by_cases hzero : (x : ZMod p) = 0
      · rw [hzero, mul_zero]
      · rw [ZMod.pow_card_sub_one_eq_one hzero, one_pow, one_mul]
    rw [List.prod_cons]
    exact (Nat.modEq_and_modEq_iff_modEq_mul hcoprime).mp ⟨hfirst, hrest⟩

/-- Primes whose predecessors divide 4324320. -/
def fixingPrimes : List ℕ :=
  [4324321, 617761, 540541, 432433, 393121, 332641, 270271, 216217, 196561, 180181, 131041,
    123553, 120121, 110881, 108109, 96097, 72073, 66529, 65521, 55441, 51481, 48049, 47521, 39313,
    38611, 36037, 30241, 28081, 26209, 25741, 24571, 2861]

/-- The primes of the test are prime, with orders that divide one number. -/
theorem fixingPrimes_prime : ∀ p ∈ fixingPrimes, p.Prime ∧ p - 1 ∣ 4324320 := by
  unfold fixingPrimes
  simp only [List.forall_mem_cons]
  norm_num

/-- The modulus has 529 bits. -/
theorem fixingPrimes_size : fixingPrimes.prod.size = 529 := by
  apply Nat.le_antisymm
  · rw [Nat.size_le]
    decide +kernel
  · rw [← Nat.lt_iff_add_one_le, Nat.lt_size]
    decide +kernel

/-- A key with the exponent `4324320 * m + 1`. -/
def fixingKey (m : ℕ) (hm : 1 ≤ m ∧ m ≤ 993) : RsaPublicKey where
  n := fixingPrimes.prod
  e := 4324320 * m + 1
  one_lt_n := by decide +kernel
  n_size := by
    rw [fixingPrimes_size]
    omega
  e_odd := by omega
  e_ge := by omega
  e_lt := by omega

/-- The exponent 4324321. -/
def smallFixingKey : RsaPublicKey := fixingKey 1 (by omega)

/-- The exponent 2153511361, which has 32 bits. -/
def largeFixingKey : RsaPublicKey := fixingKey 498 (by omega)

/-- The key of the test takes every signature to itself. -/
theorem rsavp1_fixingKey {m : ℕ} (hm : 1 ≤ m ∧ m ≤ 993) {s : ℕ} (hs : s < fixingPrimes.prod) :
    (fixingKey m hm).rsavp1 s = some s := by
  have hpower := pow_succ_modEq s (4324320 * m) fixingPrimes
    (fun p hp => ⟨(fixingPrimes_prime p hp).1,
      (fixingPrimes_prime p hp).2.trans (Nat.dvd_mul_right _ _)⟩) (by decide +kernel)
  have hmod : s ^ (4324320 * m + 1) % fixingPrimes.prod = s := by
    rw [hpower, Nat.mod_eq_of_lt hs]
  unfold RsaPublicKey.rsavp1 fixingKey
  rw [if_pos hs, hmod]

end XboxTls.Analysis
