import XboxTls.Analysis.RsaPss

/-!
# RSASSA-PKCS1-v1_5

`native_rsa_pkcs1_sha256_verify` looks for the end of the padding and then at what follows it.
Nothing but the one encoding of the standard passes (`checkPkcs1_ok_iff`), so that the code
decides as the standard does for every key that `parse_rsa` takes.
-/

set_option autoImplicit false

namespace XboxTls.Analysis

open Programs XboxTls.Model XboxTls.Model.RsaVerify XboxTls.Interface

variable (P : Crypto)

/-! ## The end of the padding -/

/-- The loop passes over octets `ff` and stops behind the last of them. -/
theorem paddingEnd_spec (em : Bytes) (fuel p : ℕ) (hfuel : em.length ≤ p + fuel) :
    p ≤ paddingEnd em fuel p ∧
      (∀ i, p ≤ i → i < paddingEnd em fuel p → i < em.length ∧ byteAt em i = 0xff) ∧
      ¬ (paddingEnd em fuel p < em.length ∧ byteAt em (paddingEnd em fuel p) = 0xff) := by
  induction fuel generalizing p with
  | zero =>
    refine ⟨le_refl p, ?_, ?_⟩
    · intro i hlow hhigh
      unfold paddingEnd at hhigh
      omega
    · rintro ⟨hlt, -⟩
      unfold paddingEnd at hlt
      omega
  | succ fuel ih =>
    unfold paddingEnd
    by_cases hff : p < em.length ∧ byteAt em p = 0xff
    · rw [if_pos hff]
      obtain ⟨hle, hall, hstop⟩ := ih (p + 1) (by omega)
      refine ⟨by omega, ?_, hstop⟩
      intro i hlow hhigh
      by_cases hi : i = p
      · rw [hi]
        exact hff
      · exact hall i (by omega) hhigh
    · rw [if_neg hff]
      exact ⟨le_refl p, fun i hlow hhigh => by omega, hff⟩

/-- Where the octets `ff` end. -/
theorem paddingEnd_eq {em : Bytes} {fuel p q : ℕ} (hfuel : em.length ≤ p + fuel) (hpq : p ≤ q)
    (hff : ∀ i, p ≤ i → i < q → byteAt em i = 0xff) (hq : q < em.length)
    (hstop : byteAt em q ≠ 0xff) : paddingEnd em fuel p = q := by
  obtain ⟨hle, hall, hnot⟩ := paddingEnd_spec em fuel p hfuel
  by_contra hne
  by_cases hlt : paddingEnd em fuel p < q
  · exact hnot ⟨by omega, hff _ hle hlt⟩
  · exact hstop (hall q hpq (by omega)).2

/-! ## The encoding -/

/-- The DigestInfo is the code's prefix and the hash. -/
theorem digestInfo_eq (hash : Bytes → FixedBytes 32) (message : Bytes) :
    digestInfo hash message = diPrefix ++ (hash message).val := by
  have hlen := (hash message).property
  unfold digestInfo derEncode derLength
  simp only [List.length_append, List.length_cons, List.length_nil, hlen]
  rfl

/-- The DigestInfo has 51 octets. -/
theorem length_digestInfo (hash : Bytes → FixedBytes 32) (message : Bytes) :
    (digestInfo hash message).length = 51 := by
  rw [digestInfo_eq, List.length_append, (hash message).property]
  rfl

/-- A slice whose bytes are all the same. -/
theorem slice_eq_replicate {em : Bytes} {p n : ℕ} {b : UInt8} (hlen : p + n ≤ em.length)
    (h : ∀ i, p ≤ i → i < p + n → byteAt em i = b) : slice em p n = List.replicate n b := by
  induction n generalizing p with
  | zero => simp [slice]
  | succ n ih =>
    rw [slice_succ (by omega), h p (le_refl p) (by omega), List.replicate_succ,
      ih (by omega) fun i hlow hhigh => h i (by omega) (by omega)]

/-- An octet of the padding. -/
theorem byteAt_padding {front rest : Bytes} {n i : ℕ} {b : UInt8} (hlow : front.length ≤ i)
    (hhigh : i < front.length + n) :
    byteAt (front ++ (List.replicate n b ++ rest)) i = b := by
  unfold byteAt
  rw [List.getD_eq_getElem?_getD, List.getElem?_append_right hlow, List.getElem?_append_left,
    List.getElem?_replicate, if_pos (by omega), Option.getD_some]
  rw [List.length_replicate]
  omega

/-- What the code finds in an encoded message of `n` octets. -/
structure Pkcs1Parts (message em : Bytes) : Prop where
  long : 62 ≤ em.length
  first : byteAt em 0 = 0
  second : byteAt em 1 = 1
  padding : ∀ i, 2 ≤ i → i < em.length - 52 → byteAt em i = 0xff
  separator : byteAt em (em.length - 52) = 0
  identifier : slice em (em.length - 51) 19 = diPrefix
  digest : slice em (em.length - 32) 32 = (P.sha256 message).val

/-- A message that passes the checks has the parts. -/
theorem pkcs1Parts_of_checkPkcs1 {message em : Bytes} (h : checkPkcs1 P message em = .ok ()) :
    Pkcs1Parts P message em := by
  unfold checkPkcs1 at h
  simp only [throw_bind, refuse_eq_ok] at h
  obtain ⟨hshape, hend, htail⟩ := h
  obtain ⟨hle, hall, -⟩ := paddingEnd_spec em em.length 2 (by omega)
  generalize paddingEnd em em.length 2 = q at hle hall hend htail
  have hwidth : diPrefix.length = 19 := rfl
  rw [hwidth] at hshape htail
  push Not at hshape hend
  have hlast : ¬ (em.length - (q + 1) ≠ 19 + 32 ∨ slice em (q + 1) 19 ≠ diPrefix ∨
      slice em (q + 1 + 19) 32 ≠ (P.sha256 message).val) := by
    intro hbad
    rw [if_pos hbad] at htail
    cases htail
  push Not at hlast
  obtain ⟨hlen, hidentifier, hdigest⟩ := hlast
  have hq : q = em.length - 52 := by omega
  subst hq
  exact {
    long := by omega
    first := hshape.2.1
    second := hshape.2.2
    padding := fun i hlow hhigh => (hall i hlow hhigh).2
    separator := hend.2.2
    identifier := by
      rw [show em.length - 51 = em.length - 52 + 1 by omega]
      exact hidentifier
    digest := by
      rw [show em.length - 32 = em.length - 52 + 1 + 19 by omega]
      exact hdigest }

/-- A message with the parts passes the checks. -/
theorem checkPkcs1_of_parts {message em : Bytes} (h : Pkcs1Parts P message em) :
    checkPkcs1 P message em = .ok () := by
  have hlong := h.long
  have hwidth : diPrefix.length = 19 := rfl
  have hend : paddingEnd em em.length 2 = em.length - 52 := by
    apply paddingEnd_eq (by omega) (by omega) h.padding (by omega)
    rw [h.separator]
    decide
  have hidentifier := h.identifier
  have hdigest := h.digest
  rw [show em.length - 51 = em.length - 52 + 1 by omega] at hidentifier
  rw [show em.length - 32 = em.length - 52 + 1 + 19 by omega] at hdigest
  unfold checkPkcs1
  simp only [throw_bind, refuse_eq_ok, hend, hwidth, h.first, h.second, h.separator, hidentifier,
    hdigest]
  refine ⟨by simp; omega, by simp; omega, ?_⟩
  rw [if_neg]
  · rfl
  · simp
    omega

/-- A message with the parts is the encoding. -/
theorem encoding_of_parts {message em : Bytes} (h : Pkcs1Parts P message em) :
    em = [0x00, 0x01] ++ (List.replicate (em.length - 54) 0xff ++ ([0x00] ++
      (diPrefix ++ (P.sha256 message).val))) := by
  have hlong := h.long
  have hfirst : slice em 0 2 = [0x00, 0x01] := by
    rw [slice_succ (by omega), slice_succ (by omega), h.first, h.second]
    rfl
  have hpadding : slice em 2 (em.length - 54) = List.replicate (em.length - 54) 0xff :=
    slice_eq_replicate (by omega) fun i hlow hhigh => h.padding i hlow (by omega)
  have hseparator : slice em (em.length - 52) 1 = [0x00] := by
    rw [slice_succ (by omega), h.separator]
    rfl
  have hwhole : slice em 0 em.length = em := List.take_length
  have hjoin := slice_append_slice em
  rw [← hfirst, ← hpadding, ← hseparator, ← h.identifier, ← h.digest]
  have h5 := hjoin (em.length - 51) 19 32
  have h4 := hjoin (em.length - 52) 1 51
  have h3 := hjoin 2 (em.length - 54) 52
  have h2 := hjoin 0 2 (em.length - 2)
  rw [show em.length - 51 + 19 = em.length - 32 by omega] at h5
  rw [show em.length - 52 + 1 = em.length - 51 by omega] at h4
  rw [show 2 + (em.length - 54) = em.length - 52 by omega,
    show em.length - 54 + 52 = em.length - 2 by omega] at h3
  rw [Nat.zero_add, show 2 + (em.length - 2) = em.length by omega, hwhole] at h2
  rw [h5, h4, h3, h2]

/-- The encoding has the parts. -/
theorem parts_of_encoding {message em : Bytes} (hlong : 62 ≤ em.length)
    (h : em = [0x00, 0x01] ++ (List.replicate (em.length - 54) 0xff ++ ([0x00] ++
      (diPrefix ++ (P.sha256 message).val)))) : Pkcs1Parts P message em := by
  generalize hn : em.length = n at h hlong
  have hfront : ([0x00, 0x01] ++ List.replicate (n - 54) 0xff : Bytes).length = n - 52 := by
    simp only [List.length_append, List.length_cons, List.length_nil, List.length_replicate]
    omega
  have hsplit : em = ([0x00, 0x01] ++ List.replicate (n - 54) 0xff) ++ ([0x00] ++
      (diPrefix ++ (P.sha256 message).val)) := by
    rw [h, ← List.append_assoc]
  have hpast : ∀ i m, slice em (n - 52 + i) m =
      slice ([0x00] ++ (diPrefix ++ (P.sha256 message).val)) i m := by
    intro i m
    rw [hsplit]
    unfold slice
    rw [← List.drop_drop, List.drop_left' hfront]
  exact {
    long := by omega
    first := by rw [h]; rfl
    second := by rw [h]; rfl
    padding := by
      intro i hlow hhigh
      rw [h]
      exact byteAt_padding hlow (by simp; omega)
    separator := by
      have hbyte := byteAt_append_right (b := [0x00] ++ (diPrefix ++ (P.sha256 message).val))
        (i := 0) hfront
      rw [← hsplit, Nat.add_zero] at hbyte
      rw [hn, hbyte]
      rfl
    identifier := by
      rw [hn, show n - 51 = n - 52 + 1 by omega, hpast]
      exact (slice_append_right rfl).trans (List.take_left' rfl)
    digest := by
      rw [hn, show n - 32 = n - 52 + 20 by omega, hpast]
      have hlen : ([0x00] ++ diPrefix : Bytes).length = 20 := rfl
      rw [← List.append_assoc, slice_append_right hlen]
      exact List.take_of_length_le (by rw [(P.sha256 message).property]) }

/-- **The checks on the encoded message** pass for the one encoding of the message. -/
theorem checkPkcs1_ok_iff (message em : Bytes) : checkPkcs1 P message em = .ok () ↔
    emsaPkcs1 P.sha256 message em.length = some em := by
  have hinfoLen := length_digestInfo P.sha256 message
  unfold emsaPkcs1
  dsimp only
  rw [hinfoLen, digestInfo_eq, List.append_assoc, List.append_assoc]
  by_cases hlong : 62 ≤ em.length
  · rw [if_neg (by omega), Option.some_inj]
    constructor
    · intro h
      exact (encoding_of_parts P (pkcs1Parts_of_checkPkcs1 P h)).symm
    · intro h
      exact checkPkcs1_of_parts P (parts_of_encoding P hlong h.symm)
  · rw [if_pos (by omega)]
    constructor
    · intro h
      exact absurd (pkcs1Parts_of_checkPkcs1 P h).long hlong
    · intro h
      cases h

/-! ## The signature -/

/-- The code accepts exactly what the standard does, for exponents below `2 ^ 31`. -/
theorem nativeRsaPkcs1_ok_iff (key : RsaPublicKey) (message signature : Bytes) :
    nativeRsaPkcs1Sha256Verify P key.der message signature = .ok () ↔
      key.e < 2 ^ 31 ∧ RsassaPkcs1Verify P.sha256 key message signature := by
  unfold nativeRsaPkcs1Sha256Verify
  rw [rsaPublic_der]
  by_cases hshort : key.e < 2 ^ 31
  · rw [if_pos hshort]
    by_cases hlen : signature.length = key.k
    · rw [if_neg (not_not.mpr hlen)]
      cases hpower : key.rsavp1 (ofOctets signature) with
      | none =>
        constructor
        · intro h
          cases h
        · rintro ⟨-, -, m, em, hm, -⟩
          rw [hpower] at hm
          cases hm
      | some m =>
        have hfits : m < 256 ^ key.k := Nat.lt_trans (rsavp1_lt hpower) (n_lt_pow_k key)
        dsimp only
        rw [except_ok_bind, checkPkcs1_ok_iff, length_toOctets]
        constructor
        · intro h
          exact ⟨hshort, hlen, m, _, hpower, i2osp_of_lt hfits, h⟩
        · rintro ⟨-, -, m', em, hm, hem, h⟩
          rw [hpower] at hm
          cases hm
          rw [i2osp_of_lt hfits] at hem
          cases hem
          exact h
    · rw [if_pos hlen]
      constructor
      · intro h
        cases h
      · rintro ⟨-, hk, -⟩
        exact absurd hk hlen
  · rw [if_neg hshort]
    constructor
    · intro h
      cases h
    · rintro ⟨he, -⟩
      exact absurd he hshort

/-- **When the code decides as RSASSA-PKCS1-v1_5 verification does**: unless the signature is
valid and the exponent has 32 bits. -/
theorem rsaPkcs1_agrees_iff (key : RsaPublicKey) (message signature : Bytes) :
    (nativeRsaPkcs1Sha256Verify P key.der message signature = .ok () ↔
      RsassaPkcs1Verify P.sha256 key message signature) ↔
    ¬ (RsassaPkcs1Verify P.sha256 key message signature ∧ 2 ^ 31 ≤ key.e) := by
  rw [nativeRsaPkcs1_ok_iff, ← Nat.not_lt]
  tauto

/-- The number of an encoding is below a modulus of as many octets. -/
theorem ofOctets_emsaPkcs1_lt {hash : Bytes → FixedBytes 32} {message em : Bytes} {len : ℕ}
    (hem : emsaPkcs1 hash message (len + 1) = some em) :
    em.length = len + 1 ∧ ofOctets em < 256 ^ len := by
  have hinfoLen := length_digestInfo hash message
  unfold emsaPkcs1 at hem
  dsimp only at hem
  split at hem
  · cases hem
  · rename_i hlong
    cases hem
    generalize hn : len + 1 - (digestInfo hash message).length - 3 = n
    generalize digestInfo hash message = t at hinfoLen hn hlong
    have htail : (0x01 :: (List.replicate n 0xff ++ [0x00] ++ t)).length = len := by
      simp only [List.length_cons, List.length_append, List.length_nil, List.length_replicate]
      omega
    have hwhole : [0x00, 0x01] ++ List.replicate n 0xff ++ [0x00] ++ t =
        [0x00] ++ (0x01 :: (List.replicate n 0xff ++ [0x00] ++ t)) := rfl
    have hlt := ofOctets_lt (0x01 :: (List.replicate n 0xff ++ [0x00] ++ t))
    have hzero : (0x00 : UInt8).toNat = 0 := rfl
    rw [htail] at hlt
    rw [hwhole, ofOctets_append, ofOctets_singleton, hzero, Nat.mul_zero, Nat.add_zero,
      List.length_append, htail, List.length_singleton]
    exact ⟨Nat.add_comm 1 len, hlt⟩

/-- Under a key that leaves every number alone an encoding is its own signature. -/
theorem rsassaPkcs1_fixingKey (hash : Bytes → FixedBytes 32) (message : Bytes) {m : ℕ}
    (hm : 1 ≤ m ∧ m ≤ 993) :
    ∃ signature, RsassaPkcs1Verify hash (fixingKey m hm) message signature := by
  have hk : (fixingKey m hm).k = 66 + 1 := by
    show (fixingPrimes.prod.size + 7) / 8 = 67
    rw [fixingPrimes_size]
  have hinfoLen := length_digestInfo hash message
  obtain ⟨em, hem⟩ : ∃ em, emsaPkcs1 hash message (66 + 1) = some em := by
    unfold emsaPkcs1
    dsimp only
    rw [if_neg (by omega)]
    exact ⟨_, rfl⟩
  obtain ⟨hlen, hlt⟩ := ofOctets_emsaPkcs1_lt hem
  have hlow : 256 ^ 66 ≤ fixingPrimes.prod := by decide +kernel
  have hpower := rsavp1_fixingKey hm (Nat.lt_of_lt_of_le hlt hlow)
  have hwide : ofOctets em < 256 ^ (66 + 1) := by
    rw [← hlen]
    exact ofOctets_lt em
  have hoctets := toOctets_ofOctets em
  rw [hlen] at hoctets
  refine ⟨em, by rw [hlen, hk], _, em, hpower, ?_, by rw [hk]; exact hem⟩
  rw [hk, i2osp_of_lt hwide, hoctets]

/-- With the exponent 2153511361 every message has a valid signature that the code refuses,
whatever the hash. -/
theorem rsaPkcs1_refuses_2153511361 : ¬ ∃ (P : Crypto) (message : Bytes), ∀ signature : Bytes,
    RsassaPkcs1Verify P.sha256 largeFixingKey message signature →
      nativeRsaPkcs1Sha256Verify P largeFixingKey.der message signature = .ok () := by
  rintro ⟨P, message, haccepts⟩
  obtain ⟨signature, hvalid⟩ := rsassaPkcs1_fixingKey P.sha256 message (m := 498) (by omega)
  obtain ⟨hexponent, -⟩ := (nativeRsaPkcs1_ok_iff ..).mp (haccepts signature hvalid)
  exact absurd hexponent (by decide)

end XboxTls.Analysis
