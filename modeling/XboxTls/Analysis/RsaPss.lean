import XboxTls.Analysis.RsaKeys

/-!
# RSASSA-PSS

The checks of `native_rsa_pss_sha256_verify` on an encoded message are those of EMSA-PSS-VERIFY
(`checkPss_ok_iff`).  The code takes the message in as many octets as the modulus has, and the
standard in as many as `modBits - 1` bits need: these are one octet less when `modBits` is 1
modulo 8, and then the code refuses every signature.
-/

set_option autoImplicit false

namespace XboxTls.Analysis

open Programs XboxTls.Model XboxTls.Model.RsaVerify XboxTls.Interface

variable (P : Crypto)

/-! ## The mask -/

/-- The code's counter is the number in four octets. -/
theorem counter_octets (c : ℕ) : ([UInt8.ofNat (c / 2 ^ 24), UInt8.ofNat (c / 2 ^ 16),
    UInt8.ofNat (c / 2 ^ 8), UInt8.ofNat c] : Bytes) = toOctets 4 c := by
  simp [toOctets, Nat.div_div_eq_div_mul]

/-- The loop appends the hashes of seed and counter. -/
theorem mgf1Loop_eq (seed : Bytes) (fuel c left : ℕ) (hfuel : left ≤ fuel) :
    mgf1Loop P seed fuel c left = ((List.range' c ((left + 31) / 32)).flatMap fun c =>
      (P.sha256 (seed ++ toOctets 4 c)).val).take left := by
  induction fuel generalizing c left with
  | zero =>
    have hzero : left = 0 := by omega
    simp [mgf1Loop, hzero]
  | succ fuel ih =>
    unfold mgf1Loop
    by_cases hzero : left = 0
    · simp [hzero]
    · have hcount : (left + 31) / 32 = (left - min left 32 + 31) / 32 + 1 := by omega
      have hdigest : P.shaFinal (P.shaUpdate (P.shaUpdate P.shaReset seed) (toOctets 4 c)) =
          P.sha256 (seed ++ toOctets 4 c) := by
        rw [P.shaUpdate_append]
        rfl
      have hrest : left - 32 = left - min left 32 := by omega
      have hfront : ∀ d : FixedBytes 32, d.val.take left = d.val.take (min left 32) := by
        intro d
        have hd := List.take_length (l := d.val)
        rw [d.property] at hd
        conv_lhs => rw [← hd, List.take_take]
      rw [if_neg hzero]
      dsimp only
      rw [counter_octets, hdigest, ih _ _ (by omega), hcount, List.range'_succ,
        List.flatMap_cons, List.take_append, (P.sha256 _).property, hrest, hfront]

/-- The code's MGF1 is that of the standard. -/
theorem mgf1_eq (seed : Bytes) (n : ℕ) : mgf1 P seed n = standardMgf1 P.sha256 seed n := by
  unfold mgf1 standardMgf1
  rw [mgf1Loop_eq P seed n 0 n (le_refl n), List.range_eq_range']

/-- The mask has the length asked for. -/
theorem length_standardMgf1 (hash : Bytes → FixedBytes 32) (seed : Bytes) (len : ℕ) :
    (standardMgf1 hash seed len).length = len := by
  have hblocks : ∀ l : List ℕ, (l.flatMap fun c =>
      (hash (seed ++ toOctets 4 c)).val).length = l.length * 32 := by
    intro l
    induction l with
    | nil => rfl
    | cons c l ih =>
      rw [List.flatMap_cons, List.length_append, ih, (hash _).property, List.length_cons]
      omega
  unfold standardMgf1
  rw [List.length_take, hblocks, List.length_range]
  omega

/-! ## The leftmost bits -/

/-- The low bits that are kept. -/
theorem toNat_keep {unused : ℕ} (h : unused < 8) :
    ((0xff : UInt8) >>> UInt8.ofNat unused).toNat = 2 ^ (8 - unused) - 1 := by
  have hcases : unused = 0 ∨ unused = 1 ∨ unused = 2 ∨ unused = 3 ∨ unused = 4 ∨ unused = 5 ∨
      unused = 6 ∨ unused = 7 := by omega
  rcases hcases with rfl | rfl | rfl | rfl | rfl | rfl | rfl | rfl <;> rfl

/-- The mask keeps the low bits. -/
theorem toNat_and_keep (b : UInt8) {unused : ℕ} (h : unused < 8) :
    (b &&& ((0xff : UInt8) >>> UInt8.ofNat unused)).toNat = b.toNat % 2 ^ (8 - unused) := by
  rw [UInt8.toNat_and, toNat_keep h, Nat.and_two_pow_sub_one_eq_mod]

/-- Nothing is set outside the mask if the mask changes nothing. -/
theorem and_not_eq_zero_iff (b keep : UInt8) : b &&& ~~~keep = 0 ↔ b &&& keep = b := by
  have hparts : (b &&& keep) ||| (b &&& ~~~keep) = b := by
    rw [← UInt8.toBitVec_inj, UInt8.toBitVec_or, UInt8.toBitVec_and, UInt8.toBitVec_and,
      ← BitVec.and_or_distrib_left, UInt8.toBitVec_not, BitVec.or_not_self, BitVec.and_allOnes]
  constructor
  · intro h
    rwa [h, UInt8.or_zero] at hparts
  · intro h
    rw [← h, UInt8.and_assoc, UInt8.and_not_self, UInt8.and_zero]

/-- The check of the leftmost bits. -/
theorem leftBits_eq_zero_iff (b : UInt8) {unused : ℕ} (h : unused < 8) :
    leftBits b unused = 0 ↔ ¬ (unused ≠ 0 ∧
      b &&& ~~~((0xff : UInt8) >>> UInt8.ofNat unused) ≠ 0) := by
  have hb := b.toNat_lt
  have hpos : 0 < 2 ^ (8 - unused) := Nat.pow_pos (by omega)
  unfold leftBits
  rw [ne_eq (b &&& _), and_not_eq_zero_iff, ← UInt8.toNat_inj, toNat_and_keep b h,
    Nat.div_eq_zero_iff_lt hpos]
  by_cases hzero : unused = 0
  · subst hzero
    simp
    omega
  · have hmod := Nat.mod_lt b.toNat hpos
    constructor
    · rintro hlt ⟨-, hne⟩
      exact hne (Nat.mod_eq_of_lt hlt)
    · intro hall
      by_contra hge
      exact hall ⟨hzero, fun heq => by omega⟩

/-- The code clears the leftmost bits. -/
theorem clearLeft_eq (s : Bytes) {unused : ℕ} (h : unused < 8) :
    (if unused ≠ 0 then
      s.set 0 (byteAt s 0 &&& ((0xff : UInt8) >>> UInt8.ofNat unused)) else s) =
      clearLeft unused s := by
  cases s with
  | nil => simp [clearLeft]
  | cons b s =>
    by_cases hzero : unused = 0
    · subst hzero
      simp [clearLeft]
    · rw [if_pos hzero]
      have hbyte : b &&& ((0xff : UInt8) >>> UInt8.ofNat unused) =
          UInt8.ofNat (b.toNat % 2 ^ (8 - unused)) := by
        rw [← toNat_and_keep b h, UInt8.ofNat_toNat]
      show _ = UInt8.ofNat (b.toNat % 2 ^ (8 - unused)) :: s
      rw [← hbyte]
      rfl

/-! ## The checks -/

/-- Clearing bits leaves the length. -/
theorem length_clearLeft (bits : ℕ) (s : Bytes) : (clearLeft bits s).length = s.length := by
  cases s <;> rfl

/-- The block is shorter than the message by hash and trailer. -/
theorem length_unmaskedDb (hash : Bytes → FixedBytes 32) {em : Bytes} {emBits : ℕ}
    (hlen : em.length = emLen emBits) :
    (unmaskedDb hash em emBits).length = em.length - 33 := by
  unfold unmaskedDb maskedDb
  rw [length_clearLeft, List.length_zipWith, length_standardMgf1, List.length_take, ← hlen]
  omega

/-- The check that all bytes are zero. -/
theorem any_ne_zero_iff (s : Bytes) : ¬ (s.any fun x => decide (x ≠ 0)) = true ↔
    s = List.replicate s.length 0 := by
  rw [List.eq_replicate_iff]
  simp

/-- The last byte is the one at the last place. -/
theorem getLast_iff {em : Bytes} (hne : 0 < em.length) (b : UInt8) :
    em.getLast? = some b ↔ byteAt em (em.length - 1) = b := by
  rw [List.getLast?_eq_getElem?]
  unfold byteAt
  rw [List.getD_eq_getElem?_getD, List.getElem?_eq_getElem (by omega), Option.getD_some,
    Option.some_inj]

/-- A byte inside the string is the one at its place. -/
theorem getElem_iff {s : Bytes} {i : ℕ} (hi : i < s.length) (b : UInt8) :
    s[i]? = some b ↔ byteAt s i = b := by
  unfold byteAt
  rw [List.getD_eq_getElem?_getD, List.getElem?_eq_getElem hi, Option.getD_some, Option.some_inj]

/-- The digest of the code is the one in the encoded message. -/
theorem digest_iff (message salt : Bytes) {h : Bytes} (hlen : h.length = 32) :
    (if (List.zipWith (· ^^^ ·) (P.shaFinal (P.shaUpdate (P.shaUpdate (P.shaUpdate P.shaReset
        (List.replicate 8 0)) (P.sha256 message).val) salt)).val h).foldl (· ||| ·) 0 ≠ 0 then
      (throw .verify : Except Error Unit) else pure ()) = .ok () ↔
      (P.sha256 (List.replicate 8 0 ++ (P.sha256 message).val ++ salt)).val = h := by
  have hhash : P.shaFinal (P.shaUpdate (P.shaUpdate (P.shaUpdate P.shaReset
      (List.replicate 8 0)) (P.sha256 message).val) salt) =
        P.sha256 (List.replicate 8 0 ++ (P.sha256 message).val ++ salt) := by
    rw [P.shaUpdate_append, P.shaUpdate_append, ← List.append_assoc]
    rfl
  have hdiff := foldl_or_xor_eq_zero_iff
    (P.sha256 (List.replicate 8 0 ++ (P.sha256 message).val ++ salt)).val h
    (by rw [hlen]; exact (P.sha256 _).property)
  rw [hhash]
  split
  · next hne =>
    constructor
    · intro herr
      cases herr
    · intro heq
      exact absurd (hdiff.mpr heq) hne
  · next heq => exact ⟨fun _ => hdiff.mp (not_not.mp heq), fun _ => rfl⟩

/-- **The checks on the encoded message** are those of the standard, if it has the length that
the standard gives it. -/
theorem checkPss_ok_iff (message em : Bytes) {modbits : ℕ}
    (hlen : em.length = emLen (modbits - 1)) : checkPss P message em modbits = .ok () ↔
      PssConsistent P.sha256 message em (modbits - 1) := by
  have hunused : 8 * em.length - (modbits - 1) < 8 := by
    rw [hlen, emLen]
    omega
  have hdb : (if 8 * em.length - (modbits - 1) ≠ 0 then
      (List.zipWith (· ^^^ ·) (em.take (em.length - 32 - 1))
        (mgf1 P (slice em (em.length - 32 - 1) 32) (em.length - 32 - 1))).set 0
        (byteAt (List.zipWith (· ^^^ ·) (em.take (em.length - 32 - 1))
          (mgf1 P (slice em (em.length - 32 - 1) 32) (em.length - 32 - 1))) 0 &&&
          ((0xff : UInt8) >>> UInt8.ofNat (8 * em.length - (modbits - 1))))
      else List.zipWith (· ^^^ ·) (em.take (em.length - 32 - 1))
        (mgf1 P (slice em (em.length - 32 - 1) 32) (em.length - 32 - 1))) =
      unmaskedDb P.sha256 em (modbits - 1) := by
    rw [clearLeft_eq _ hunused, mgf1_eq]
    unfold unmaskedDb maskedDb pssDigest
    rw [← hlen, Nat.sub_sub]
  have hdbLen := length_unmaskedDb P.sha256 hlen
  have hwant : (modbits - 1 + 7) / 8 = em.length := hlen.symm
  unfold checkPss
  simp only [throw_bind, refuse_eq_ok, hdb, hwant]
  by_cases hlong : 66 ≤ em.length
  · have hsub : em.length - 32 - 1 - 32 - 1 = em.length - 66 := by omega
    have hhead : (maskedDb em (modbits - 1)).head? = some (byteAt em 0) := by
      unfold maskedDb
      rw [← hlen, List.head?_take, if_neg (by omega), List.head?_eq_getElem?,
        getElem_iff (by omega)]
    have hzeros := any_ne_zero_iff
      ((unmaskedDb P.sha256 em (modbits - 1)).take (em.length - 66))
    have hdigest : (pssDigest em (modbits - 1)).length = 32 := by
      unfold pssDigest
      rw [← hlen]
      exact slice_length (by omega)
    have hsalt : slice (unmaskedDb P.sha256 em (modbits - 1)) (em.length - 66 + 1) 32 =
        (unmaskedDb P.sha256 em (modbits - 1)).drop (em.length - 65) := by
      unfold slice
      rw [List.take_of_length_le (by rw [List.length_drop]; omega),
        show em.length - 66 + 1 = em.length - 65 by omega]
    have hh : slice em (em.length - 32 - 1) 32 = pssDigest em (modbits - 1) := by
      unfold pssDigest
      rw [← hlen, Nat.sub_sub]
    have htake : ((unmaskedDb P.sha256 em (modbits - 1)).take (em.length - 66)).length =
        em.length - 66 := by
      rw [List.length_take]
      omega
    rw [htake] at hzeros
    rw [hsub, hsalt, hh, digest_iff P message _ hdigest, hzeros,
      ← leftBits_eq_zero_iff (byteAt em 0) hunused]
    constructor
    · rintro ⟨hshape, hleft, hzero, hone, hhash⟩
      push Not at hshape hone
      exact {
        long := by omega
        trailer := (getLast_iff (by omega) _).mpr hshape.2.2
        leftmost := by
          intro b hb
          rw [hhead] at hb
          cases hb
          rw [← hlen]
          exact hleft
        zeros := by rw [← hlen]; exact hzero
        one := by rw [← hlen, getElem_iff (by omega)]; exact hone
        digest := by rw [← hlen]; exact hhash }
    · intro h
      have htrailer := (getLast_iff (by omega) _).mp h.trailer
      have hleft := h.leftmost _ hhead
      have hzero := h.zeros
      have hone := h.one
      have hhash := h.digest
      rw [← hlen] at hleft hzero hone hhash
      rw [getElem_iff (by omega)] at hone
      refine ⟨?_, hleft, hzero, not_not.mpr hone, hhash⟩
      rintro (hne | hshort | hne)
      · exact hne rfl
      · omega
      · exact hne htrailer
  · constructor
    · rintro ⟨hshape, -⟩
      omega
    · intro h
      have hl := h.long
      omega

/-! ## The signature -/

/-- An encoded message of another length is refused. -/
theorem checkPss_ne_ok (message : Bytes) {em : Bytes} {modbits : ℕ}
    (hlen : em.length ≠ emLen (modbits - 1)) : checkPss P message em modbits ≠ .ok () := by
  unfold checkPss
  simp only [throw_bind, refuse_eq_ok, ne_eq]
  rintro ⟨hshape, -⟩
  exact hshape (Or.inl hlen)

/-- The standard's length of the encoded message is the code's, or one octet less. -/
theorem emLen_eq_k_iff (key : RsaPublicKey) :
    key.k = emLen (key.modBits - 1) ↔ key.modBits % 8 ≠ 1 := by
  have hpos := modBits_pos key
  unfold RsaPublicKey.k emLen
  omega

/-- A number that fits is written in octets. -/
theorem i2osp_of_lt {x n : ℕ} (h : x < 256 ^ n) : i2osp x n = some (toOctets n x) := if_pos h

/-- The message representative lies below the modulus. -/
theorem rsavp1_lt {key : RsaPublicKey} {s m : ℕ} (h : key.rsavp1 s = some m) : m < key.n := by
  unfold RsaPublicKey.rsavp1 at h
  split at h
  · cases h
    exact Nat.mod_lt _ (Nat.lt_trans Nat.one_pos key.one_lt_n)
  · cases h

/-- The code accepts exactly what the standard does, for exponents below `2 ^ 31` and lengths
that are not 1 modulo 8. -/
theorem nativeRsaPss_ok_iff (key : RsaPublicKey) (message signature : Bytes) :
    nativeRsaPssSha256Verify P key.der message signature = .ok () ↔
      key.e < 2 ^ 31 ∧ key.modBits % 8 ≠ 1 ∧ RsassaPssVerify P.sha256 key message signature := by
  unfold nativeRsaPssSha256Verify
  rw [rsaPublic_der]
  by_cases hshort : key.e < 2 ^ 31
  · rw [if_pos hshort]
    by_cases hlen : signature.length = key.k
    · rw [if_neg (not_not.mpr hlen)]
      cases hpower : key.rsavp1 (ofOctets signature) with
      | none =>
        constructor
        · intro h
          cases h
        · rintro ⟨-, -, -, m, em, hm, -⟩
          rw [hpower] at hm
          cases hm
      | some m =>
        have hfits : m < 256 ^ key.k := Nat.lt_trans (rsavp1_lt hpower) (n_lt_pow_k key)
        dsimp only
        rw [except_ok_bind]
        by_cases hbits : key.modBits % 8 = 1
        · have hne : (toOctets key.k m).length ≠ emLen (key.modBits - 1) := by
            rw [length_toOctets]
            exact mt (emLen_eq_k_iff key).mp (not_not.mpr hbits)
          constructor
          · intro h
            exact absurd h (checkPss_ne_ok P message hne)
          · rintro ⟨-, hother, -⟩
            exact absurd hbits hother
        · have hk := (emLen_eq_k_iff key).mpr hbits
          rw [checkPss_ok_iff P message _ (by rw [length_toOctets, hk])]
          constructor
          · intro h
            exact ⟨hshort, hbits, hlen, m, _, hpower, by rw [← hk]; exact i2osp_of_lt hfits, h⟩
          · rintro ⟨-, -, -, m', em, hm, hem, h⟩
            rw [hpower] at hm
            cases hm
            rw [← hk, i2osp_of_lt hfits] at hem
            cases hem
            exact h
    · rw [if_pos hlen]
      constructor
      · intro h
        cases h
      · rintro ⟨-, -, hk, -⟩
        exact absurd hk hlen
  · rw [if_neg hshort]
    constructor
    · intro h
      cases h
    · rintro ⟨he, -⟩
      exact absurd he hshort

/-- **When the code decides as RSASSA-PSS-VERIFY does**: unless the signature is valid, and the
modulus has one bit more than a multiple of eight or the exponent has 32 bits. -/
theorem rsaPss_agrees_iff (key : RsaPublicKey) (message signature : Bytes) :
    (nativeRsaPssSha256Verify P key.der message signature = .ok () ↔
      RsassaPssVerify P.sha256 key message signature) ↔
    ¬ (RsassaPssVerify P.sha256 key message signature ∧
      (key.modBits % 8 = 1 ∨ 2 ^ 31 ≤ key.e)) := by
  rw [nativeRsaPss_ok_iff, ← Nat.not_lt]
  tauto

/-! ## A valid signature that is refused -/

/-- The data block before it is masked: zeros, a one and a salt of zeros. -/
def plainDb (len : ℕ) : Bytes := List.replicate (len - 66) 0 ++ [1] ++ List.replicate 32 0

/-- The digest that EMSA-PSS-ENCODE puts behind the data block. -/
def encodedDigest (hash : Bytes → FixedBytes 32) (message : Bytes) : FixedBytes 32 :=
  hash (List.replicate 8 0 ++ (hash message).val ++ List.replicate 32 0)

/-- EMSA-PSS-ENCODE on `len` octets with all their bits. -/
def encodedMessage (hash : Bytes → FixedBytes 32) (message : Bytes) (len : ℕ) : Bytes :=
  List.zipWith (· ^^^ ·) (plainDb len)
      (standardMgf1 hash (encodedDigest hash message).val (len - 33)) ++
    (encodedDigest hash message).val ++ [0xbc]

/-- The block of the test has its length. -/
theorem length_plainDb {len : ℕ} (h : 66 ≤ len) : (plainDb len).length = len - 33 := by
  unfold plainDb
  simp only [List.length_append, List.length_replicate, List.length_singleton]
  omega

/-- The message of the test has its length. -/
theorem length_encodedMessage (hash : Bytes → FixedBytes 32) (message : Bytes) {len : ℕ}
    (h : 66 ≤ len) : (encodedMessage hash message len).length = len := by
  unfold encodedMessage
  rw [List.length_append, List.length_append, List.length_zipWith, length_plainDb h,
    length_standardMgf1, (encodedDigest hash message).property, List.length_singleton]
  omega

/-- No bits are cleared. -/
theorem clearLeft_zero (s : Bytes) : clearLeft 0 s = s := by
  cases s with
  | nil => rfl
  | cons b s => simp [clearLeft]

/-- What was encoded is consistent. -/
theorem pssConsistent_encodedMessage (hash : Bytes → FixedBytes 32) (message : Bytes) {len : ℕ}
    (h : 66 ≤ len) : PssConsistent hash message (encodedMessage hash message len) (8 * len) := by
  have hemLen : emLen (8 * len) = len := by
    unfold emLen
    omega
  have hmasked : (List.zipWith (· ^^^ ·) (plainDb len)
      (standardMgf1 hash (encodedDigest hash message).val (len - 33))).length = len - 33 := by
    rw [List.length_zipWith, length_plainDb h, length_standardMgf1, Nat.min_self]
  have hleft : maskedDb (encodedMessage hash message len) (8 * len) =
      List.zipWith (· ^^^ ·) (plainDb len)
        (standardMgf1 hash (encodedDigest hash message).val (len - 33)) := by
    unfold maskedDb encodedMessage
    rw [hemLen, List.append_assoc, List.take_left' hmasked]
  have hdigest : pssDigest (encodedMessage hash message len) (8 * len) =
      (encodedDigest hash message).val := by
    unfold pssDigest encodedMessage
    rw [hemLen, List.append_assoc, slice_append_right hmasked,
      List.take_left' (encodedDigest hash message).property]
  have hdb : unmaskedDb hash (encodedMessage hash message len) (8 * len) = plainDb len := by
    unfold unmaskedDb
    rw [hleft, hdigest, hemLen, Nat.sub_self, clearLeft_zero,
      zipWith_xor_xor _ _ (by rw [length_plainDb h, length_standardMgf1])]
  exact {
    long := by
      rw [hemLen]
      exact h
    trailer := by
      unfold encodedMessage
      rw [List.getLast?_concat]
    leftmost := by
      intro b _
      have hb := b.toNat_lt
      rw [hemLen, Nat.sub_self]
      unfold leftBits
      exact Nat.div_eq_of_lt hb
    zeros := by
      unfold plainDb at hdb
      rw [hdb, hemLen, List.append_assoc, List.take_left' List.length_replicate]
    one := by
      unfold plainDb at hdb
      rw [hdb, hemLen, List.append_assoc,
        List.getElem?_append_right (by rw [List.length_replicate]), List.length_replicate,
        Nat.sub_self]
      rfl
    digest := by
      have hsalt : (plainDb len).drop (len - 65) = List.replicate 32 0 := by
        unfold plainDb
        rw [List.drop_left']
        rw [List.length_append, List.length_replicate, List.length_singleton]
        omega
      rw [hdigest, hdb, hemLen, hsalt]
      rfl }

/-- With a modulus of 529 bits and the exponent 4324321 every encoded message, behind a zero, is
its own signature. -/
theorem rsassaPss_fixingKey (message : Bytes) : RsassaPssVerify P.sha256 smallFixingKey message
    (0 :: encodedMessage P.sha256 message 66) := by
  have hbits : smallFixingKey.modBits = 529 := fixingPrimes_size
  have hk : smallFixingKey.k = 67 := by
    unfold RsaPublicKey.k
    rw [hbits]
  have hlen := length_encodedMessage P.sha256 message (le_refl 66)
  have hnumber : ofOctets (0 :: encodedMessage P.sha256 message 66) =
      ofOctets (encodedMessage P.sha256 message 66) := by
    have h := ofOctets_append [0] (encodedMessage P.sha256 message 66)
    simpa using h
  have hlow : 256 ^ 66 ≤ fixingPrimes.prod := by decide +kernel
  have hlt := ofOctets_lt (encodedMessage P.sha256 message 66)
  rw [hlen] at hlt
  have hencoded : toOctets 66 (ofOctets (encodedMessage P.sha256 message 66)) =
      encodedMessage P.sha256 message 66 := by
    have h := toOctets_ofOctets (encodedMessage P.sha256 message 66)
    rwa [hlen] at h
  have hem : emLen (smallFixingKey.modBits - 1) = 66 := by
    rw [hbits]
    rfl
  refine ⟨?_, ofOctets (encodedMessage P.sha256 message 66), encodedMessage P.sha256 message 66,
    ?_, ?_, ?_⟩
  · rw [List.length_cons, hlen, hk]
  · rw [hnumber]
    exact rsavp1_fixingKey _ (Nat.lt_of_lt_of_le hlt hlow)
  · rw [hem, i2osp_of_lt hlt, hencoded]
  · rw [hbits]
    exact pssConsistent_encodedMessage P.sha256 message (le_refl 66)

/-- **Valid signatures are refused**: under the key of 529 bits the code accepts no encoded
message behind a zero, though each is valid, whatever the hash and the message. -/
theorem rsaPss_refuses_529 : ¬ ∃ (P : Crypto) (message : Bytes),
    RsassaPssVerify P.sha256 smallFixingKey message (0 :: encodedMessage P.sha256 message 66) →
      nativeRsaPssSha256Verify P smallFixingKey.der message
        (0 :: encodedMessage P.sha256 message 66) = .ok () := by
  rintro ⟨P, message, haccepts⟩
  have hok := haccepts (rsassaPss_fixingKey P message)
  have hbits : smallFixingKey.modBits = 529 := fixingPrimes_size
  rw [nativeRsaPss_ok_iff, hbits] at hok
  simp at hok

end XboxTls.Analysis
