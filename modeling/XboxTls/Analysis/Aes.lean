import XboxTls.Analysis.Ghash
import XboxTls.Interface.AesGcm

/-!
# The block cipher of AES-GCM

The table of `aes_gcm.cpp` is the substitution of the standard, its `xtime` the product with the
unknown, and every function on a block is the one on the state of the block.
-/

set_option autoImplicit false

namespace XboxTls.Analysis

open Polynomial Programs XboxTls.Model
open Interface.AesGcm (element xTimes partialProduct times inverse affine subByte State Word rcon
  word roundKey cipher stateOf)

/-! ## The field -/

/-- The low part of the AES polynomial has a degree below 8. -/
theorem degree_low_aes :
    ((X : (ZMod 2)[X]) ^ 4 + X ^ 3 + X + 1).degree < ((8 : ℕ) : WithBot ℕ) := by
  have hdegree : ((X : (ZMod 2)[X]) ^ 4 + X ^ 3 + X + 1).degree = 4 := by compute_degree!
  rw [hdegree]
  exact WithBot.coe_lt_coe.mpr (by decide : (4 : ℕ) < 8)

/-- The AES polynomial is monic. -/
theorem monic_modulus_aes : Interface.AesGcm.modulus.Monic := by
  unfold Interface.AesGcm.modulus
  exact monic_X_pow_add degree_low_aes

/-- The AES polynomial has degree 8. -/
theorem degree_modulus_aes : Interface.AesGcm.modulus.degree = (8 : ℕ) := by
  unfold Interface.AesGcm.modulus
  rw [degree_add_eq_left_of_degree_lt, degree_X_pow]
  rw [degree_X_pow]
  exact degree_low_aes

/-- Bytes with the same bits are the same. -/
theorem byte_ext {a b : UInt8} (h : ∀ i < 8, a.toNat.testBit i = b.toNat.testBit i) : a = b := by
  rw [← UInt8.toNat_inj]
  apply Nat.eq_of_testBit_eq
  intro i
  by_cases hi : i < 8
  · exact h i hi
  · have hpow : 2 ^ 8 ≤ 2 ^ i := Nat.pow_le_pow_right Nat.two_pos (Nat.not_lt.mp hi)
    rw [Nat.testBit_lt_two_pow (a.toNat_lt.trans_le hpow),
      Nat.testBit_lt_two_pow (b.toNat_lt.trans_le hpow)]

/-- Different bytes stand for different elements. -/
theorem byteElement_injective : Function.Injective element := fun _ _ h =>
  byte_ext fun _ hi => residueOf_injective monic_modulus_aes degree_modulus_aes h hi

/-- The exclusive or of bytes is the sum of their elements. -/
theorem byteElement_xor (a b : UInt8) : element (a ^^^ b) = element a + element b := by
  unfold element
  rw [← residueOf_xor]
  apply residueOf_congr
  intro i _
  rw [UInt8.toNat_xor, Nat.testBit_xor]

/-- The zero byte is zero. -/
theorem byteElement_zero : element 0 = 0 := by
  have hsum := byteElement_xor 0 0
  exact left_eq_add.mp hsum

/-- `xTimes` multiplies with the root. -/
theorem element_xTimes (b : UInt8) :
    element (xTimes b) = AdjoinRoot.root Interface.AesGcm.modulus * element b := by
  have hshift : element (b <<< 1) =
      residueOf Interface.AesGcm.modulus 8 (shiftBits b.toNat.testBit) := by
    apply residueOf_congr
    intro i hi
    have hone : (1 : UInt8).toNat % 8 = 1 := rfl
    rw [UInt8.toNat_shiftLeft, Nat.testBit_mod_two_pow, Nat.testBit_shiftLeft, hone,
      decide_eq_true hi, Bool.true_and]
    unfold shiftBits
    rw [decide_eq_decide.mpr (by omega : i ≥ 1 ↔ i ≠ 0)]
  have hlow : element 0x1b = AdjoinRoot.mk Interface.AesGcm.modulus (X ^ 4 + X ^ 3 + X + 1) := by
    have hplaces : (Finset.range 8).filter (fun i => (0x1b : UInt8).toNat.testBit i = true) =
        {0, 1, 3, 4} := by decide
    unfold element residueOf ofBits
    rw [← Finset.sum_filter, hplaces]
    congr 1
    simp
    ring
  have hmodulus : Interface.AesGcm.modulus = X ^ (7 + 1) + (X ^ 4 + X ^ 3 + X + 1) := rfl
  have hroot := root_mul_residueOf hmodulus b.toNat.testBit
  unfold xTimes
  by_cases hbit : b.toNat.testBit 7 = true
  · rw [if_pos hbit] at hroot ⊢
    rw [byteElement_xor, hlow, hshift]
    exact hroot.symm
  · rw [if_neg hbit] at hroot ⊢
    rw [add_zero] at hroot
    rw [hshift]
    exact hroot.symm

/-- Repeated `xTimes` multiplies with a power of the root. -/
theorem element_iterate_xTimes (a : UInt8) (n : ℕ) :
    element (xTimes^[n] a) = AdjoinRoot.root Interface.AesGcm.modulus ^ n * element a := by
  induction n with
  | zero => rw [Function.iterate_zero_apply, pow_zero, one_mul]
  | succ n ih => rw [Function.iterate_succ_apply', element_xTimes, ih, pow_succ', mul_assoc]

/-- A partial product multiplies with the low bits of the second factor. -/
theorem element_partialProduct (a b : UInt8) (n : ℕ) :
    element (partialProduct a b n) = element a * ∑ i ∈ Finset.range n,
      if b.toNat.testBit i then AdjoinRoot.root Interface.AesGcm.modulus ^ i else 0 := by
  induction n with
  | zero => rw [partialProduct, byteElement_zero, Finset.sum_range_zero, mul_zero]
  | succ n ih =>
    rw [partialProduct, byteElement_xor, ih, Finset.sum_range_succ, mul_add, add_right_inj]
    split
    · rw [element_iterate_xTimes, mul_comm]
    · rw [byteElement_zero, mul_zero]

/-- **The product of bytes is that of the elements.** -/
theorem element_times (a b : UInt8) : element (times a b) = element a * element b := by
  have hb : element b = ∑ i ∈ Finset.range 8,
      if b.toNat.testBit i then AdjoinRoot.root Interface.AesGcm.modulus ^ i else 0 := by
    unfold element residueOf ofBits
    rw [map_sum]
    apply Finset.sum_congr rfl
    intro i _
    rw [apply_ite (AdjoinRoot.mk _), map_pow, AdjoinRoot.mk_X, map_zero]
  rw [times, element_partialProduct, ← hb]

/-- The byte 1 is one. -/
theorem byteElement_one : element 1 = 1 := by
  have hplaces : (Finset.range 8).filter (fun i => (1 : UInt8).toNat.testBit i = true) = {0} := by
    decide
  unfold element residueOf ofBits
  rw [← Finset.sum_filter, hplaces, Finset.sum_singleton, pow_zero, map_one]

/-! ## The substitution -/

/-- What holds of every number below 256 holds of every byte. -/
theorem forall_byte {C : UInt8 → Prop} (h : ∀ n < 256, C (UInt8.ofNat n)) (b : UInt8) : C b := by
  have hb := h b.toNat b.toNat_lt
  rwa [UInt8.ofNat_toNat] at hb

/-- A byte with the product one is the inverse. -/
theorem inverse_eq {b c : UInt8} (h : times b c = 1) : inverse b = c := by
  have hproduct (d : UInt8) (hd : times b d = 1) : element b * element d = 1 := by
    rw [← element_times, hd, byteElement_one]
  have hmem : c ∈ (List.range 256).map UInt8.ofNat := by
    rw [List.mem_map]
    exact ⟨c.toNat, List.mem_range.mpr c.toNat_lt, UInt8.ofNat_toNat⟩
  cases hfind : ((List.range 256).map UInt8.ofNat).find? fun d => times b d = 1 with
  | none =>
    have hnone := List.find?_eq_none.mp hfind c hmem
    exact absurd (decide_eq_true h) hnone
  | some d =>
    have hd : times b d = 1 := by simpa using List.find?_some hfind
    rw [inverse, hfind, Option.getD_some]
    apply byteElement_injective
    calc element d = element d * (element b * element c) := by rw [hproduct c h, mul_one]
      _ = element b * element d * element c := by ring
      _ = element c := by rw [hproduct d hd, one_mul]

/-- The inverse of zero is zero. -/
theorem inverse_zero : inverse 0 = 0 := by
  have hnone : ((List.range 256).map UInt8.ofNat).find? (fun d => times 0 d = 1) = none := by
    rw [List.find?_eq_none]
    intro d _
    rw [decide_eq_true_eq]
    intro hone
    have hzero := element_times 0 d
    rw [hone, byteElement_zero, zero_mul, ← byteElement_zero] at hzero
    exact absurd (byteElement_injective hzero) (by decide)
  rw [inverse, hnone]
  rfl

/-- The affine map the other way: bit `i` is the sum of the bits `i + 2`, `i + 5` and `i + 7`, and
of bit `i` of `05`. -/
def inverseAffine (b : UInt8) : UInt8 :=
  let x := b.toBitVec
  .ofBitVec (x.rotateLeft 6 ^^^ x.rotateLeft 3 ^^^ x.rotateLeft 1 ^^^ 0x05)

/-- The affine map of the S-box undoes its inverse. -/
theorem affine_inverseAffine : ∀ b, affine (inverseAffine b) = b :=
  forall_byte (by decide +kernel)

/-- Every byte times what the table gives, without the affine map, is one. -/
theorem times_table : ∀ n < 256, n ≠ 0 →
    times (UInt8.ofNat n) (inverseAffine (byteAt sbox n)) = 1 := by
  decide +kernel

/-- **The table is the substitution of the standard.** -/
theorem sbox_eq (b : UInt8) : byteAt sbox b.toNat = subByte b := by
  by_cases hzero : b = 0
  · subst hzero
    rw [subByte, inverse_zero]
    decide
  · have hne : b.toNat ≠ 0 := by
      intro hb
      exact hzero (UInt8.toNat_inj.mp hb)
    have hone := times_table b.toNat b.toNat_lt hne
    rw [UInt8.ofNat_toNat] at hone
    rw [subByte, inverse_eq hone, affine_inverseAffine]

/-- The code's `xtime` is the multiplication with the root. -/
theorem xtime_eq : ∀ b, xtime b = xTimes b :=
  forall_byte (by decide +kernel)

/-! ## The rounds -/

/-- A block is determined by its state. -/
theorem stateOf_injective : Function.Injective stateOf := by
  intro a b h
  apply Subtype.ext
  apply List.ext_getElem (by rw [a.property, b.property])
  intro i hi hi'
  have hlen := a.property
  have hbyte := congrFun (congrFun h (Fin.ofNat 4 (i % 4))) (Fin.ofNat 4 (i / 4))
  have hindex : 4 * (i / 4 % 4) + i % 4 % 4 = i := by omega
  rw [← byteAt_eq_getElem hi, ← byteAt_eq_getElem hi']
  simp only [stateOf, Fin.ofNat_eq_cast, Fin.val_natCast, hindex] at hbyte
  exact hbyte

/-- `sub_bytes` is SubBytes. -/
theorem stateOf_subBytes (s : Block) :
    stateOf (subBytes s) = Interface.AesGcm.subBytes (stateOf s) := by
  funext r c
  have hr := r.isLt
  have hc := c.isLt
  have hlen := s.property
  have hlen' := (subBytes s).property
  unfold stateOf Interface.AesGcm.subBytes
  dsimp only
  rw [byteAt_eq_getElem (by omega), byteAt_eq_getElem (by omega), ← sbox_eq]
  simp only [subBytes, List.getElem_map]

/-- `shift_rows` is ShiftRows. -/
theorem stateOf_shiftRows (s : Block) :
    stateOf (shiftRows s) = Interface.AesGcm.shiftRows (stateOf s) := by
  funext r c
  fin_cases r <;> fin_cases c <;> rfl

/-- The byte 2 is the root. -/
theorem byteElement_two : element 2 = AdjoinRoot.root Interface.AesGcm.modulus := by
  have htwo : (2 : UInt8) = xTimes 1 := by decide
  rw [htwo, element_xTimes, byteElement_one, mul_one]

/-- The byte 3 is the root plus one. -/
theorem byteElement_three : element 3 = AdjoinRoot.root Interface.AesGcm.modulus + 1 := by
  have hthree : (3 : UInt8) = 2 ^^^ 1 := by decide
  rw [hthree, byteElement_xor, byteElement_two, byteElement_one]

/-- The field has characteristic two. -/
theorem two_eq_zero_aes : (2 : AdjoinRoot Interface.AesGcm.modulus) = 0 := by
  have hself : (1 : UInt8) ^^^ 1 = 0 := by decide
  have hsum := byteElement_xor 1 1
  rw [hself, byteElement_zero, byteElement_one] at hsum
  exact one_add_one_eq_two.symm.trans hsum.symm

/-- A byte of a mixed column, from the sum `x` of the column. -/
theorem mixByte {x : UInt8} (a b d e : UInt8) (hx : x = a ^^^ b ^^^ d ^^^ e) :
    a ^^^ (x ^^^ xtime (a ^^^ b)) = times 2 a ^^^ times 3 b ^^^ d ^^^ e := by
  apply byteElement_injective
  rw [hx, xtime_eq]
  simp only [byteElement_xor, element_xTimes, element_times, byteElement_two, byteElement_three]
  linear_combination element a * two_eq_zero_aes

/-- One column of `mix_columns`, byte by byte. -/
theorem mixColumn_eq (s : Bytes) (i : ℕ) : mixColumn s i =
    let a := byteAt s i
    let b := byteAt s (i + 1)
    let d := byteAt s (i + 2)
    let e := byteAt s (i + 3)
    [times 2 a ^^^ times 3 b ^^^ d ^^^ e, times 2 b ^^^ times 3 d ^^^ e ^^^ a,
      times 2 d ^^^ times 3 e ^^^ a ^^^ b, times 2 e ^^^ times 3 a ^^^ b ^^^ d] := by
  unfold mixColumn
  dsimp only
  generalize byteAt s i = a
  generalize byteAt s (i + 1) = b
  generalize byteAt s (i + 2) = d
  generalize byteAt s (i + 3) = e
  rw [mixByte a b d e rfl, mixByte b d e a (by ac_rfl), mixByte d e a b (by ac_rfl),
    mixByte e a b d (by ac_rfl)]

/-- `mix_columns` is MixColumns. -/
theorem stateOf_mixColumns (s : Block) :
    stateOf (mixColumns s) = Interface.AesGcm.mixColumns (stateOf s) := by
  funext r c
  have hcolumns : (mixColumns s).val =
      mixColumn s.val 0 ++ mixColumn s.val 4 ++ mixColumn s.val 8 ++ mixColumn s.val 12 := rfl
  unfold stateOf
  rw [hcolumns, mixColumn_eq, mixColumn_eq, mixColumn_eq, mixColumn_eq]
  fin_cases r <;> fin_cases c <;> rfl

/-- A byte of a round key is one of the expanded key. -/
theorem byteAt_ofBytes_slice (rk : Bytes) (i : ℕ) {j : ℕ} (hj : j < 16) :
    byteAt (FixedBytes.ofBytes 16 (slice rk i 16)).val j = byteAt rk (i + j) := by
  have hbyte : byteAt (slice rk i 16) j = byteAt rk (i + j) := byteAt_slice hj
  rw [FixedBytes.ofBytes_val_of_le (slice_length_le rk i 16), ← hbyte]
  by_cases hin : j < (slice rk i 16).length
  · exact byteAt_append hin
  · have hout : byteAt (slice rk i 16) j = 0 := by
      rw [byteAt, List.getD_eq_getElem?_getD, List.getElem?_eq_none (Nat.not_lt.mp hin)]
      rfl
    rw [hout, byteAt, List.getD_eq_getElem?_getD, List.getElem?_append_right (Nat.not_lt.mp hin),
      List.getElem?_replicate]
    split <;> rfl

/-- `add_round_key` is AddRoundKey with the words at its place. -/
theorem stateOf_addRoundKey {rk : Bytes} {i : ℕ} {k : State} (s : Block)
    (hk : ∀ r c : Fin 4, byteAt rk (i + (4 * c + r)) = k r c) :
    stateOf (addRoundKey s rk i) = Interface.AesGcm.addRoundKey (stateOf s) k := by
  funext r c
  have hr := r.isLt
  have hc := c.isLt
  unfold stateOf addRoundKey Interface.AesGcm.addRoundKey
  rw [byteAt_xor16 _ _ (by omega), byteAt_ofBytes_slice rk i (by omega), hk]

/-! ## The key schedule -/

/-- Every fourth word is rotated, substituted and given the round constant. -/
theorem word_full {n : ℕ} (key : Block) (hn : 4 ≤ n) (hfull : n % 4 = 0) (r : Fin 4) :
    word key n r = word key (n - 4) r ^^^
      (subByte (word key (n - 1) (r + 1)) ^^^ rcon (n / 4) r) := by
  rw [word, if_neg (Nat.not_lt.mpr hn), if_pos hfull]
  rfl

/-- The other words are the exclusive or of two earlier ones. -/
theorem word_next {n : ℕ} (key : Block) (hn : 4 ≤ n) (hfull : ¬ n % 4 = 0) (r : Fin 4) :
    word key n r = word key (n - 4) r ^^^ word key (n - 1) r := by
  rw [word, if_neg (Nat.not_lt.mpr hn), if_neg hfull]

/-- The bytes are the first `n` words of the schedule. -/
structure Expands (key : Block) (n : ℕ) (rk : Bytes) : Prop where
  length : rk.length = 4 * n
  words : ∀ i < n, ∀ r : Fin 4, byteAt rk (4 * i + r) = word key i r

/-- The key is the first four words. -/
theorem expands_key (key : Block) : Expands key 4 key.val where
  length := key.property
  words := by
    intro i hi r
    rw [word, if_pos hi]

/-- One more word. -/
theorem Expands.append {key : Block} {n : ℕ} {rk w : Bytes} (h : Expands key n rk)
    (hlen : w.length = 4) (hw : ∀ r : Fin 4, byteAt w r = word key n r) :
    Expands key (n + 1) (rk ++ w) where
  length := by
    rw [List.length_append, h.length, hlen]
    omega
  words := by
    intro i hi r
    have hr := r.isLt
    have hcount := h.length
    by_cases hold : i < n
    · rw [byteAt_append (by omega), h.words i hold]
    · have hlast : i = n := by omega
      rw [hlast, byteAt_append_right hcount, hw]

/-- The exclusive or of two strings, byte by byte. -/
theorem byteAt_zipWith {a b : Bytes} {i : ℕ} (ha : i < a.length) (hb : i < b.length) :
    byteAt (List.zipWith (· ^^^ ·) a b) i = byteAt a i ^^^ byteAt b i := by
  rw [byteAt_eq_getElem ha, byteAt_eq_getElem hb,
    byteAt_eq_getElem (by rw [List.length_zipWith]; omega)]
  exact List.getElem_zipWith

/-- A word of the bytes so far. -/
theorem Expands.slice {key : Block} {n : ℕ} {rk : Bytes} (h : Expands key n rk) {i : ℕ}
    (hi : i < n) : (slice rk (4 * i) 4).length = 4 ∧
      ∀ r : Fin 4, byteAt (slice rk (4 * i) 4) r = word key i r := by
  have hcount := h.length
  refine ⟨slice_length (by omega), fun r => ?_⟩
  rw [byteAt_slice r.isLt, h.words i hi]

/-- The round constant that the loop holds before word `n`. -/
def rconAt (n : ℕ) : UInt8 := xTimes^[(n + 3) / 4 - 1] 1

/-- The loop appends one word after the other. -/
theorem expands_keyExpandLoop (key : Block) (k : ℕ) {n : ℕ} {rk : Bytes} (hn : 4 ≤ n)
    (h : Expands key n rk) : Expands key (n + k) (keyExpandLoop k (rconAt n) rk) := by
  induction k generalizing n rk with
  | zero => exact h
  | succ k ih =>
    have hcount := h.length
    have hback : rk.length - 16 = 4 * (n - 4) := by omega
    have hlast : rk.length - 4 = 4 * (n - 1) := by omega
    obtain ⟨hbackLength, hbackWord⟩ := h.slice (i := n - 4) (by omega)
    obtain ⟨hlastLength, hlastWord⟩ := h.slice (i := n - 1) (by omega)
    have hsum : n + (k + 1) = n + 1 + k := by omega
    rw [keyExpandLoop, hsum]
    dsimp only
    rw [hback, hlast]
    by_cases hfull : n % 4 = 0
    · have hfull' : rk.length % 16 = 0 := by omega
      have hnext : xtime (rconAt n) = rconAt (n + 1) := by
        have hindex : (n + 1 + 3) / 4 - 1 = (n + 3) / 4 - 1 + 1 := by omega
        rw [rconAt, rconAt, hindex, Function.iterate_succ_apply', xtime_eq]
      have hconstant : rconAt n = rcon (n / 4) 0 := by
        have hindex : (n + 3) / 4 = n / 4 := by omega
        rw [rconAt, hindex]
        rfl
      rw [if_pos hfull', hnext]
      apply ih (by omega)
      apply h.append
      · rw [List.length_zipWith, hbackLength]
        rfl
      · intro r
        have hr := r.isLt
        rw [byteAt_zipWith (by rwa [hbackLength]) hr, hbackWord, word_full key hn hfull]
        congr 1
        rw [← sbox_eq, ← hlastWord]
        fin_cases r
        · rw [hconstant]
          rfl
        · exact UInt8.xor_zero.symm
        · exact UInt8.xor_zero.symm
        · exact UInt8.xor_zero.symm
    · have hfull' : ¬ rk.length % 16 = 0 := by omega
      have hsame : rconAt n = rconAt (n + 1) := by
        have hindex : (n + 1 + 3) / 4 = (n + 3) / 4 := by omega
        rw [rconAt, rconAt, hindex]
      rw [if_neg hfull', hsame]
      apply ih (by omega)
      apply h.append
      · rw [List.length_zipWith, hbackLength, hlastLength, Nat.min_self]
      · intro r
        rw [byteAt_zipWith (by rw [hbackLength]; exact r.isLt)
          (by rw [hlastLength]; exact r.isLt), hbackWord, hlastWord, word_next key hn hfull]

/-- The expanded key has all 44 words. -/
theorem expands_keyExpand (key : Block) : Expands key 44 (keyExpand key) :=
  expands_keyExpandLoop key 40 (Nat.le_refl 4) (expands_key key)

/-- A round key is read where the schedule holds it. -/
theorem byteAt_keyExpand (key : Block) {j : ℕ} (hj : j ≤ 10) (r c : Fin 4) :
    byteAt (keyExpand key) (16 * j + (4 * c + r)) = roundKey key j r c := by
  have hc := c.isLt
  have hword := (expands_keyExpand key).words (4 * j + c) (by omega) r
  have hindex : 4 * (4 * j + (c : ℕ)) + r = 16 * j + (4 * c + r) := by omega
  rw [hindex] at hword
  exact hword

/-! ## The cipher -/

/-- The loop makes the rounds of the cipher. -/
theorem stateOf_aesRounds (key input : Block) {n : ℕ} (hn : n ≤ 9) :
    stateOf (aesRounds (keyExpand key) n (addRoundKey input (keyExpand key) 0)) =
      Interface.AesGcm.rounds key n (stateOf input) := by
  induction n with
  | zero => exact stateOf_addRoundKey input (byteAt_keyExpand key (Nat.zero_le 10))
  | succ n ih =>
    rw [aesRounds, Interface.AesGcm.rounds,
      stateOf_addRoundKey _ (byteAt_keyExpand key (show n + 1 ≤ 10 by omega)),
      stateOf_mixColumns, stateOf_shiftRows, stateOf_subBytes, ih (by omega)]

/-- **`aes_block` is the cipher of the standard.** -/
theorem stateOf_aesBlock (key input : Block) :
    stateOf (aesBlock key input) = cipher key (stateOf input) := by
  unfold aesBlock cipher
  dsimp only
  rw [stateOf_addRoundKey _ (byteAt_keyExpand key (Nat.le_refl 10)), stateOf_shiftRows,
    stateOf_subBytes, stateOf_aesRounds key input (Nat.le_refl 9)]

/-! ## The permutation -/

/-- The substitution has a table, so the product of a byte and its inverse is one. -/
theorem times_inverse {b : UInt8} (hb : b ≠ 0) : times b (inverse b) = 1 := by
  have hne : b.toNat ≠ 0 := fun hzero => hb (UInt8.toNat_inj.mp hzero)
  have hone := times_table b.toNat b.toNat_lt hne
  rw [UInt8.ofNat_toNat] at hone
  rw [inverse_eq hone]
  exact hone

/-- Inverting twice changes nothing. -/
theorem inverse_inverse (b : UInt8) : inverse (inverse b) = b := by
  by_cases hb : b = 0
  · rw [hb, inverse_zero, inverse_zero]
  · apply inverse_eq
    apply byteElement_injective
    rw [element_times, mul_comm, ← element_times, times_inverse hb]

/-- The inverse affine map undoes the affine map. -/
theorem inverseAffine_affine : ∀ b, inverseAffine (affine b) = b :=
  forall_byte (by decide +kernel)

/-- The S-box takes no two bytes to one. -/
theorem subByte_injective : Function.Injective subByte := by
  intro a b h
  have haffine := congrArg inverseAffine h
  rw [subByte, subByte, inverseAffine_affine, inverseAffine_affine] at haffine
  rw [← inverse_inverse a, haffine, inverse_inverse]

/-- SubBytes takes no two states to one. -/
theorem subBytes_injective : Function.Injective Interface.AesGcm.subBytes := by
  intro s t h
  funext r c
  exact subByte_injective (congrFun (congrFun h r) c)

/-- ShiftRows takes no two states to one. -/
theorem shiftRows_injective : Function.Injective Interface.AesGcm.shiftRows := by
  intro s t h
  funext r c
  have hentry := congrFun (congrFun h r) (c - r)
  simp only [Interface.AesGcm.shiftRows, sub_add_cancel] at hentry
  exact hentry

/-- AddRoundKey takes no two states to one. -/
theorem addRoundKey_injective (k : State) :
    Function.Injective fun s => Interface.AesGcm.addRoundKey s k := by
  intro s t h
  funext r c
  have hentry := congrArg (· ^^^ k r c) (congrFun (congrFun h r) c)
  simpa [Interface.AesGcm.addRoundKey, UInt8.xor_assoc] using hentry

/-- The coefficients of the inverse of MixColumns as elements of the field. -/
theorem byteElement_coefficients :
    element 14 = AdjoinRoot.root Interface.AesGcm.modulus ^ 3 +
      AdjoinRoot.root Interface.AesGcm.modulus ^ 2 + AdjoinRoot.root Interface.AesGcm.modulus ∧
    element 11 = AdjoinRoot.root Interface.AesGcm.modulus ^ 3 +
      AdjoinRoot.root Interface.AesGcm.modulus + 1 ∧
    element 13 = AdjoinRoot.root Interface.AesGcm.modulus ^ 3 +
      AdjoinRoot.root Interface.AesGcm.modulus ^ 2 + 1 ∧
    element 9 = AdjoinRoot.root Interface.AesGcm.modulus ^ 3 + 1 := by
  have hcube : element 8 = AdjoinRoot.root Interface.AesGcm.modulus ^ 3 := by
    have hiterate := element_iterate_xTimes 1 3
    rw [byteElement_one, mul_one] at hiterate
    exact hiterate
  have hsquare : element 4 = AdjoinRoot.root Interface.AesGcm.modulus ^ 2 := by
    have hiterate := element_iterate_xTimes 1 2
    rw [byteElement_one, mul_one] at hiterate
    exact hiterate
  have h14 : (14 : UInt8) = 8 ^^^ 4 ^^^ 2 := by decide
  have h11 : (11 : UInt8) = 8 ^^^ 2 ^^^ 1 := by decide
  have h13 : (13 : UInt8) = 8 ^^^ 4 ^^^ 1 := by decide
  have h9 : (9 : UInt8) = 8 ^^^ 1 := by decide
  rw [h14, h11, h13, h9]
  simp only [byteElement_xor, hcube, hsquare, byteElement_two, byteElement_one, true_and]

/-- The inverse of the column map, `0b x³ + 0d x² + 09 x + 0e`. -/
theorem mixed_column {s : State} (r c : Fin 4) :
    times 14 (Interface.AesGcm.mixColumns s r c) ^^^
      times 11 (Interface.AesGcm.mixColumns s (r + 1) c) ^^^
      times 13 (Interface.AesGcm.mixColumns s (r + 2) c) ^^^
      times 9 (Interface.AesGcm.mixColumns s (r + 3) c) = s r c := by
  have hindex : r + 1 + 1 = r + 2 ∧ r + 1 + 2 = r + 3 ∧ r + 1 + 3 = r ∧ r + 2 + 1 = r + 3 ∧
      r + 2 + 2 = r ∧ r + 2 + 3 = r + 1 ∧ r + 3 + 1 = r ∧ r + 3 + 2 = r + 1 ∧
      r + 3 + 3 = r + 2 := by
    fin_cases r <;> decide
  obtain ⟨h11, h12, h13, h21, h22, h23, h31, h32, h33⟩ := hindex
  obtain ⟨h14, h11', h13', h9⟩ := byteElement_coefficients
  apply byteElement_injective
  unfold Interface.AesGcm.mixColumns
  rw [h11, h12, h13, h21, h22, h23, h31, h32, h33]
  simp only [byteElement_xor, element_times, byteElement_two, byteElement_three, h14, h11',
    h13', h9]
  generalize AdjoinRoot.root Interface.AesGcm.modulus = x
  linear_combination ((x ^ 4 + 2 * x ^ 3 + x ^ 2 + x + 1) * element (s r c) +
    (x ^ 4 + 2 * x ^ 3 + 2 * x ^ 2 + x + 1) * element (s (r + 1) c) +
    (x ^ 4 + 2 * x ^ 3 + x ^ 2 + 2 * x + 1) * element (s (r + 2) c) +
    (x ^ 4 + 2 * x ^ 3 + x ^ 2 + 2 * x + 1) * element (s (r + 3) c)) * two_eq_zero_aes

/-- MixColumns takes no two states to one. -/
theorem mixColumns_injective : Function.Injective Interface.AesGcm.mixColumns := by
  intro s t h
  funext r c
  rw [← mixed_column (s := s) r c, h, mixed_column]

/-- The rounds take no two states to one. -/
theorem rounds_injective (key : Block) (n : ℕ) :
    Function.Injective (Interface.AesGcm.rounds key n) := by
  induction n with
  | zero => exact addRoundKey_injective _
  | succ n ih =>
    intro s t h
    exact ih (subBytes_injective (shiftRows_injective (mixColumns_injective
      (addRoundKey_injective _ h))))

/-- **Under every key the block cipher is a permutation.** -/
theorem aesBlock_injective (key : Block) : Function.Injective (aesBlock key) := by
  intro a b h
  have hcipher := congrArg stateOf h
  rw [stateOf_aesBlock, stateOf_aesBlock] at hcipher
  exact stateOf_injective (rounds_injective key 9 (subBytes_injective (shiftRows_injective
    (addRoundKey_injective _ hcipher))))

end XboxTls.Analysis
