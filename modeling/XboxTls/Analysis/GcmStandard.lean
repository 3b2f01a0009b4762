import XboxTls.Analysis.Aes
import XboxTls.Analysis.AesGcm

/-!
# AES-128-GCM is that of the standards

`inc32` goes from one counter block to the next, so `ctr_crypt` puts the text under the keystream,
and the blocks that `auth_tag` feeds to GHASH are those of one padded string.
-/

set_option autoImplicit false

namespace XboxTls.Analysis

open Programs XboxTls.Model
open Interface.AesGcm (counter keystream padded hashed Seals cipher stateOf)
open Interface.Ghash (evaluation blockCount)

/-! ## The counter -/

/-- One round of `inc32`. -/
theorem inc32Loop_cons (front : Bytes) (x : UInt8) (back : Bytes) {c : Block} (rest : List ℕ)
    (hc : c.val = front ++ x :: back) :
    ∃ c', c'.val = front ++ (x + 1) :: back ∧
      inc32Loop (front.length :: rest) c = if x + 1 ≠ 0 then c' else inc32Loop rest c' := by
  have hbyte : byteAt c.val front.length = x := by
    rw [hc, byteAt, List.getD_eq_getElem?_getD, List.getElem?_append_right (Nat.le_refl _),
      Nat.sub_self]
    rfl
  have hset : (c.set front.length (x + 1)).val = front ++ (x + 1) :: back := by
    show c.val.set front.length (x + 1) = _
    rw [hc, List.set_append_right _ _ (Nat.le_refl _), Nat.sub_self]
    rfl
  have hbyte' : byteAt (c.set front.length (x + 1)).val front.length = x + 1 := by
    rw [hset, byteAt, List.getD_eq_getElem?_getD, List.getElem?_append_right (Nat.le_refl _),
      Nat.sub_self]
    rfl
  refine ⟨c.set front.length (x + 1), hset, ?_⟩
  rw [inc32Loop, hbyte, hbyte']

/-- One is added to the number in the octets that the loop goes through. -/
theorem inc32Loop_spec (t : Bytes) {front back : Bytes} {c : Block}
    (hc : c.val = front ++ (t ++ back)) :
    ∃ t', (inc32Loop (List.range' front.length t.length).reverse c).val = front ++ (t' ++ back) ∧
      t'.length = t.length ∧ ofOctets t' = (ofOctets t + 1) % 256 ^ t.length := by
  induction t using List.reverseRecOn generalizing back c with
  | nil => exact ⟨[], hc, rfl, (Nat.mod_one _).symm⟩
  | append_singleton t x ih =>
    have hx := x.toNat_lt
    have hpositions : (List.range' front.length (t ++ [x]).length).reverse =
        (front ++ t).length :: (List.range' front.length t.length).reverse := by
      rw [List.length_append, List.length_singleton, List.range'_concat, List.reverse_append,
        List.length_append, Nat.one_mul]
      rfl
    obtain ⟨c', hc', hloop⟩ := inc32Loop_cons (front ++ t) x back
      (List.range' front.length t.length).reverse (c := c) (by rw [hc]; simp)
    rw [hpositions, hloop, ofOctets_concat, List.length_append, List.length_singleton,
      pow_succ' 256 t.length]
    by_cases hwrap : x + 1 = 0
    · have hlast : x.toNat = 255 := by
        have hsum := congrArg UInt8.toNat hwrap
        rw [UInt8.toNat_add] at hsum
        have hone : (1 : UInt8).toNat = 1 := rfl
        have hzero : (0 : UInt8).toNat = 0 := rfl
        omega
      rw [hwrap] at hc'
      have hstart : c'.val = front ++ (t ++ 0 :: back) := by
        rw [hc', List.append_assoc]
      obtain ⟨t', ht', hlen, hvalue⟩ := ih hstart
      have hsum : x.toNat + 256 * ofOctets t + 1 = 256 * (ofOctets t + 1) := by omega
      refine ⟨t' ++ [0], ?_, by simp [hlen], ?_⟩
      · rw [if_neg (not_not.mpr hwrap), ht']
        simp
      · rw [ofOctets_concat, hvalue, hsum, Nat.mul_mod_mul_left]
        exact Nat.zero_add _
    · have hnext : (x + 1).toNat = x.toNat + 1 := by
        have hne : x.toNat ≠ 255 := by
          intro hlast
          apply hwrap
          rw [← UInt8.toNat_inj, UInt8.toNat_add, hlast]
          rfl
        have hone : (1 : UInt8).toNat = 1 := rfl
        rw [UInt8.toNat_add, hone]
        omega
      have hlt := ofOctets_lt t
      have hbyte := (x + 1).toNat_lt
      rw [hnext] at hbyte
      refine ⟨t ++ [x + 1], ?_, by simp, ?_⟩
      · rw [if_pos hwrap, hc']
        simp
      · rw [ofOctets_concat, hnext, Nat.mod_eq_of_lt (by omega)]
        omega

/-- `inc32` takes a counter block to the next. -/
theorem inc32_counter (nonce : FixedBytes 12) (j : ℕ) :
    inc32 (counter nonce j) = counter nonce (j + 1) := by
  have hval : (counter nonce j).val = nonce.val ++ (toOctets 4 j ++ []) := by
    rw [List.append_nil]
    rfl
  obtain ⟨t', ht', hlen, hvalue⟩ := inc32Loop_spec (toOctets 4 j) hval
  have hpositions : (List.range' nonce.val.length (toOctets 4 j).length).reverse =
      [15, 14, 13, 12] := by
    rw [nonce.property, length_toOctets]
    rfl
  rw [hpositions] at ht'
  have hnext : t' = toOctets 4 (j + 1) := by
    apply ofOctets_inj
    · rw [hlen, length_toOctets, length_toOctets]
    · rw [hvalue, ofOctets_toOctets, ofOctets_toOctets, length_toOctets, Nat.mod_add_mod]
  apply Subtype.ext
  unfold inc32
  rw [ht', hnext, List.append_nil]
  rfl

/-- The block for the tag is the first counter block. -/
theorem counterBlock_eq (nonce : FixedBytes 12) : counterBlock nonce = counter nonce 1 := by
  apply Subtype.ext
  rfl

/-! ## The keystream -/

/-- A byte of the keystream is one of an encrypted counter block. -/
theorem keystream_eq (key : Block) (nonce : FixedBytes 12) (i : ℕ) :
    keystream key nonce i = byteAt (aesBlock key (counter nonce (i / 16 + 2))).val (i % 16) := by
  have hindex : 4 * (i % 16 / 4 % 4) + i % 4 % 4 = i % 16 := by omega
  unfold keystream
  rw [← stateOf_aesBlock]
  simp only [stateOf, Fin.ofNat_eq_cast, Fin.val_natCast, hindex]

/-- The loop adds the encrypted counter blocks to the input. -/
theorem byteAt_ctrLoop (key : Block) (nonce : FixedBytes 12) (n j : ℕ) {input : Bytes}
    (hn : input.length ≤ n) {i : ℕ} (hi : i < input.length) :
    byteAt (ctrLoop key n (counter nonce j) input) i =
      byteAt input i ^^^ byteAt (aesBlock key (counter nonce (i / 16 + j + 1))).val (i % 16) := by
  induction n generalizing j input i with
  | zero => omega
  | succ n ih =>
    have hne : input ≠ [] := by
      rintro rfl
      exact absurd hi (Nat.not_lt_zero i)
    have hblock := (aesBlock key (counter nonce (j + 1))).property
    have hfirst : (List.zipWith (· ^^^ ·) (input.take 16)
        (aesBlock key (counter nonce (j + 1))).val).length = min 16 input.length := by
      rw [List.length_zipWith, List.length_take, hblock]
      omega
    rw [ctrLoop, if_neg hne, inc32_counter]
    by_cases hin : i < 16
    · have hquotient : i / 16 = 0 := Nat.div_eq_of_lt hin
      rw [byteAt_append (by omega), byteAt_zipWith (by rw [List.length_take]; omega) (by omega),
        byteAt_take hin, hquotient, Nat.zero_add, Nat.mod_eq_of_lt hin]
    · obtain ⟨k, rfl⟩ : ∃ k, i = 16 + k := ⟨i - 16, by omega⟩
      have hcount : (k / 16 + (j + 1) + 1) = (16 + k) / 16 + j + 1 := by omega
      rw [byteAt_append_right (show _ = 16 by omega),
        ih (j + 1) (by rw [List.length_drop]; omega) (by rw [List.length_drop]; omega),
        byteAt_drop, hcount, Nat.add_mod_left]

/-- Every byte is under that of the keystream. -/
theorem byteAt_ctrCrypt (key : Block) (nonce : FixedBytes 12) {input : Bytes} {i : ℕ}
    (hi : i < input.length) : byteAt (ctrCrypt key (counterBlock nonce) input) i =
      byteAt input i ^^^ keystream key nonce i := by
  rw [counterBlock_eq, ctrCrypt, byteAt_ctrLoop key nonce _ 1 (Nat.le_refl _) hi, keystream_eq]

/-! ## The hash -/

/-- The code's 64-bit store is the number in eight octets. -/
theorem be64_eq_toOctets (v : ℕ) : be64 v = toOctets 8 v := by
  unfold be64
  simp only [toOctets, Nat.div_div_eq_div_mul, List.nil_append, List.cons_append]
  norm_num

/-- No blocks change nothing. -/
theorem evaluation_nil (y h : AdjoinRoot Interface.Ghash.modulus) : evaluation y h [] = y := by
  have hcount : blockCount [] = 0 := rfl
  unfold evaluation
  rw [hcount, Finset.sum_range_zero, pow_zero, mul_one, add_zero]

/-- The first block of a string that is filled up. -/
theorem padded_eq {a : Bytes} (hne : a ≠ []) :
    padded a = (FixedBytes.ofBytes 16 a).val ++ padded (a.drop 16) := by
  have hpos := List.length_pos_iff.mpr hne
  have hblock : (FixedBytes.ofBytes 16 a).val =
      a.take 16 ++ List.replicate (16 - a.length) 0 := rfl
  rw [hblock]
  unfold padded blockCount
  by_cases hlong : 16 ≤ a.length
  · have hfull : 16 - a.length = 0 := by omega
    have hzeros : 16 * ((a.length + 15) / 16) - a.length =
        16 * (((a.drop 16).length + 15) / 16) - (a.drop 16).length := by
      rw [List.length_drop]
      omega
    rw [hfull, List.replicate_zero, List.append_nil, hzeros, ← List.append_assoc,
      List.take_append_drop]
  · have hdrop : a.drop 16 = [] := List.drop_of_length_le (by omega)
    have hzeros : 16 * ((a.length + 15) / 16) - a.length = 16 - a.length := by omega
    rw [hdrop, hzeros, List.take_of_length_le (by omega)]
    exact (List.append_nil _).symm

/-- The first 16 bytes are the front block. -/
theorem ofBytes_append (front : Block) (rest : Bytes) :
    FixedBytes.ofBytes 16 (front.val ++ rest) = front := by
  have hlen := front.property
  apply Subtype.ext
  show (front.val ++ rest).take 16 ++ List.replicate (16 - (front.val ++ rest).length) 0 = _
  have hnone : 16 - (front.val ++ rest).length = 0 := by
    rw [List.length_append]
    omega
  rw [hnone, List.replicate_zero, List.append_nil]
  exact List.take_left' hlen

/-- A whole block is hashed before what follows it. -/
theorem evaluation_block (y h : AdjoinRoot Interface.Ghash.modulus) (front : Block)
    (rest : Bytes) : evaluation y h (front.val ++ rest) =
      evaluation ((y + Interface.Ghash.element front) * h) h rest := by
  have hne : front.val ++ rest ≠ [] := by
    intro hnil
    have hlen := congrArg List.length hnil
    rw [List.length_append, front.property, List.length_nil] at hlen
    omega
  rw [evaluation_of_ne_nil y h hne, ofBytes_append, List.drop_left' front.property]

/-- A string that is filled up to whole blocks is hashed before what follows it. -/
theorem evaluation_padded (y h : AdjoinRoot Interface.Ghash.modulus) (a b : Bytes) :
    evaluation y h (padded a ++ b) = evaluation (evaluation y h a) h b := by
  induction hn : blockCount a generalizing y a with
  | zero =>
    obtain rfl := (blockCount_eq_zero_iff a).mp hn
    rw [evaluation_nil]
    rfl
  | succ n ih =>
    have hne : a ≠ [] := by
      rintro rfl
      cases hn
    have hcount : blockCount (a.drop 16) = n := by
      unfold blockCount at hn ⊢
      rw [List.length_drop]
      omega
    rw [padded_eq hne, List.append_assoc, evaluation_block, ih _ _ hcount,
      ← evaluation_of_ne_nil y h hne]

/-- The tag is the hash of one string under the first block of the keystream. -/
theorem element_authTag_hashed (key : Block) (nonce : FixedBytes 12) (aad ciphertext : Bytes) :
    Interface.Ghash.element (authTag key nonce aad ciphertext) =
      evaluation 0 (Interface.Ghash.element (aesBlock key (FixedBytes.zero 16)))
          (hashed aad ciphertext) +
        Interface.Ghash.element (aesBlock key (counter nonce 1)) := by
  have hlengths (n : ℕ) : toOctets 8 (8 * n) = be64 (n * 8) := by
    rw [be64_eq_toOctets, Nat.mul_comm]
  rw [element_authTag, counterBlock_eq, hashed, List.append_assoc, evaluation_padded,
    evaluation_padded, hlengths, hlengths]
  have hlast := evaluation_block (evaluation (evaluation 0
    (Interface.Ghash.element (aesBlock key (FixedBytes.zero 16))) aad)
    (Interface.Ghash.element (aesBlock key (FixedBytes.zero 16))) ciphertext)
    (Interface.Ghash.element (aesBlock key (FixedBytes.zero 16)))
    ⟨be64 (aad.length * 8) ++ be64 (ciphertext.length * 8), rfl⟩ []
  rw [List.append_nil, evaluation_nil] at hlast
  rw [hlast]

/-! ## The two functions -/

/-- What the code encrypts is sealed as the standard says. -/
theorem seals_encrypt (key : Block) (nonce : FixedBytes 12) (aad plaintext : Bytes) :
    Seals key nonce aad plaintext (aes128GcmEncrypt key nonce aad plaintext).1
      (aes128GcmEncrypt key nonce aad plaintext).2 where
  length := ctrCrypt_length key (counterBlock nonce) plaintext
  stream _ hi := byteAt_ctrCrypt key nonce hi
  authenticated := ⟨_, _, stateOf_aesBlock _ _, stateOf_aesBlock _ _,
    element_authTag_hashed key nonce aad _⟩

/-- The standard leaves no choice. -/
theorem seals_unique {key : Block} {nonce : FixedBytes 12}
    {aad plaintext ciphertext ciphertext' : Bytes} {tag tag' : Block}
    (h : Seals key nonce aad plaintext ciphertext tag)
    (h' : Seals key nonce aad plaintext ciphertext' tag') :
    ciphertext = ciphertext' ∧ tag = tag' := by
  have hsame : ciphertext = ciphertext' := by
    apply List.ext_getElem (h.length.trans h'.length.symm)
    intro i hi hi'
    have hin : i < plaintext.length := by
      rw [← h.length]
      exact hi
    rw [← byteAt_eq_getElem hi, ← byteAt_eq_getElem hi', h.stream i hin, h'.stream i hin]
  subst hsame
  obtain ⟨subkey, mask, hsubkey, hmask, htag⟩ := h.authenticated
  obtain ⟨subkey', mask', hsubkey', hmask', htag'⟩ := h'.authenticated
  obtain rfl := stateOf_injective (hsubkey.trans hsubkey'.symm)
  obtain rfl := stateOf_injective (hmask.trans hmask'.symm)
  exact ⟨rfl, element_injective (htag.trans htag'.symm)⟩

/-- The code encrypts exactly as the standard says. -/
theorem seals_iff (key : Block) (nonce : FixedBytes 12) (aad plaintext ciphertext : Bytes)
    (tag : Block) : aes128GcmEncrypt key nonce aad plaintext = (ciphertext, tag) ↔
      Seals key nonce aad plaintext ciphertext tag := by
  have hseals := seals_encrypt key nonce aad plaintext
  constructor
  · intro hencrypt
    rw [hencrypt] at hseals
    exact hseals
  · intro h
    obtain ⟨hciphertext, htag⟩ := seals_unique hseals h
    exact Prod.ext hciphertext htag

/-- What opens is what was sealed. -/
theorem opens_iff (key : Block) (nonce : FixedBytes 12) (aad ciphertext : Bytes) (tag : Block)
    (plaintext : Bytes) : aes128GcmDecrypt key nonce aad ciphertext tag = .ok plaintext ↔
      Seals key nonce aad plaintext ciphertext tag := by
  rw [← seals_iff]
  constructor
  · exact aes128GcmEncrypt_decrypt key nonce aad ciphertext tag plaintext
  · intro hencrypt
    have hopens := aes128GcmDecrypt_encrypt key nonce aad plaintext
    rw [hencrypt] at hopens
    exact hopens

/-- **AES-128-GCM is that of the standards.** -/
theorem aesGcm_standard (key : Block) (nonce : FixedBytes 12) (aad : Bytes) :
    (∀ plaintext ciphertext tag, aes128GcmEncrypt key nonce aad plaintext = (ciphertext, tag) ↔
      Seals key nonce aad plaintext ciphertext tag) ∧
    (∀ ciphertext tag plaintext, aes128GcmDecrypt key nonce aad ciphertext tag = .ok plaintext ↔
      Seals key nonce aad plaintext ciphertext tag) ∧
    ∀ ciphertext tag, aes128GcmDecrypt key nonce aad ciphertext tag = .error .verify ↔
      ¬ ∃ plaintext, Seals key nonce aad plaintext ciphertext tag := by
  refine ⟨seals_iff key nonce aad, opens_iff key nonce aad, fun ciphertext tag => ?_⟩
  constructor
  · rintro herror ⟨plaintext, hseals⟩
    rw [(opens_iff key nonce aad ciphertext tag plaintext).mpr hseals] at herror
    cases herror
  · intro hnone
    unfold aes128GcmDecrypt
    by_cases htag : tagEqual (authTag key nonce aad ciphertext) tag = true
    · have hopens : aes128GcmDecrypt key nonce aad ciphertext tag =
          .ok (ctrCrypt key (counterBlock nonce) ciphertext) := by
        rw [aes128GcmDecrypt, if_pos htag]
      exact absurd ⟨_, (opens_iff key nonce aad ciphertext tag _).mp hopens⟩ hnone
    · rw [if_neg htag]

end XboxTls.Analysis
