import XboxTls.Analysis.ByteStrings
import XboxTls.Model.AesGcm

/-!
# Opening undoes sealing in AES-128-GCM

The keystream depends on the key and the nonce only, so encrypting twice is the identity,
and the tag is computed from the ciphertext on both sides.  These are the laws that the
record layer asks of a `Crypto`; `withAesGcm` is any implementation of the other
primitives together with the code's own cipher.
-/

set_option autoImplicit false

namespace XboxTls.Analysis

open XboxTls.Model

/-! ## The keystream -/

/-- The loop gives as many bytes as it is given. -/
theorem ctrLoop_length (key : Block) (n : ℕ) (c : Block) (input : Bytes)
    (h : input.length ≤ n) : (ctrLoop key n c input).length = input.length := by
  induction n generalizing c input with
  | zero =>
    have hnil : input = [] := List.eq_nil_of_length_eq_zero (by omega)
    rw [hnil]
    rfl
  | succ n ih =>
    unfold ctrLoop
    by_cases hnil : input = []
    · rw [if_pos hnil, hnil]
    · have hpos : 0 < input.length := List.length_pos_of_ne_nil hnil
      have hrest := ih (inc32 c) (input.drop 16) (by rw [List.length_drop]; omega)
      rw [if_neg hnil, List.length_append, hrest, List.length_zipWith, List.length_take,
        List.length_drop, (aesBlock key (inc32 c)).property]
      omega

/-- The loop undoes itself: block by block the mask is the same. -/
theorem ctrLoop_ctrLoop (key : Block) (n : ℕ) (c : Block) (input : Bytes)
    (h : input.length ≤ n) : ctrLoop key n c (ctrLoop key n c input) = input := by
  induction n generalizing c input with
  | zero =>
    have hnil : input = [] := List.eq_nil_of_length_eq_zero (by omega)
    rw [hnil]
    rfl
  | succ n ih =>
    by_cases hnil : input = []
    · simp [ctrLoop, hnil]
    · have hpos : 0 < input.length := List.length_pos_of_ne_nil hnil
      have hmask : (input.take 16).length ≤ (aesBlock key (inc32 c)).val.length := by
        rw [List.length_take, (aesBlock key (inc32 c)).property]
        omega
      have hrest := ih (inc32 c) (input.drop 16) (by rw [List.length_drop]; omega)
      generalize hfirst : List.zipWith (· ^^^ ·) (input.take 16) (aesBlock key (inc32 c)).val =
        first
      have hlen : first.length = min 16 input.length := by
        rw [← hfirst, List.length_zipWith, List.length_take, (aesBlock key (inc32 c)).property]
        omega
      have hstep : ctrLoop key (n + 1) c input =
          first ++ ctrLoop key n (inc32 c) (input.drop 16) := by
        rw [ctrLoop, if_neg hnil, hfirst]
      have hne : ctrLoop key (n + 1) c input ≠ [] := by
        intro hempty
        have hzero := congrArg List.length (hstep.symm.trans hempty)
        rw [List.length_append, List.length_nil] at hzero
        omega
      -- a first block that is not full is also the last one
      have hsplit : (ctrLoop key (n + 1) c input).take 16 = first ∧
          (ctrLoop key (n + 1) c input).drop 16 = ctrLoop key n (inc32 c) (input.drop 16) := by
        rw [hstep]
        by_cases hfull : 16 ≤ input.length
        · have hfirst16 : first.length = 16 := by omega
          rw [← hfirst16]
          exact ⟨List.take_left, List.drop_left⟩
        · have hdrop : input.drop 16 = [] := List.drop_of_length_le (by omega)
          have hend : ctrLoop key n (inc32 c) (input.drop 16) = [] := by
            rw [hdrop]
            apply List.eq_nil_of_length_eq_zero
            rw [ctrLoop_length key n (inc32 c) [] (Nat.zero_le n)]
            rfl
          rw [hend, List.append_nil]
          exact ⟨List.take_of_length_le (by omega), List.drop_of_length_le (by omega)⟩
      rw [ctrLoop, if_neg hne, hsplit.1, hsplit.2, hrest, ← hfirst, zipWith_xor_xor _ _ hmask]
      exact List.take_append_drop 16 input

/-- The ciphertext is as long as the plaintext. -/
theorem ctrCrypt_length (key j0 : Block) (input : Bytes) :
    (ctrCrypt key j0 input).length = input.length :=
  ctrLoop_length key input.length j0 input (Nat.le_refl _)

/-- Encrypting twice gives the plaintext. -/
theorem ctrCrypt_ctrCrypt (key j0 : Block) (input : Bytes) :
    ctrCrypt key j0 (ctrCrypt key j0 input) = input := by
  unfold ctrCrypt
  rw [ctrLoop_length key input.length j0 input (Nat.le_refl _)]
  exact ctrLoop_ctrLoop key input.length j0 input (Nat.le_refl _)

/-! ## The two functions -/

/-- The comparison in constant time compares. -/
theorem tagEqual_iff (a b : Block) : tagEqual a b = true ↔ a = b := by
  unfold tagEqual
  rw [decide_eq_true_iff, foldl_or_xor_eq_zero_iff _ _ (by rw [a.property, b.property])]
  exact Subtype.ext_iff.symm

/-- What was encrypted is decrypted. -/
theorem aes128GcmDecrypt_encrypt (key : Block) (nonce : FixedBytes 12) (aad plaintext : Bytes) :
    aes128GcmDecrypt key nonce aad (aes128GcmEncrypt key nonce aad plaintext).1
      (aes128GcmEncrypt key nonce aad plaintext).2 = .ok plaintext := by
  unfold aes128GcmDecrypt aes128GcmEncrypt
  dsimp only
  rw [if_pos ((tagEqual_iff _ _).mpr rfl), ctrCrypt_ctrCrypt]

/-- What is decrypted was encrypted. -/
theorem aes128GcmEncrypt_decrypt (key : Block) (nonce : FixedBytes 12) (aad ciphertext : Bytes)
    (tag : Block) (plaintext : Bytes)
    (h : aes128GcmDecrypt key nonce aad ciphertext tag = .ok plaintext) :
    aes128GcmEncrypt key nonce aad plaintext = (ciphertext, tag) := by
  unfold aes128GcmDecrypt at h
  by_cases htag : tagEqual (authTag key nonce aad ciphertext) tag = true
  · rw [if_pos htag] at h
    cases h
    unfold aes128GcmEncrypt
    dsimp only
    rw [ctrCrypt_ctrCrypt, (tagEqual_iff _ _).mp htag]
  · rw [if_neg htag] at h
    cases h

-- the ciphertext of the vector in `test_core.cpp`
example : (aes128GcmEncrypt (FixedBytes.zero 16) (FixedBytes.zero 12) []
    (List.replicate 16 0)).1 = [0x03, 0x88, 0xda, 0xce, 0x60, 0xb6, 0xa3, 0x92, 0xf3, 0x28, 0xc2,
      0xb9, 0x71, 0xb2, 0xfe, 0x78] := by decide +kernel

/-- The primitives of `P` with the code's own AES-128-GCM. -/
def withAesGcm (P : Crypto) : Crypto :=
  { P with
    aes128GcmEncrypt := aes128GcmEncrypt
    aes128GcmDecrypt := aes128GcmDecrypt
    encrypt_length := fun key nonce _ plaintext =>
      ctrCrypt_length key (counterBlock nonce) plaintext
    decrypt_encrypt := aes128GcmDecrypt_encrypt
    encrypt_decrypt := aes128GcmEncrypt_decrypt }

end XboxTls.Analysis
