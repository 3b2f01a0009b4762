import XboxTls.Model.Bytes

/-!
# The primitives of `src/crypto`

What the protocol layers call: the streaming `Sha256` object, AES-128-GCM, the two
key agreements and the three signature checks.  A `Crypto` packs an implementation
of them together with the laws of the hash and of the cipher that the protocol
layers rest on, so that a value of the type cannot break one.  The layers above are
stated for every `Crypto`.
-/

set_option autoImplicit false

namespace XboxTls.Model

/-- `x25519.h` and `p256.h`. -/
structure KeyAgreement where
  x25519PublicFromPrivate : FixedBytes 32 → FixedBytes 32
  x25519SharedSecret : FixedBytes 32 → FixedBytes 32 → Except Error (FixedBytes 32)
  p256PublicFromPrivate : FixedBytes 32 → Except Error (FixedBytes 65)
  p256SharedSecret : FixedBytes 32 → FixedBytes 65 → Except Error (FixedBytes 32)

/-- The signature checks of `native_verifier.h`, each on a public key, a message and
a signature. -/
structure SignatureChecks where
  nativeRsaPssSha256Verify : Bytes → Bytes → Bytes → Except Error Unit
  nativeRsaPkcs1Sha256Verify : Bytes → Bytes → Bytes → Except Error Unit
  nativeP256EcdsaSha256Verify : Bytes → Bytes → Bytes → Except Error Unit

/-- An implementation of `src/crypto`. -/
structure Crypto extends KeyAgreement, SignatureChecks where
  /-- The state of a `Sha256` object. -/
  Sha256 : Type
  /-- `Sha256::reset`. -/
  shaReset : Sha256
  /-- `Sha256::update`. -/
  shaUpdate : Sha256 → Bytes → Sha256
  /-- `Sha256::final`. -/
  shaFinal : Sha256 → FixedBytes 32
  /-- `aes128_gcm_encrypt`: the ciphertext and the tag. -/
  aes128GcmEncrypt : FixedBytes 16 → FixedBytes 12 → Bytes → Bytes → Bytes × FixedBytes 16
  /-- `aes128_gcm_decrypt`. -/
  aes128GcmDecrypt : FixedBytes 16 → FixedBytes 12 → Bytes → Bytes → FixedBytes 16 →
    Except Error Bytes
  shaUpdate_nil : ∀ h, shaUpdate h [] = h
  shaUpdate_append : ∀ h a b, shaUpdate (shaUpdate h a) b = shaUpdate h (a ++ b)
  encrypt_length : ∀ key nonce aad plaintext,
    (aes128GcmEncrypt key nonce aad plaintext).1.length = plaintext.length
  decrypt_encrypt : ∀ key nonce aad plaintext,
    aes128GcmDecrypt key nonce aad (aes128GcmEncrypt key nonce aad plaintext).1
      (aes128GcmEncrypt key nonce aad plaintext).2 = .ok plaintext
  encrypt_decrypt : ∀ key nonce aad ciphertext tag plaintext,
    aes128GcmDecrypt key nonce aad ciphertext tag = .ok plaintext →
    aes128GcmEncrypt key nonce aad plaintext = (ciphertext, tag)

namespace Crypto

variable (P : Crypto)

/-- `sha256`: a fresh object, one update, one final. -/
def sha256 (b : Bytes) : FixedBytes 32 := P.shaFinal (P.shaUpdate P.shaReset b)

/-- The plaintext is as long as the ciphertext. -/
theorem decrypt_length {key : FixedBytes 16} {nonce : FixedBytes 12} {aad ciphertext : Bytes}
    {tag : FixedBytes 16} {plaintext : Bytes}
    (h : P.aes128GcmDecrypt key nonce aad ciphertext tag = .ok plaintext) :
    plaintext.length = ciphertext.length := by
  have henc := P.encrypt_decrypt key nonce aad ciphertext tag plaintext h
  have hlen := P.encrypt_length key nonce aad plaintext
  rw [henc] at hlen
  exact hlen.symm

end Crypto

end XboxTls.Model
