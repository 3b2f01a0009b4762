import XboxTls.Model.Crypto

/-!
# A cipher that hides nothing

A `Crypto` that can be evaluated by hand: the hash is a checksum, sealing appends a tag of
zeros and opening checks it.  It satisfies the laws that the protocol layers rest on, so a
statement about every `Crypto` is a statement about this one too.
-/

set_option autoImplicit false

namespace XboxTls.Interface

open XboxTls.Model

/-- A checksum of a byte string. -/
def checksum (b : Bytes) : ℕ := b.foldl (fun acc x => (acc * 257 + x.toNat + 1) % 2 ^ 64) 0

/-- The digest: the checksum, least significant byte first. -/
def checksumBytes (b : Bytes) : FixedBytes 32 :=
  ⟨(List.range 32).map fun i => UInt8.ofNat (checksum b / 256 ^ i), by simp⟩

/-- The cipher leaves the plaintext as it is, and its tag is zero. -/
def plainEncrypt (plaintext : Bytes) : Bytes × FixedBytes 16 := (plaintext, .zero 16)

/-- What opens it. -/
def plainDecrypt (ciphertext : Bytes) (tag : FixedBytes 16) : Except Error Bytes :=
  if tag = .zero 16 then .ok ciphertext else .error .crypto

/-- The ciphertext is as long as the plaintext. -/
theorem plainEncrypt_length (plaintext : Bytes) :
    (plainEncrypt plaintext).1.length = plaintext.length := rfl

/-- What was encrypted is decrypted. -/
theorem plainDecrypt_plainEncrypt (plaintext : Bytes) :
    plainDecrypt (plainEncrypt plaintext).1 (plainEncrypt plaintext).2 = .ok plaintext := by
  unfold plainDecrypt
  rw [show (plainEncrypt plaintext).2 = .zero 16 from rfl, if_pos rfl]
  rfl

/-- What is decrypted was encrypted. -/
theorem plainEncrypt_plainDecrypt (ciphertext : Bytes) (tag : FixedBytes 16) (plaintext : Bytes)
    (h : plainDecrypt ciphertext tag = .ok plaintext) :
    plainEncrypt plaintext = (ciphertext, tag) := by
  unfold plainDecrypt at h
  split at h
  · next htag =>
    cases h
    rw [htag]
    rfl
  · cases h

/-- The cipher that hides nothing. -/
def plainCrypto : Crypto where
  x25519PublicFromPrivate k := k
  x25519SharedSecret k _ := .ok k
  p256PublicFromPrivate _ := .error .crypto
  p256SharedSecret _ _ := .error .crypto
  nativeRsaPssSha256Verify _ _ _ := .error .verify
  nativeRsaPkcs1Sha256Verify _ _ _ := .error .verify
  nativeP256EcdsaSha256Verify _ _ _ := .error .verify
  Sha256 := Bytes
  shaReset := []
  shaUpdate h b := h ++ b
  shaFinal := checksumBytes
  aes128GcmEncrypt _ _ _ := plainEncrypt
  aes128GcmDecrypt _ _ _ := plainDecrypt
  shaUpdate_nil h := List.append_nil h
  shaUpdate_append h a b := List.append_assoc h a b
  encrypt_length _ _ _ := plainEncrypt_length
  decrypt_encrypt _ _ _ := plainDecrypt_plainEncrypt
  encrypt_decrypt _ _ _ := plainEncrypt_plainDecrypt

end XboxTls.Interface
