import XboxTls.Model.RsaVerify

/-!
# RSA signatures of the standard

The key in DER, and the verification of RSASSA-PSS and RSASSA-PKCS1-v1_5 for SHA-256, over
numbers and for every hash of 32 bytes: MGF1 with the same hash, and a salt of 32 bytes.  The
hash takes every message, so that no message is too long for it.
-/

set_option autoImplicit false

namespace XboxTls.Interface

open Programs XboxTls.Model

/-! ## DER -/

/-- The length octets of a definite form, as short as they can be. -/
def derLength (n : ℕ) : Bytes :=
  if n < 128 then [UInt8.ofNat n]
  else
    let s := toOctets ((n.size + 7) / 8) n
    UInt8.ofNat (128 + s.length) :: s

/-- A tag, the length and the content. -/
def derEncode (tag : UInt8) (content : Bytes) : Bytes := tag :: derLength content.length ++ content

/-- The shortest octets of an INTEGER that is not negative: the first bit is the sign. -/
def derNatural (x : ℕ) : Bytes := toOctets (x.size / 8 + 1) x

/-! ## Keys -/

/-- A public key with a modulus of at most 4096 bits and an exponent of at most 32. -/
structure RsaPublicKey where
  n : ℕ
  e : ℕ
  one_lt_n : 1 < n
  n_size : n.size ≤ 4096
  e_odd : e % 2 = 1
  e_ge : 3 ≤ e
  e_lt : e < 2 ^ 32

namespace RsaPublicKey

variable (key : RsaPublicKey)

/-- The RSAPublicKey in DER. -/
def der : Bytes :=
  derEncode 0x30 (derEncode 0x02 (derNatural key.n) ++ derEncode 0x02 (derNatural key.e))

/-- The bits of the modulus. -/
def modBits : ℕ := key.n.size

/-- The octets of the modulus. -/
def k : ℕ := (key.modBits + 7) / 8

/-- RSAVP1. -/
def rsavp1 (s : ℕ) : Option ℕ := if s < key.n then some (s ^ key.e % key.n) else none

end RsaPublicKey

/-- I2OSP. -/
def i2osp (x len : ℕ) : Option Bytes := if x < 256 ^ len then some (toOctets len x) else none

/-! ## RSASSA-PSS -/

section Pss

variable (hash : Bytes → FixedBytes 32)

/-- MGF1: the digests of the seed with a counter, cut to the length. -/
def standardMgf1 (seed : Bytes) (len : ℕ) : Bytes :=
  ((List.range ((len + 31) / 32)).flatMap fun c => (hash (seed ++ toOctets 4 c)).val).take len

/-- The number of the leftmost `bits` bits of an octet. -/
def leftBits (b : UInt8) (bits : ℕ) : ℕ := b.toNat / 2 ^ (8 - bits)

/-- The first octet without its leftmost `bits` bits. -/
def clearLeft (bits : ℕ) : Bytes → Bytes
  | [] => []
  | b :: rest => UInt8.ofNat (b.toNat % 2 ^ (8 - bits)) :: rest

/-- The octets of an encoded message of `emBits` bits. -/
def emLen (emBits : ℕ) : ℕ := (emBits + 7) / 8

/-- The left part of an encoded message. -/
def maskedDb (em : Bytes) (emBits : ℕ) : Bytes := em.take (emLen emBits - 33)

/-- The digest in an encoded message. -/
def pssDigest (em : Bytes) (emBits : ℕ) : Bytes := slice em (emLen emBits - 33) 32

/-- The left part without its mask. -/
def unmaskedDb (em : Bytes) (emBits : ℕ) : Bytes :=
  clearLeft (8 * emLen emBits - emBits) (List.zipWith (· ^^^ ·) (maskedDb em emBits)
    (standardMgf1 hash (pssDigest em emBits) (emLen emBits - 33)))

/-- EMSA-PSS-VERIFY finds the encoded message consistent. -/
structure PssConsistent (message em : Bytes) (emBits : ℕ) : Prop where
  long : 32 + 32 + 2 ≤ emLen emBits
  trailer : em.getLast? = some 0xbc
  leftmost : ∀ b, (maskedDb em emBits).head? = some b →
    leftBits b (8 * emLen emBits - emBits) = 0
  zeros : (unmaskedDb hash em emBits).take (emLen emBits - 66) =
    List.replicate (emLen emBits - 66) 0
  one : (unmaskedDb hash em emBits)[emLen emBits - 66]? = some 1
  digest : (hash (List.replicate 8 0 ++ (hash message).val ++
    (unmaskedDb hash em emBits).drop (emLen emBits - 65))).val = pssDigest em emBits

/-- RSASSA-PSS-VERIFY finds the signature valid. -/
def RsassaPssVerify (key : RsaPublicKey) (message signature : Bytes) : Prop :=
  signature.length = key.k ∧ ∃ m em, key.rsavp1 (ofOctets signature) = some m ∧
    i2osp m (emLen (key.modBits - 1)) = some em ∧ PssConsistent hash message em (key.modBits - 1)

end Pss

/-! ## RSASSA-PKCS1-v1_5 -/

section Pkcs1

variable (hash : Bytes → FixedBytes 32)

/-- The DigestInfo of a message: a SEQUENCE of the identifier of SHA-256 with NULL, and the
digest. -/
def digestInfo (message : Bytes) : Bytes :=
  derEncode 0x30
    (derEncode 0x30 (derEncode 0x06 [0x60, 0x86, 0x48, 0x01, 0x65, 0x03, 0x04, 0x02, 0x01] ++
      derEncode 0x05 []) ++ derEncode 0x04 (hash message).val)

/-- EMSA-PKCS1-v1_5-ENCODE on `len` octets; the padding has eight octets at least. -/
def emsaPkcs1 (message : Bytes) (len : ℕ) : Option Bytes :=
  let t := digestInfo hash message
  if len < t.length + 11 then none
  else some ([0x00, 0x01] ++ List.replicate (len - t.length - 3) 0xff ++ [0x00] ++ t)

/-- The signature is as long as the modulus, its number is below the modulus, and its power is
the encoding of the message. -/
def RsassaPkcs1Verify (key : RsaPublicKey) (message signature : Bytes) : Prop :=
  signature.length = key.k ∧ ∃ m em, key.rsavp1 (ofOctets signature) = some m ∧
    i2osp m key.k = some em ∧ emsaPkcs1 hash message key.k = some em

end Pkcs1

end XboxTls.Interface
