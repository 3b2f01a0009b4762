import XboxTls.Model.Bytes
import XboxTls.Model.RsaVerify
import XboxTls.Programs.WordArrays

/-!
# The multi-word numbers in their arrays

`N256` of `p256_verify.cpp` and `Nat` of `rsa_verify.cpp` with their fixed arrays of words, and
the routines on them down to each access.  The two files differ in the size of the array, and in
how they take powers.
-/

set_option autoImplicit false

namespace XboxTls.Model

open Programs

/-- `N256`: `xt_u32 w[9]` and `size_t n`.
SOURCE: src/crypto/p256_verify.cpp:8-14 -/
abbrev N256 : Type := WordArray 9

namespace N256

/-- `trim`.
SOURCE: src/crypto/p256_verify.cpp:15-18 -/
abbrev trim (a : N256) : Infallible N256 := WordArray.trim a

/-- `cmp`.
SOURCE: src/crypto/p256_verify.cpp:19-27 -/
abbrev cmp (a b : N256) : Infallible Int := WordArray.cmp a b

/-- `be`.
SOURCE: src/crypto/p256_verify.cpp:28-40 -/
abbrev be (s : Bytes) : Infallible N256 := WordArray.fromOctets 9 8 s

/-- `subraw`.
SOURCE: src/crypto/p256_verify.cpp:41-54 -/
abbrev subraw (a b : N256) : Infallible N256 := WordArray.sub a b

/-- `addm`.
SOURCE: src/crypto/p256_verify.cpp:55-69 -/
abbrev addm (a b m : N256) : Infallible N256 := WordArray.addMod a b m

/-- `subm`.
SOURCE: src/crypto/p256_verify.cpp:70-81 -/
abbrev subm (a b m : N256) : Infallible N256 := WordArray.subMod a b m

/-- `nbits`.
SOURCE: src/crypto/p256_verify.cpp:82-90 -/
abbrev nbits (a : N256) : Infallible ℕ := WordArray.bits a

/-- `bit`.
SOURCE: src/crypto/p256_verify.cpp:91-94 -/
abbrev bit (a : N256) (i : ℕ) : Infallible Bool := WordArray.bit a i

/-- `mulm`.
SOURCE: src/crypto/p256_verify.cpp:95-104 -/
abbrev mulm (a b m : N256) : Infallible N256 := WordArray.mulMod a b m

/-- `powm`.
SOURCE: src/crypto/p256_verify.cpp:105-117 -/
abbrev powm (a e m : N256) : Infallible N256 := WordArray.powBits a e m

/-- `small`.
SOURCE: src/crypto/p256_verify.cpp:124-131 -/
abbrev small (v : UInt32) : Infallible N256 := WordArray.ofWord 9 v

end N256

/-- `Nat`: `xt_u32 w[MAX_WORDS + 1]` and `size_t n`.
SOURCE: src/crypto/rsa_verify.cpp:7-14 -/
abbrev RsaNat : Type := WordArray (RsaVerify.maxWords + 1)

namespace RsaNat

/-- `trim`.
SOURCE: src/crypto/rsa_verify.cpp:48-51 -/
abbrev trim (a : RsaNat) : Infallible RsaNat := WordArray.trim a

/-- `cmp`.
SOURCE: src/crypto/rsa_verify.cpp:52-60 -/
abbrev cmp (a b : RsaNat) : Infallible Int := WordArray.cmp a b

/-- `from_be`.
SOURCE: src/crypto/rsa_verify.cpp:61-73 -/
abbrev fromBe (s : Bytes) : Infallible RsaNat :=
  WordArray.fromOctets (RsaVerify.maxWords + 1) RsaVerify.maxWords s

/-- `sub_inplace`.
SOURCE: src/crypto/rsa_verify.cpp:74-88 -/
abbrev subInplace (a b : RsaNat) : Infallible RsaNat := WordArray.sub a b

/-- `add_mod`.
SOURCE: src/crypto/rsa_verify.cpp:89-105 -/
abbrev addMod (a b m : RsaNat) : Infallible RsaNat := WordArray.addMod a b m

/-- `bit`.
SOURCE: src/crypto/rsa_verify.cpp:106-109 -/
abbrev bit (a : RsaNat) (i : ℕ) : Infallible Bool := WordArray.bit a i

/-- `bits`.
SOURCE: src/crypto/rsa_verify.cpp:110-118 -/
abbrev bits (a : RsaNat) : Infallible ℕ := WordArray.bits a

/-- `mul_mod`.
SOURCE: src/crypto/rsa_verify.cpp:119-129 -/
abbrev mulMod (a b m : RsaNat) : Infallible RsaNat := WordArray.mulMod a b m

/-- `pow_u32_mod`: an exponent of 32 bits takes 32 rounds at most.
SOURCE: src/crypto/rsa_verify.cpp:130-143 -/
abbrev powU32Mod (a : RsaNat) (e : UInt32) (m : RsaNat) : Infallible RsaNat :=
  WordArray.powWord a e m

end RsaNat

end XboxTls.Model
