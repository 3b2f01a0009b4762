import XboxTls.Model.Crypto
import XboxTls.Model.DerReaders
import XboxTls.Programs.Limbs

/-!
# RSA signatures

`rsa_verify.cpp` from the multi-word numbers to the two checks.  A `Nat` of the code is an array
`w` and the number `n` of its words in use; only words below `n` are read, so that here it is
the list of these words.  `MAX_WORDS + 1` words are enough for every sum that is formed.
-/

set_option autoImplicit false

namespace XboxTls.Model.RsaVerify

open Programs

/-! ## Multi-word numbers -/

/-- `MAX_WORDS`. -/
def maxWords : ℕ := 128

/-- `from_be`.
SOURCE: src/crypto/rsa_verify.cpp:61-73 -/
abbrev fromBe (s : Bytes) : Limbs := Limbs.fromOctets maxWords s

/-- `cmp`.
SOURCE: src/crypto/rsa_verify.cpp:52-60 -/
abbrev cmp (a b : Limbs) : Int := Limbs.cmp a b

/-- `sub_inplace`.
SOURCE: src/crypto/rsa_verify.cpp:74-88 -/
abbrev subInplace (a b : Limbs) : Limbs := Limbs.sub a b

/-- `add_mod`.
SOURCE: src/crypto/rsa_verify.cpp:89-105 -/
abbrev addMod (a b m : Limbs) : Limbs := Limbs.addMod a b m

/-- `bit`.
SOURCE: src/crypto/rsa_verify.cpp:106-109 -/
abbrev bit (a : Limbs) (i : ℕ) : Bool := Limbs.bit a i

/-- `bits`.
SOURCE: src/crypto/rsa_verify.cpp:110-118 -/
abbrev bits (a : Limbs) : ℕ := Limbs.bits a

/-- `mul_mod`.
SOURCE: src/crypto/rsa_verify.cpp:119-129 -/
abbrev mulMod (a b m : Limbs) : Limbs := Limbs.mulMod a b m

/-- `pow_u32_mod`: the exponent has 32 bits, so that 32 rounds are enough.
SOURCE: src/crypto/rsa_verify.cpp:130-143 -/
def powU32Mod (a : Limbs) (e : ℕ) (m : Limbs) : Limbs := Limbs.powLoop m 32 e [1] a

/-- `to_be_fixed`.
SOURCE: src/crypto/rsa_verify.cpp:144-153 -/
abbrev toBeFixed (a : Limbs) (n : ℕ) : Bytes := Limbs.toFixed a n

/-! ## The key -/

/-- `parse_rsa`: the bytes of the modulus and the exponent.
SOURCE: src/crypto/rsa_verify.cpp:155-185 -/
def parseRsa (der : Bytes) : Except Error (Bytes × ℕ) := do
  let seq ← rsaTlv der 0
  if seq.tag ≠ 0x30 ∨ seq.next ≠ der.length then throw .badHandshake
  let body := seq.value.bytes der
  let n ← rsaTlv body 0
  if n.tag ≠ 0x02 then throw .badHandshake
  let x ← rsaTlv body n.next
  if x.tag ≠ 0x02 ∨ x.next ≠ body.length then throw .badHandshake
  let nv := n.value.bytes body
  let nv := if nv.length > 1 ∧ byteAt nv 0 = 0 then nv.drop 1 else nv
  if nv.length = 0 ∨ nv.length > 512 then throw .unsupported
  let xv := x.value.bytes body
  if xv.length = 0 ∨ xv.length > 4 then throw .unsupported
  let ev : ℕ := xv.foldl (fun ev b => ev * 256 + b.toNat) 0
  if ev < 3 ∨ ev % 2 = 0 then throw .verify
  pure (nv, ev)

/-- `rsa_public`: the encoded message, as long as the modulus, and the bits of the modulus.
SOURCE: src/crypto/rsa_verify.cpp:187-203 -/
def rsaPublic (key sig : Bytes) : Except Error (Bytes × ℕ) := do
  let (mod, e) ← parseRsa key
  if sig.length ≠ mod.length then throw .verify
  let m := fromBe mod
  let s := fromBe sig
  if m.length = 0 ∨ cmp s m ≥ 0 then throw .verify
  let r := powU32Mod s e m
  pure (toBeFixed r mod.length, bits m)

/-! ## The checks -/

variable (P : Crypto)

/-- The loop of `mgf1`: `left` bytes are still missing.
SOURCE: src/crypto/rsa_verify.cpp:213-224 -/
def mgf1Loop (seed : Bytes) : ℕ → ℕ → ℕ → Bytes
  | 0, _, _ => []
  | fuel + 1, c, left =>
    if left = 0 then []
    else
      let ctr : Bytes := [UInt8.ofNat (c / 2 ^ 24), UInt8.ofNat (c / 2 ^ 16),
        UInt8.ofNat (c / 2 ^ 8), UInt8.ofNat c]
      let d := P.shaFinal (P.shaUpdate (P.shaUpdate P.shaReset seed) ctr)
      let take := min left 32
      d.val.take take ++ mgf1Loop seed fuel (c + 1) (left - take)

/-- `mgf1`.  Every round takes a byte at least.
SOURCE: src/crypto/rsa_verify.cpp:210-225 -/
def mgf1 (seed : Bytes) (n : ℕ) : Bytes := mgf1Loop P seed n 0 n

/-- The checks of `native_rsa_pss_sha256_verify` on the encoded message.
SOURCE: src/crypto/rsa_verify.cpp:233-271 -/
def checkPss (message em : Bytes) (modbits : ℕ) : Except Error Unit := do
  let emlen := em.length
  let hlen := 32
  let slen := 32
  let embits := modbits - 1
  let want := (embits + 7) / 8
  if emlen ≠ want ∨ emlen < hlen + slen + 2 ∨ byteAt em (emlen - 1) ≠ 0xbc then throw .verify
  let dblen := emlen - hlen - 1
  let h := slice em dblen hlen
  let mask := mgf1 P h dblen
  let db := List.zipWith (· ^^^ ·) (em.take dblen) mask
  let unused := 8 * emlen - embits
  let keep : UInt8 := 0xff >>> UInt8.ofNat unused
  if unused ≠ 0 ∧ byteAt em 0 &&& ~~~keep ≠ 0 then throw .verify
  let db := if unused ≠ 0 then db.set 0 (byteAt db 0 &&& keep) else db
  let ps := dblen - slen - 1
  if (db.take ps).any (· ≠ 0) then throw .verify
  if byteAt db ps ≠ 1 then throw .verify
  let mh := P.sha256 message
  let hh := P.shaUpdate P.shaReset (List.replicate 8 0)
  let hh := P.shaUpdate hh mh.val
  let hh := P.shaUpdate hh (slice db (ps + 1) slen)
  let hp := P.shaFinal hh
  let diff := (List.zipWith (· ^^^ ·) hp.val h).foldl (· ||| ·) 0
  if diff ≠ 0 then throw .verify

/-- `native_rsa_pss_sha256_verify`.
SOURCE: src/crypto/rsa_verify.cpp:227-272 -/
def nativeRsaPssSha256Verify (key message signature : Bytes) : Except Error Unit := do
  let (em, modbits) ← rsaPublic key signature
  checkPss P message em modbits

/-- `di_prefix`: the DER of a DigestInfo up to the digest. -/
def diPrefix : Bytes :=
  [0x30, 0x31, 0x30, 0x0d, 0x06, 0x09, 0x60, 0x86, 0x48, 0x01, 0x65, 0x03, 0x04, 0x02, 0x01, 0x05,
    0x00, 0x04, 0x20]

/-- `while (p < n && em[p] == 0xff) ++p`, with `fuel` bytes left. -/
def paddingEnd (em : Bytes) : ℕ → ℕ → ℕ
  | 0, p => p
  | fuel + 1, p => if p < em.length ∧ byteAt em p = 0xff then paddingEnd em fuel (p + 1) else p

/-- The checks of `native_rsa_pkcs1_sha256_verify` on the encoded message.
SOURCE: src/crypto/rsa_verify.cpp:281-296 -/
def checkPkcs1 (message em : Bytes) : Except Error Unit := do
  let n := em.length
  let d := P.sha256 message
  let tail := diPrefix.length + 32
  if n < 3 + 8 + tail ∨ byteAt em 0 ≠ 0 ∨ byteAt em 1 ≠ 1 then throw .verify
  let p := paddingEnd em n 2
  if p < 10 ∨ p ≥ n ∨ byteAt em p ≠ 0 then throw .verify
  let p := p + 1
  if n - p ≠ tail ∨ slice em p diPrefix.length ≠ diPrefix ∨
      slice em (p + diPrefix.length) 32 ≠ d.val then throw .verify

/-- `native_rsa_pkcs1_sha256_verify`.
SOURCE: src/crypto/rsa_verify.cpp:274-297 -/
def nativeRsaPkcs1Sha256Verify (key message signature : Bytes) : Except Error Unit := do
  let (em, _) ← rsaPublic key signature
  checkPkcs1 P message em

end XboxTls.Model.RsaVerify
