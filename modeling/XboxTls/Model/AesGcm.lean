import XboxTls.Model.Record

/-!
# AES-128-GCM

`aes_gcm.cpp` from the block cipher to the two functions that the record layer calls.
Loops over a span run on its bytes with the length as fuel; both callers pass output spans
as long as their input, so nothing is cut.
-/

set_option autoImplicit false

namespace XboxTls.Model

/-! ## Blocks -/

/-- `xt_u8 a[16]`. -/
abbrev Block : Type := FixedBytes 16

/-- `xor16(a, b)`.
SOURCE: src/crypto/aes_gcm.cpp:107-110 -/
def xor16 (a b : Block) : Block :=
  ⟨List.zipWith (· ^^^ ·) a.val b.val, by simp [a.property, b.property]⟩

/-! ## The block cipher -/

/-- `sbox`.
SOURCE: src/crypto/aes_gcm.cpp:6-22 -/
def sbox : Bytes :=
   [0x63, 0x7c, 0x77, 0x7b, 0xf2, 0x6b, 0x6f, 0xc5, 0x30, 0x01, 0x67, 0x2b, 0xfe, 0xd7, 0xab, 0x76,
    0xca, 0x82, 0xc9, 0x7d, 0xfa, 0x59, 0x47, 0xf0, 0xad, 0xd4, 0xa2, 0xaf, 0x9c, 0xa4, 0x72, 0xc0,
    0xb7, 0xfd, 0x93, 0x26, 0x36, 0x3f, 0xf7, 0xcc, 0x34, 0xa5, 0xe5, 0xf1, 0x71, 0xd8, 0x31, 0x15,
    0x04, 0xc7, 0x23, 0xc3, 0x18, 0x96, 0x05, 0x9a, 0x07, 0x12, 0x80, 0xe2, 0xeb, 0x27, 0xb2, 0x75,
    0x09, 0x83, 0x2c, 0x1a, 0x1b, 0x6e, 0x5a, 0xa0, 0x52, 0x3b, 0xd6, 0xb3, 0x29, 0xe3, 0x2f, 0x84,
    0x53, 0xd1, 0x00, 0xed, 0x20, 0xfc, 0xb1, 0x5b, 0x6a, 0xcb, 0xbe, 0x39, 0x4a, 0x4c, 0x58, 0xcf,
    0xd0, 0xef, 0xaa, 0xfb, 0x43, 0x4d, 0x33, 0x85, 0x45, 0xf9, 0x02, 0x7f, 0x50, 0x3c, 0x9f, 0xa8,
    0x51, 0xa3, 0x40, 0x8f, 0x92, 0x9d, 0x38, 0xf5, 0xbc, 0xb6, 0xda, 0x21, 0x10, 0xff, 0xf3, 0xd2,
    0xcd, 0x0c, 0x13, 0xec, 0x5f, 0x97, 0x44, 0x17, 0xc4, 0xa7, 0x7e, 0x3d, 0x64, 0x5d, 0x19, 0x73,
    0x60, 0x81, 0x4f, 0xdc, 0x22, 0x2a, 0x90, 0x88, 0x46, 0xee, 0xb8, 0x14, 0xde, 0x5e, 0x0b, 0xdb,
    0xe0, 0x32, 0x3a, 0x0a, 0x49, 0x06, 0x24, 0x5c, 0xc2, 0xd3, 0xac, 0x62, 0x91, 0x95, 0xe4, 0x79,
    0xe7, 0xc8, 0x37, 0x6d, 0x8d, 0xd5, 0x4e, 0xa9, 0x6c, 0x56, 0xf4, 0xea, 0x65, 0x7a, 0xae, 0x08,
    0xba, 0x78, 0x25, 0x2e, 0x1c, 0xa6, 0xb4, 0xc6, 0xe8, 0xdd, 0x74, 0x1f, 0x4b, 0xbd, 0x8b, 0x8a,
    0x70, 0x3e, 0xb5, 0x66, 0x48, 0x03, 0xf6, 0x0e, 0x61, 0x35, 0x57, 0xb9, 0x86, 0xc1, 0x1d, 0x9e,
    0xe1, 0xf8, 0x98, 0x11, 0x69, 0xd9, 0x8e, 0x94, 0x9b, 0x1e, 0x87, 0xe9, 0xce, 0x55, 0x28, 0xdf,
    0x8c, 0xa1, 0x89, 0x0d, 0xbf, 0xe6, 0x42, 0x68, 0x41, 0x99, 0x2d, 0x0f, 0xb0, 0x54, 0xbb, 0x16]

/-- `xtime`.
SOURCE: src/crypto/aes_gcm.cpp:24-26 -/
def xtime (x : UInt8) : UInt8 := (x <<< 1) ^^^ (if x &&& 0x80 ≠ 0 then 0x1b else 0)

/-- `add_round_key(s, rk + i)`.
SOURCE: src/crypto/aes_gcm.cpp:27-30 -/
def addRoundKey (s : Block) (rk : Bytes) (i : ℕ) : Block :=
  xor16 s (FixedBytes.ofBytes 16 (slice rk i 16))

/-- `sub_bytes`.
SOURCE: src/crypto/aes_gcm.cpp:31-34 -/
def subBytes (s : Block) : Block :=
  ⟨s.val.map fun x => byteAt sbox x.toNat, by simp [s.property]⟩

/-- `shift_rows`.
SOURCE: src/crypto/aes_gcm.cpp:35-54 -/
def shiftRows (s : Block) : Block :=
  ⟨[0, 5, 10, 15, 4, 9, 14, 3, 8, 13, 2, 7, 12, 1, 6, 11].map (byteAt s.val), rfl⟩

/-- One round of `mix_columns`. -/
def mixColumn (s : Bytes) (i : ℕ) : Bytes :=
  let a := byteAt s i
  let b := byteAt s (i + 1)
  let d := byteAt s (i + 2)
  let e := byteAt s (i + 3)
  let x := a ^^^ b ^^^ d ^^^ e
  [a ^^^ (x ^^^ xtime (a ^^^ b)), b ^^^ (x ^^^ xtime (b ^^^ d)),
    d ^^^ (x ^^^ xtime (d ^^^ e)), e ^^^ (x ^^^ xtime (e ^^^ a))]

/-- `mix_columns`.
SOURCE: src/crypto/aes_gcm.cpp:55-65 -/
def mixColumns (s : Block) : Block :=
  ⟨mixColumn s.val 0 ++ mixColumn s.val 4 ++ mixColumn s.val 8 ++ mixColumn s.val 12, rfl⟩

/-- The loop of `key_expand`: four more bytes a round. -/
def keyExpandLoop : ℕ → UInt8 → Bytes → Bytes
  | 0, _, rk => rk
  | n + 1, rcon, rk =>
    let t := slice rk (rk.length - 4) 4
    let back := slice rk (rk.length - 16) 4
    if rk.length % 16 = 0 then
      let t := [byteAt sbox (byteAt t 1).toNat ^^^ rcon, byteAt sbox (byteAt t 2).toNat,
        byteAt sbox (byteAt t 3).toNat, byteAt sbox (byteAt t 0).toNat]
      keyExpandLoop n (xtime rcon) (rk ++ List.zipWith (· ^^^ ·) back t)
    else keyExpandLoop n rcon (rk ++ List.zipWith (· ^^^ ·) back t)

/-- `key_expand`: 16 bytes grow to 176.
SOURCE: src/crypto/aes_gcm.cpp:66-88 -/
def keyExpand (key : Block) : Bytes := keyExpandLoop 40 1 key.val

/-- The nine rounds of `aes_block` that mix columns. -/
def aesRounds (rk : Bytes) : ℕ → Block → Block
  | 0, s => s
  | n + 1, s => addRoundKey (mixColumns (shiftRows (subBytes (aesRounds rk n s)))) rk (16 * (n + 1))

/-- `aes_block`.
SOURCE: src/crypto/aes_gcm.cpp:89-106 -/
def aesBlock (key input : Block) : Block :=
  let rk := keyExpand key
  addRoundKey (shiftRows (subBytes (aesRounds rk 9 (addRoundKey input rk 0)))) rk 160

/-! ## The hash -/

/-- `shr1`: what falls out of a byte enters the next one at the top.
SOURCE: src/crypto/aes_gcm.cpp:111-118 -/
def shr1 (v : Block) : Block :=
  ⟨List.zipWith (fun (x carry : UInt8) => (x >>> 1) ||| (carry <<< 7)) v.val
    (0 :: v.val.map (· &&& 1)), by simp [v.property]⟩

/-- The loop of `gfmul`, from bit `i` on. -/
def gfmulLoop (x : Block) : ℕ → ℕ → Block → Block → Block
  | 0, _, z, _ => z
  | n + 1, i, z, v =>
    let z := if (byteAt x.val (i / 8)).toNat.testBit (7 - i % 8) then xor16 z v else z
    let lsb := byteAt v.val 15 &&& 1
    let v := shr1 v
    let v := if lsb ≠ 0 then v.set 0 (byteAt v.val 0 ^^^ 0xe1) else v
    gfmulLoop x n (i + 1) z v

/-- `gfmul`.
SOURCE: src/crypto/aes_gcm.cpp:119-133 -/
def gfmul (x y : Block) : Block := gfmulLoop x 128 0 (FixedBytes.zero 16) y

/-- `ghash_block`.
SOURCE: src/crypto/aes_gcm.cpp:134-140 -/
def ghashBlock (y h b : Block) : Block := gfmul (xor16 y b) h

/-- The loop of `ghash_data`. -/
def ghashLoop (h : Block) : ℕ → Block → Bytes → Block
  | 0, y, _ => y
  | n + 1, y, d =>
    if d = [] then y else ghashLoop h n (ghashBlock y h (FixedBytes.ofBytes 16 d)) (d.drop 16)

/-- `ghash_data`.
SOURCE: src/crypto/aes_gcm.cpp:141-150 -/
def ghashData (y h : Block) (d : Bytes) : Block := ghashLoop h d.length y d

/-! ## The keystream -/

/-- The loop of `inc32`: add one, and go on while the byte wraps. -/
def inc32Loop : List ℕ → Block → Block
  | [], c => c
  | i :: rest, c =>
    let c := c.set i (byteAt c.val i + 1)
    if byteAt c.val i ≠ 0 then c else inc32Loop rest c

/-- `inc32`.
SOURCE: src/crypto/aes_gcm.cpp:157-162 -/
def inc32 (c : Block) : Block := inc32Loop [15, 14, 13, 12] c

/-- The loop of `ctr_crypt`. -/
def ctrLoop (key : Block) : ℕ → Block → Bytes → Bytes
  | 0, _, _ => []
  | n + 1, c, input =>
    if input = [] then []
    else List.zipWith (· ^^^ ·) (input.take 16) (aesBlock key (inc32 c)).val ++
      ctrLoop key n (inc32 c) (input.drop 16)

/-- `ctr_crypt`.
SOURCE: src/crypto/aes_gcm.cpp:163-177 -/
def ctrCrypt (key j0 : Block) (input : Bytes) : Bytes := ctrLoop key input.length j0 input

/-! ## Sealing and opening -/

/-- `j0`: the nonce and the counter one. -/
def counterBlock (nonce : FixedBytes 12) : Block :=
  ⟨nonce.val ++ [0, 0, 0, 1], by simp [nonce.property]⟩

/-- `auth_tag`.
SOURCE: src/crypto/aes_gcm.cpp:178-195 -/
def authTag (key : Block) (nonce : FixedBytes 12) (aad ciphertext : Bytes) : Block :=
  let h := aesBlock key (FixedBytes.zero 16)
  let y := ghashData (ghashData (FixedBytes.zero 16) h aad) h ciphertext
  let lens : Block := ⟨be64 (aad.length * 8) ++ be64 (ciphertext.length * 8), rfl⟩
  xor16 (ghashBlock y h lens) (aesBlock key (counterBlock nonce))

/-- `tag_equal`.
SOURCE: src/crypto/aes_gcm.cpp:196-201 -/
def tagEqual (a b : Block) : Bool :=
  (List.zipWith (· ^^^ ·) a.val b.val).foldl (· ||| ·) 0 = 0

/-- `aes128_gcm_encrypt`.
SOURCE: src/crypto/aes_gcm.cpp:203-216 -/
def aes128GcmEncrypt (key : Block) (nonce : FixedBytes 12) (aad plaintext : Bytes) :
    Bytes × Block :=
  let ciphertext := ctrCrypt key (counterBlock nonce) plaintext
  (ciphertext, authTag key nonce aad ciphertext)

/-- `aes128_gcm_decrypt`.
SOURCE: src/crypto/aes_gcm.cpp:217-236 -/
def aes128GcmDecrypt (key : Block) (nonce : FixedBytes 12) (aad ciphertext : Bytes)
    (tag : Block) : Except Error Bytes :=
  if tagEqual (authTag key nonce aad ciphertext) tag then
    .ok (ctrCrypt key (counterBlock nonce) ciphertext)
  else .error .verify

end XboxTls.Model
