import XboxTls.Model.Bytes

/-!
# SHA-256 (`sha256.cpp`) and the transcript hash over it

An object between two calls has room in its buffer.  `Sha256::final` leaves a full buffer, and
nothing uses an object after it, so it is the digest alone here.
-/

set_option autoImplicit false

namespace XboxTls.Model

/-! ## The functions on words -/

/-- The static `rotr`, for `0 < n < 32`.
SOURCE: src/crypto/sha256.cpp:6-8 -/
def rotr (x n : UInt32) : UInt32 := (x >>> n) ||| (x <<< (32 - n))

/-- SOURCE: src/crypto/sha256.cpp:9-11 -/
def ch (x y z : UInt32) : UInt32 := (x &&& y) ^^^ (~~~x &&& z)

/-- SOURCE: src/crypto/sha256.cpp:12-14 -/
def maj (x y z : UInt32) : UInt32 := (x &&& y) ^^^ (x &&& z) ^^^ (y &&& z)

/-- SOURCE: src/crypto/sha256.cpp:15-17 -/
def bsig0 (x : UInt32) : UInt32 := rotr x 2 ^^^ rotr x 13 ^^^ rotr x 22

/-- SOURCE: src/crypto/sha256.cpp:18-20 -/
def bsig1 (x : UInt32) : UInt32 := rotr x 6 ^^^ rotr x 11 ^^^ rotr x 25

/-- SOURCE: src/crypto/sha256.cpp:21-23 -/
def ssig0 (x : UInt32) : UInt32 := rotr x 7 ^^^ rotr x 18 ^^^ (x >>> 3)

/-- SOURCE: src/crypto/sha256.cpp:24-26 -/
def ssig1 (x : UInt32) : UInt32 := rotr x 17 ^^^ rotr x 19 ^^^ (x >>> 10)

/-- The table `K`.
SOURCE: src/crypto/sha256.cpp:28-38 -/
def sha256K : List UInt32 :=
  [0x428a2f98, 0x71374491, 0xb5c0fbcf, 0xe9b5dba5, 0x3956c25b, 0x59f111f1, 0x923f82a4,
    0xab1c5ed5, 0xd807aa98, 0x12835b01, 0x243185be, 0x550c7dc3, 0x72be5d74, 0x80deb1fe,
    0x9bdc06a7, 0xc19bf174, 0xe49b69c1, 0xefbe4786, 0x0fc19dc6, 0x240ca1cc, 0x2de92c6f,
    0x4a7484aa, 0x5cb0a9dc, 0x76f988da, 0x983e5152, 0xa831c66d, 0xb00327c8, 0xbf597fc7,
    0xc6e00bf3, 0xd5a79147, 0x06ca6351, 0x14292967, 0x27b70a85, 0x2e1b2138, 0x4d2c6dfc,
    0x53380d13, 0x650a7354, 0x766a0abb, 0x81c2c92e, 0x92722c85, 0xa2bfe8a1, 0xa81a664b,
    0xc24b8b70, 0xc76c51a3, 0xd192e819, 0xd6990624, 0xf40e3585, 0x106aa070, 0x19a4c116,
    0x1e376c08, 0x2748774c, 0x34b0bcb5, 0x391c0cb3, 0x4ed8aa4a, 0x5b9cca4f, 0x682e6ff3,
    0x748f82ee, 0x78a5636f, 0x84c87814, 0x8cc70208, 0x90befffa, 0xa4506ceb, 0xbef9a3f7,
    0xc67178f2]

/-! ## The object -/

/-- Eight words: `state_[0]`, …, `state_[7]`, and the locals `a`, …, `h` of `transform`. -/
structure Sha256Words where
  a : UInt32
  b : UInt32
  c : UInt32
  d : UInt32
  e : UInt32
  f : UInt32
  g : UInt32
  h : UInt32
  deriving DecidableEq, Repr

/-- `class Sha256`.
SOURCE: include/xboxtls/sha256.h -/
structure Sha256 where
  state : Sha256Words
  totalBytes : UInt64
  buffer : FixedBytes 64
  buffered : ℕ
  hasRoom : buffered < 64

/-- `Sha256::reset`, also the constructor.
SOURCE: src/crypto/sha256.cpp:40-56 -/
def Sha256.reset : Sha256 where
  state := ⟨0x6a09e667, 0xbb67ae85, 0x3c6ef372, 0xa54ff53a, 0x510e527f, 0x9b05688c, 0x1f83d9ab,
    0x5be0cd19⟩
  totalBytes := 0
  buffer := FixedBytes.zero 64
  buffered := 0
  hasRoom := by omega

/-! ## The compression of a block -/

/-- `w[i]` of the first 16.
SOURCE: src/crypto/sha256.cpp:60-62 -/
def loadWord (block : FixedBytes 64) (i : ℕ) : UInt32 :=
  ((byteAt block.val (i * 4)).toUInt32 <<< 24) |||
    ((byteAt block.val (i * 4 + 1)).toUInt32 <<< 16) |||
    ((byteAt block.val (i * 4 + 2)).toUInt32 <<< 8) ||| (byteAt block.val (i * 4 + 3)).toUInt32

/-- `w[i]` of the others, after the words before it.
SOURCE: src/crypto/sha256.cpp:63-64 -/
def nextWord (w : List UInt32) (i : ℕ) : UInt32 :=
  ssig1 (w.getD (i - 2) 0) + w.getD (i - 7) 0 + ssig0 (w.getD (i - 15) 0) + w.getD (i - 16) 0

/-- The table `w` of a block.
SOURCE: src/crypto/sha256.cpp:59-64 -/
def wordsOf (block : FixedBytes 64) : List UInt32 :=
  (List.range' 16 48).foldl (fun w i => w ++ [nextWord w i]) ((List.range 16).map (loadWord block))

/-- One pass of the loop over the 64 words.
SOURCE: src/crypto/sha256.cpp:67-78 -/
def sha256Round (r : Sha256Words) (k w : UInt32) : Sha256Words :=
  let t1 := r.h + bsig1 r.e + ch r.e r.f r.g + k + w
  let t2 := bsig0 r.a + maj r.a r.b r.c
  { a := t1 + t2, b := r.a, c := r.b, d := r.c, e := r.d + t1, f := r.e, g := r.f, h := r.g }

/-- `state_[0] += a; …; state_[7] += h`.
SOURCE: src/crypto/sha256.cpp:79-86 -/
def Sha256Words.add (s r : Sha256Words) : Sha256Words :=
  ⟨s.a + r.a, s.b + r.b, s.c + r.c, s.d + r.d, s.e + r.e, s.f + r.f, s.g + r.g, s.h + r.h⟩

/-- `Sha256::transform`, on the words of the state.
SOURCE: src/crypto/sha256.cpp:58-87 -/
def sha256Transform (state : Sha256Words) (block : FixedBytes 64) : Sha256Words :=
  let w := wordsOf block
  let r := (List.range 64).foldl
    (fun r i => sha256Round r (sha256K.getD i 0) (w.getD i 0)) state
  state.add r

/-! ## Feeding and finishing -/

/-- Stores bytes one after another from index `i` on: `memcpy(a + i, p, n)`, or a run of
`a[i++] = v`. -/
def FixedBytes.storeAll {n : ℕ} (a : FixedBytes n) (i : ℕ) : Bytes → FixedBytes n
  | [] => a
  | v :: p => FixedBytes.storeAll (a.set i v) (i + 1) p

/-- The loop of `Sha256::update`.
SOURCE: src/crypto/sha256.cpp:92-104 -/
def Sha256.feed (s : Sha256) (p : Bytes) : Sha256 :=
  if hp : p.length = 0 then s
  else
    let take := min (64 - s.buffered) p.length
    let buffer := s.buffer.storeAll s.buffered (p.take take)
    if hfull : s.buffered + take = 64 then
      Sha256.feed { s with
        state := sha256Transform s.state buffer
        buffer := buffer
        buffered := 0
        hasRoom := by omega } (p.drop take)
    else
      Sha256.feed { s with
        buffer := buffer
        buffered := s.buffered + take
        hasRoom := by
          have hroom := s.hasRoom
          omega } (p.drop take)
termination_by p.length
decreasing_by
  all_goals
    have hroom := s.hasRoom
    simp only [List.length_drop]
    omega

/-- `Sha256::update`: the counter is that of the bytes, modulo `2^64`.
SOURCE: src/crypto/sha256.cpp:89-105 -/
def Sha256.update (s : Sha256) (data : Bytes) : Sha256 :=
  Sha256.feed { s with totalBytes := s.totalBytes + UInt64.ofNat data.length } data

/-- `(xt_u8)(bits >> (i * 8))` for `i` from 7 down.
SOURCE: src/crypto/sha256.cpp:118-119 -/
def lengthBytes (bits : UInt64) : Bytes :=
  (List.range 8).map fun j => (bits >>> (UInt64.ofNat (7 - j) * 8)).toUInt8

/-- The four bytes of a word of the digest.
SOURCE: src/crypto/sha256.cpp:122-125 -/
def storeWord (x : UInt32) : Bytes :=
  [(x >>> 24).toUInt8, (x >>> 16).toUInt8, (x >>> 8).toUInt8, x.toUInt8]

/-- The words of a state one after another. -/
def Sha256Words.toBytes (s : Sha256Words) : FixedBytes 32 :=
  ⟨storeWord s.a ++ storeWord s.b ++ storeWord s.c ++ storeWord s.d ++ storeWord s.e ++
    storeWord s.f ++ storeWord s.g ++ storeWord s.h, rfl⟩

/-- `Sha256::final`.
SOURCE: src/crypto/sha256.cpp:107-127 -/
def Sha256.final (s : Sha256) : FixedBytes 32 :=
  let bits := s.totalBytes * 8
  let buffer := s.buffer.set s.buffered 0x80
  let buffered := s.buffered + 1
  let (state, buffer, buffered) :=
    if buffered > 56 then
      let buffer := buffer.storeAll buffered (List.replicate (64 - buffered) 0)
      (sha256Transform s.state buffer, buffer, 0)
    else (s.state, buffer, buffered)
  let buffer := buffer.storeAll buffered (List.replicate (56 - buffered) 0)
  let buffer := buffer.storeAll 56 (lengthBytes bits)
  (sha256Transform state buffer).toBytes

/-- `sha256`.
SOURCE: src/crypto/sha256.cpp:129-133 -/
def nativeSha256 (b : Bytes) : FixedBytes 32 := (Sha256.reset.update b).final

/-! ## The transcript hash -/

/-- `TranscriptHash`, a wrapper around one `Sha256` object. -/
structure NativeTranscript where
  sha : Sha256

/-- `TranscriptHash::reset`, also the constructor.
SOURCE: src/tls/transcript.cpp:3-6 -/
def NativeTranscript.reset : NativeTranscript := ⟨Sha256.reset⟩

/-- `TranscriptHash::update`.
SOURCE: src/tls/transcript.cpp:7-10 -/
def NativeTranscript.update (t : NativeTranscript) (b : Bytes) : NativeTranscript :=
  if b.length ≠ 0 then ⟨t.sha.update b⟩ else t

/-- `TranscriptHash::snapshot`, which finishes a copy: the digest and the object after the call.
SOURCE: src/tls/transcript.cpp:11-14 -/
def NativeTranscript.snapshot (t : NativeTranscript) : FixedBytes 32 × NativeTranscript :=
  let copy := t.sha
  (copy.final, t)

end XboxTls.Model
