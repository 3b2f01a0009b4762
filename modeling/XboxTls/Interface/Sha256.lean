import Mathlib.Analysis.SpecialFunctions.Pow.NthRootLemmas
import Mathlib.Data.Nat.Prime.Defs
import XboxTls.Model.Sha256
import XboxTls.Programs.Octets

/-!
# SHA-256 of the standard

The functions, the constants, the padding and the compression of FIPS 180-4, over words of 32
bits.  The constants are what the standard says that they are: the first 32 bits of the fractional
parts of the cube roots and of the square roots of the first primes.
-/

set_option autoImplicit false

namespace XboxTls.Interface.Sha256

open Programs XboxTls.Model

/-! ## Functions and constants -/

/-- A word of 32 bits. -/
abbrev Word : Type := BitVec 32

def choice (x y z : Word) : Word := (x &&& y) ^^^ (~~~x &&& z)

def majority (x y z : Word) : Word := (x &&& y) ^^^ (x &&& z) ^^^ (y &&& z)

def bigSigma0 (x : Word) : Word := x.rotateRight 2 ^^^ x.rotateRight 13 ^^^ x.rotateRight 22

def bigSigma1 (x : Word) : Word := x.rotateRight 6 ^^^ x.rotateRight 11 ^^^ x.rotateRight 25

def smallSigma0 (x : Word) : Word := x.rotateRight 7 ^^^ x.rotateRight 18 ^^^ (x >>> 3)

def smallSigma1 (x : Word) : Word := x.rotateRight 17 ^^^ x.rotateRight 19 ^^^ (x >>> 10)

/-- The first 64 primes. -/
def primes : List ℕ := (List.range 312).filter Nat.Prime

/-- The first 32 bits of the fractional part of the `k`-th root of `q`. -/
def rootFraction (k q : ℕ) : Word := BitVec.ofNat 32 (Nat.nthRoot k (q * 2 ^ (32 * k)))

/-- The constant of round `t`. -/
def roundConstant (t : ℕ) : Word := rootFraction 3 (primes.getD t 0)

/-! ## Compression -/

/-- The eight words of a hash value, also the working variables. -/
structure Words where
  a : Word
  b : Word
  c : Word
  d : Word
  e : Word
  f : Word
  g : Word
  h : Word
  deriving DecidableEq

/-- The initial hash value. -/
def initial : Words where
  a := rootFraction 2 2
  b := rootFraction 2 3
  c := rootFraction 2 5
  d := rootFraction 2 7
  e := rootFraction 2 11
  f := rootFraction 2 13
  g := rootFraction 2 17
  h := rootFraction 2 19

/-- Word `t` of the schedule of a block of 64 bytes. -/
def schedule (block : Bytes) (t : ℕ) : Word :=
  if t < 16 then BitVec.ofNat 32 (ofOctets (slice block (4 * t) 4))
  else
    smallSigma1 (schedule block (t - 2)) + schedule block (t - 7) +
      smallSigma0 (schedule block (t - 15)) + schedule block (t - 16)
termination_by t

/-- Round `t` with a word of the schedule. -/
def round (s : Words) (k w : Word) : Words :=
  let t1 := s.h + bigSigma1 s.e + choice s.e s.f s.g + k + w
  let t2 := bigSigma0 s.a + majority s.a s.b s.c
  ⟨t1 + t2, s.a, s.b, s.c, s.d + t1, s.e, s.f, s.g⟩

/-- The sum of two hash values, word by word. -/
def Words.add (s t : Words) : Words :=
  ⟨s.a + t.a, s.b + t.b, s.c + t.c, s.d + t.d, s.e + t.e, s.f + t.f, s.g + t.g, s.h + t.h⟩

/-- The next hash value, after a block. -/
def compress (s : Words) (block : Bytes) : Words :=
  s.add ((List.range 64).foldl (fun r t => round r (roundConstant t) (schedule block t)) s)

/-! ## Messages -/

/-- What is appended to a message of `n` bytes: the bit 1, the least number of zero bits that
brings the length to 448 modulo 512, and the length in bits as a number of 64 bits. -/
def padding (n : ℕ) : Bytes :=
  0x80 :: List.replicate ((119 - n % 64) % 64) 0 ++ toOctets 8 (8 * n)

/-- The whole blocks of a string. -/
def blocks (m : Bytes) : List Bytes := (List.range (m.length / 64)).map fun i => slice m (64 * i) 64

/-- The hash value after the whole blocks of a string. -/
def hashValue (m : Bytes) : Words := (blocks m).foldl compress initial

/-- The octets of a hash value. -/
def Words.octets (s : Words) : Bytes :=
  [s.a, s.b, s.c, s.d, s.e, s.f, s.g, s.h].flatMap fun w => toOctets 4 w.toNat

/-- The digest of a message.  The standard defines it below `2^64` bits; a longer message has its
length taken modulo `2^64` here. -/
def digest (m : Bytes) : Bytes := (hashValue (m ++ padding m.length)).octets

/-! ## The transcript -/

/-- What is done with a transcript hash. -/
inductive Operation where
  | reset
  | update (b : Bytes)
  | snapshot

/-- The digests that a sequence of operations is to return after the bytes `fed`. -/
def expected (fed : Bytes) : List Operation → List Bytes
  | [] => []
  | .reset :: ops => expected [] ops
  | .update b :: ops => expected (fed ++ b) ops
  | .snapshot :: ops => digest fed :: expected fed ops

/-- The digests that a sequence of operations returns. -/
def snapshots (t : NativeTranscript) : List Operation → List Bytes
  | [] => []
  | .reset :: ops => snapshots NativeTranscript.reset ops
  | .update b :: ops => snapshots (t.update b) ops
  | .snapshot :: ops => t.snapshot.1.val :: snapshots t.snapshot.2 ops

end XboxTls.Interface.Sha256
