import XboxTls.Model.Bytes
import XboxTls.Programs.Checked

/-!
# X25519 (`x25519.cpp`)

A `gf` of the code is an array of 16 signed words of 64 bits, here the list of their numbers.
Every sum, difference, product and left shift is checked, so that a result exists only if no
intermediate overflows.
-/

set_option autoImplicit false

namespace XboxTls.Model.X25519

open Programs

/-- `typedef i64 gf[16]`. -/
abbrev Gf : Type := List ℤ

/-- `a[i]`. -/
def limb (a : Gf) (i : ℕ) : ℤ := a.getD i 0

/-- `gf0`, also an array of 16 words before it is written. -/
def gf0 : Gf := List.replicate 16 0

/-- `gf1`. -/
def gf1 : Gf := 1 :: List.replicate 15 0

/-- `c121665`. -/
def c121665 : Gf := 0xDB41 :: 1 :: List.replicate 14 0

/-! ## Field operations -/

/-- One pass of the loop of `car25519`.
SOURCE: src/crypto/x25519.cpp:16-19 -/
def carStep (o : Gf) (i : ℕ) : Option Gf := do
  let o := o.set i (← addChecked (limb o i) (2 ^ 16))
  let c := shr (limb o i) 16
  let last : ℤ := if i = 15 then 1 else 0
  let j := (i + 1) * (if i < 15 then 1 else 0)
  let k ← addChecked (← subChecked c 1)
    (← mulChecked (← mulChecked 37 (← subChecked c 1)) last)
  let o := o.set j (← addChecked (limb o j) k)
  let o := o.set i (← subChecked (limb o i) (← shlChecked c 16))
  pure o

/-- `car25519`.
SOURCE: src/crypto/x25519.cpp:14-21 -/
def car25519 (o : Gf) : Option Gf := (List.range 16).foldlM carStep o

/-- `sel25519`: both arrays after the call.
SOURCE: src/crypto/x25519.cpp:22-29 -/
def sel25519 (p q : Gf) (b : ℤ) : Gf × Gf :=
  let c := Int.lnot (b - 1)
  let t := List.zipWith (fun x y => Int.land c (Int.xor x y)) p q
  (List.zipWith Int.xor p t, List.zipWith Int.xor q t)

/-- `A`.
SOURCE: src/crypto/x25519.cpp:60-63 -/
def A (a b : Gf) : Option Gf := (List.range 16).mapM fun i => addChecked (limb a i) (limb b i)

/-- `Z`.
SOURCE: src/crypto/x25519.cpp:64-67 -/
def Z (a b : Gf) : Option Gf := (List.range 16).mapM fun i => subChecked (limb a i) (limb b i)

/-- `t[k] += x * y`. -/
def accumulate (t : Gf) (k : ℕ) (x y : ℤ) : Option Gf := do
  pure (t.set k (← addChecked (limb t k) (← mulChecked x y)))

/-- The product before it is reduced: the 31 words of `t`.
SOURCE: src/crypto/x25519.cpp:69-74 -/
def products (a b : Gf) : Option Gf :=
  (List.range 16).foldlM
    (fun t i => (List.range 16).foldlM (fun t j => accumulate t (i + j) (limb a i) (limb b j)) t)
    (List.replicate 31 0)

/-- `M`.
SOURCE: src/crypto/x25519.cpp:68-82 -/
def M (a b : Gf) : Option Gf := do
  let t ← products a b
  let t ← (List.range 15).foldlM (fun t i => accumulate t i 38 (limb t (i + 16))) t
  car25519 (← car25519 (t.take 16))

/-- `S`.
SOURCE: src/crypto/x25519.cpp:83-85 -/
def S (a : Gf) : Option Gf := M a a

/-- The loop of `inv25519` for the exponents below `n`, from the top down. -/
def invLoop (i : Gf) : ℕ → Gf → Option Gf
  | 0, c => some c
  | a + 1, c => do
    let c ← S c
    let c ← if a ≠ 2 ∧ a ≠ 4 then M c i else pure c
    invLoop i a c

/-- `inv25519`.
SOURCE: src/crypto/x25519.cpp:86-96 -/
def inv25519 (i : Gf) : Option Gf := invLoop i 254 i

/-! ## Octets -/

/-- One pass of the inner loop of `pack25519`, for `1 ≤ i < 15`.
SOURCE: src/crypto/x25519.cpp:39-42 -/
def borrowStep (t m : Gf) (i : ℕ) : Option Gf := do
  let x ← subChecked (← subChecked (limb t i) 0xffff) (Int.land (shr (limb m (i - 1)) 16) 1)
  let m := m.set i x
  pure (m.set (i - 1) (Int.land (limb m (i - 1)) 0xffff))

/-- One pass of the outer loop of `pack25519`: `t` and `m` after it.
SOURCE: src/crypto/x25519.cpp:37-47 -/
def subtractStep (t m : Gf) : Option (Gf × Gf) := do
  let m := m.set 0 (← subChecked (limb t 0) 0xffed)
  let m ← (List.range' 1 14).foldlM (borrowStep t) m
  let m := m.set 15
    (← subChecked (← subChecked (limb t 15) 0x7fff) (Int.land (shr (limb m 14) 16) 1))
  let b := Int.land (shr (limb m 15) 16) 1
  let m := m.set 14 (Int.land (limb m 14) 0xffff)
  pure (sel25519 t m (1 - b))

/-- `pack25519`.
SOURCE: src/crypto/x25519.cpp:30-54 -/
def pack25519 (n : Gf) : Option Bytes := do
  let t ← car25519 n
  let t ← car25519 t
  let t ← car25519 t
  let (t, m) ← subtractStep t gf0
  let (t, _) ← subtractStep t m
  pure (t.flatMap fun (x : ℤ) =>
    [UInt8.ofNat (x % 256).toNat, UInt8.ofNat (shr x 8 % 256).toNat])

/-- `unpack25519`.
SOURCE: src/crypto/x25519.cpp:55-59 -/
def unpack25519 (n : FixedBytes 32) : Gf :=
  let o := (List.range 16).map fun i =>
    ((byteAt n.val (2 * i)).toNat : ℤ) + ((byteAt n.val (2 * i + 1)).toNat : ℤ) * 2 ^ 8
  o.set 15 (Int.land (limb o 15) 0x7fff)

/-! ## The ladder -/

/-- The arrays `a`, `b`, `c` and `d` of `scalarmult`. -/
structure Ladder where
  a : Gf
  b : Gf
  c : Gf
  d : Gf

/-- One pass of the loop of `scalarmult`.
SOURCE: src/crypto/x25519.cpp:109-131 -/
def ladderStep (z : Bytes) (x : Gf) (s : Ladder) (i : ℕ) : Option Ladder := do
  let r : ℕ := (byteAt z (i >>> 3)).toNat >>> (i &&& 7) &&& 1
  let (a, b) := sel25519 s.a s.b r
  let (c, d) := sel25519 s.c s.d r
  let e ← A a c
  let a ← Z a c
  let c ← A b d
  let b ← Z b d
  let d ← S e
  let f ← S a
  let a ← M c a
  let c ← M b e
  let e ← A a c
  let a ← Z a c
  let b ← S a
  let c ← Z d f
  let a ← M c c121665
  let a ← A a d
  let c ← M c a
  let a ← M d f
  let d ← M b x
  let b ← S e
  let (a, b) := sel25519 a b r
  let (c, d) := sel25519 c d r
  pure ⟨a, b, c, d⟩

/-- The loop of `scalarmult` for the bits below `n`, from the top down. -/
def ladderLoop (z : Bytes) (x : Gf) : ℕ → Ladder → Option Ladder
  | 0, s => some s
  | i + 1, s => do ladderLoop z x i (← ladderStep z x s i)

/-- The clamped private key: `z`.
SOURCE: src/crypto/x25519.cpp:100-102 -/
def clamp (n : FixedBytes 32) : FixedBytes 32 :=
  let z := n.set 31 ((byteAt n.val 31 &&& 127) ||| 64)
  z.set 0 (byteAt z.val 0 &&& 248)

/-- `scalarmult`.
SOURCE: src/crypto/x25519.cpp:97-144 -/
def scalarmult (n p : FixedBytes 32) : Option Bytes := do
  let z := clamp n
  let x := unpack25519 p
  let s ← ladderLoop z.val x 255 ⟨gf1, x, gf0, gf1⟩
  let c ← inv25519 s.c
  let a ← M s.a c
  pack25519 a

/-- `all_zero`.
SOURCE: src/crypto/x25519.cpp:145-150 -/
def allZero (p : Bytes) : Prop := p.foldl (· ||| ·) 0 = 0

instance (p : Bytes) : Decidable (allZero p) := inferInstanceAs (Decidable (_ = _))

/-- `x25519_public_from_private`.
SOURCE: src/crypto/x25519.cpp:151-157 -/
def x25519PublicFromPrivate (privateKey : FixedBytes 32) : Option Bytes :=
  scalarmult privateKey ((FixedBytes.zero 32).set 0 9)

/-- `x25519_shared_secret`.
SOURCE: src/crypto/x25519.cpp:158-168 -/
def x25519SharedSecret (privateKey peerPublicKey : FixedBytes 32) :
    Option (Except Error Bytes) := do
  let sharedSecret ← scalarmult privateKey peerPublicKey
  pure (if allZero sharedSecret then .error .verify else .ok sharedSecret)

end XboxTls.Model.X25519
