import Mathlib.Data.ZMod.Basic
import XboxTls.Model.Bytes
import XboxTls.Programs.Octets

/-!
# X25519 of the standard

The function of RFC 7748: the decoding of scalars and of u-coordinates, the Montgomery ladder with
its conditional swaps, and the encoding of the result, with arithmetic modulo `2^255 - 19`.
-/

set_option autoImplicit false

namespace XboxTls.Interface.X25519

open Programs XboxTls.Model

/-- The order of the field. -/
def p : ℕ := 2 ^ 255 - 19

/-! ## Encodings -/

/-- The number of octets, the least significant first. -/
def littleEndian (s : Bytes) : ℕ := ofOctets s.reverse

/-- A u-coordinate: the top bit is ignored, and numbers from `p` on are accepted. -/
def decodeUCoordinate (u : Bytes) : ZMod p := (littleEndian u % 2 ^ 255 : ℕ)

/-- A scalar: the three low bits are cleared, bit 255 is cleared and bit 254 is set. -/
def decodeScalar (k : Bytes) : ℕ := 2 ^ 254 + littleEndian k % 2 ^ 254 / 8 * 8

/-- The canonical encoding of a u-coordinate. -/
def encodeUCoordinate (x : ZMod p) : Bytes := (toOctets 32 x.val).reverse

/-! ## The ladder -/

/-- The variables of the ladder. -/
structure State where
  x2 : ZMod p
  z2 : ZMod p
  x3 : ZMod p
  z3 : ZMod p
  swap : Bool

/-- The conditional swap. -/
def cswap (swap : Bool) (x y : ZMod p) : ZMod p × ZMod p := if swap then (y, x) else (x, y)

/-- The step for bit `t` of the scalar. -/
def step (k : ℕ) (x1 : ZMod p) (s : State) (t : ℕ) : State :=
  let kt := k.testBit t
  let swap := s.swap ^^ kt
  let (x2, x3) := cswap swap s.x2 s.x3
  let (z2, z3) := cswap swap s.z2 s.z3
  let a := x2 + z2
  let aa := a ^ 2
  let b := x2 - z2
  let bb := b ^ 2
  let e := aa - bb
  let c := x3 + z3
  let d := x3 - z3
  let da := d * a
  let cb := c * b
  { x3 := (da + cb) ^ 2
    z3 := x1 * (da - cb) ^ 2
    x2 := aa * bb
    z2 := e * (aa + 121665 * e)
    swap := kt }

/-- The steps for the bits below `n`, from the top down. -/
def ladder (k : ℕ) (x1 : ZMod p) : ℕ → State → State
  | 0, s => s
  | t + 1, s => ladder k x1 t (step k x1 s t)

/-- The u-coordinate that the ladder computes. -/
def montgomery (k : ℕ) (u : ZMod p) : ZMod p :=
  let s := ladder k u 255 ⟨1, 0, u, 1, false⟩
  let (x2, _) := cswap s.swap s.x2 s.x3
  let (z2, _) := cswap s.swap s.z2 s.z3
  x2 * z2 ^ (p - 2)

/-- X25519. -/
def x25519 (k u : Bytes) : Bytes :=
  encodeUCoordinate (montgomery (decodeScalar k) (decodeUCoordinate u))

/-- The u-coordinate of the base point. -/
def basePoint : Bytes := 9 :: List.replicate 31 0

end XboxTls.Interface.X25519
