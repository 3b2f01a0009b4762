import XboxTls.Model.AesGcm
import XboxTls.Programs.BinaryPolynomials

/-!
# GHASH of the standard

A block as a polynomial over two elements: its first bit, the highest of the first byte, is the
constant coefficient.  Blocks are multiplied modulo `t¹²⁸ + t⁷ + t² + t + 1`, and a byte string is
hashed by evaluating the polynomial of its blocks.
-/

set_option autoImplicit false

namespace XboxTls.Interface.Ghash

open Polynomial Programs XboxTls.Model

/-- Bit `i` of a block. -/
def blockBit (x : Block) (i : ℕ) : Bool := (byteAt x.val (i / 8)).toNat.testBit (7 - i % 8)

/-- The polynomial of a block: bit `i` is the coefficient of `t ^ i`. -/
noncomputable def polynomial (x : Block) : (ZMod 2)[X] := ofBits 128 (blockBit x)

noncomputable def modulus : (ZMod 2)[X] := X ^ 128 + (X ^ 7 + X ^ 2 + X + 1)

/-- The residue that a block stands for. -/
noncomputable def element (x : Block) : AdjoinRoot modulus := AdjoinRoot.mk modulus (polynomial x)

/-- The number of blocks, the last of which may be short. -/
def blockCount (d : Bytes) : ℕ := (d.length + 15) / 16

/-- Block `i`, filled up with zeros. -/
def paddedBlock (d : Bytes) (i : ℕ) : Block := FixedBytes.ofBytes 16 (d.drop (16 * i))

/-- The blocks of `d` are the coefficients behind `y`, and the last stands before `h`. -/
noncomputable def evaluation (y h : AdjoinRoot modulus) (d : Bytes) : AdjoinRoot modulus :=
  y * h ^ blockCount d +
    ∑ i ∈ Finset.range (blockCount d), element (paddedBlock d i) * h ^ (blockCount d - i)

end XboxTls.Interface.Ghash
