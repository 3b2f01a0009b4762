import XboxTls.Interface.Ghash
import XboxTls.Programs.Octets

/-!
# AES-128-GCM of the standards

The cipher of FIPS 197 over states of four rows and columns, with its bytes as elements of the
field of 256 elements, and the mode of SP 800-38D: the text under the keystream of the counter
blocks, and the tag from GHASH.
-/

set_option autoImplicit false

namespace XboxTls.Interface.AesGcm

open Polynomial Programs XboxTls.Model

/-! ## The field -/

noncomputable def modulus : (ZMod 2)[X] := X ^ 8 + (X ^ 4 + X ^ 3 + X + 1)

/-- The element that a byte stands for: bit `i` is the coefficient of `t ^ i`. -/
noncomputable def element (b : UInt8) : AdjoinRoot modulus := residueOf modulus 8 b.toNat.testBit

/-- The product with the unknown. -/
def xTimes (b : UInt8) : UInt8 := if b.toNat.testBit 7 then (b <<< 1) ^^^ 0x1b else b <<< 1

/-- The sum of the products of `a` with the powers in `b` below `n`. -/
def partialProduct (a b : UInt8) : ℕ → UInt8
  | 0 => 0
  | n + 1 => partialProduct a b n ^^^ if b.toNat.testBit n then xTimes^[n] a else 0

/-- The product of two bytes. -/
def times (a b : UInt8) : UInt8 := partialProduct a b 8

/-- The byte with the product one, and zero for zero. -/
def inverse (b : UInt8) : UInt8 :=
  (((List.range 256).map UInt8.ofNat).find? fun c => times b c = 1).getD 0

/-- Bit `i` is the sum of the bits `i`, `i + 4`, `i + 5`, `i + 6` and `i + 7` modulo 8, and of bit
`i` of `63`. -/
def affine (b : UInt8) : UInt8 :=
  let x := b.toBitVec
  .ofBitVec (x ^^^ x.rotateLeft 4 ^^^ x.rotateLeft 3 ^^^ x.rotateLeft 2 ^^^ x.rotateLeft 1 ^^^ 0x63)

/-- The substitution of a byte. -/
def subByte (b : UInt8) : UInt8 := affine (inverse b)

/-! ## The cipher -/

/-- The state: row `r` and column `c`. -/
abbrev State : Type := Fin 4 → Fin 4 → UInt8

def subBytes (s : State) : State := fun r c => subByte (s r c)

/-- Row `r` moves `r` places to the left. -/
def shiftRows (s : State) : State := fun r c => s r (c + r)

/-- Every column is multiplied by `03 x³ + 01 x² + 01 x + 02` modulo `x⁴ + 1`. -/
def mixColumns (s : State) : State := fun r c =>
  times 2 (s r c) ^^^ times 3 (s (r + 1) c) ^^^ s (r + 2) c ^^^ s (r + 3) c

def addRoundKey (s k : State) : State := fun r c => s r c ^^^ k r c

/-- A word of the key schedule. -/
abbrev Word : Type := Fin 4 → UInt8

def subWord (w : Word) : Word := fun r => subByte (w r)

def rotWord (w : Word) : Word := fun r => w (r + 1)

/-- The round constant `j`. -/
def rcon (j : ℕ) : Word := fun r => if r = 0 then xTimes^[j - 1] 1 else 0

/-- Word `i` of the key schedule. -/
def word (key : Block) (i : ℕ) : Word :=
  if i < 4 then fun r => byteAt key.val (4 * i + r)
  else if i % 4 = 0 then fun r =>
    word key (i - 4) r ^^^ (subWord (rotWord (word key (i - 1))) r ^^^ rcon (i / 4) r)
  else fun r => word key (i - 4) r ^^^ word key (i - 1) r
termination_by i

/-- The round key `j`: its columns are words. -/
def roundKey (key : Block) (j : ℕ) : State := fun r c => word key (4 * j + c) r

/-- The first `n` rounds. -/
def rounds (key : Block) : ℕ → State → State
  | 0, s => addRoundKey s (roundKey key 0)
  | n + 1, s =>
    addRoundKey (mixColumns (shiftRows (subBytes (rounds key n s)))) (roundKey key (n + 1))

/-- The ten rounds, the last of which mixes no columns. -/
def cipher (key : Block) (s : State) : State :=
  addRoundKey (shiftRows (subBytes (rounds key 9 s))) (roundKey key 10)

/-- The state of an input block: the columns one after the other. -/
def stateOf (b : Block) : State := fun r c => byteAt b.val (4 * c + r)

/-! ## The mode -/

/-- The counter block `j` of a nonce; the first is `J0`. -/
def counter (nonce : FixedBytes 12) (j : ℕ) : Block :=
  ⟨nonce.val ++ toOctets 4 j, by rw [List.length_append, nonce.property, length_toOctets]⟩

/-- Byte `i` of the keystream. -/
def keystream (key : Block) (nonce : FixedBytes 12) (i : ℕ) : UInt8 :=
  cipher key (stateOf (counter nonce (i / 16 + 2))) (Fin.ofNat 4 (i % 4))
    (Fin.ofNat 4 (i % 16 / 4))

/-- The string with zeros up to a whole number of blocks. -/
def padded (d : Bytes) : Bytes := d ++ List.replicate (16 * Ghash.blockCount d - d.length) 0

/-- What is hashed: both strings, and their lengths in bits as numbers of 64 bits. -/
def hashed (aad ciphertext : Bytes) : Bytes :=
  padded aad ++ padded ciphertext ++
    (toOctets 8 (8 * aad.length) ++ toOctets 8 (8 * ciphertext.length))

/-- The authenticated encryption of a plaintext: every byte under that of the keystream, and the
hash of the associated data and the ciphertext under the first block. -/
structure Seals (key : Block) (nonce : FixedBytes 12) (aad plaintext ciphertext : Bytes)
    (tag : Block) : Prop where
  length : ciphertext.length = plaintext.length
  stream : ∀ i < plaintext.length,
    byteAt ciphertext i = byteAt plaintext i ^^^ keystream key nonce i
  authenticated : ∃ subkey mask : Block,
    stateOf subkey = cipher key (stateOf (FixedBytes.zero 16)) ∧
    stateOf mask = cipher key (stateOf (counter nonce 1)) ∧
    Ghash.element tag =
      Ghash.evaluation 0 (Ghash.element subkey) (hashed aad ciphertext) + Ghash.element mask

/-- What the cipher is applied to under one key for records with these nonces: the block of the
hash key, and for each record the counter blocks that it can have. -/
def cipherInputs (nonces : List (FixedBytes 12)) : List Block :=
  FixedBytes.zero 16 ::
    nonces.flatMap fun nonce => (List.range (2 ^ 32 - 1)).map fun j => counter nonce (j + 1)

end XboxTls.Interface.AesGcm
