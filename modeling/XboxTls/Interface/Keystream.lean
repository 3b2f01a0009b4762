import XboxTls.Interface.AesGcm
import XboxTls.Interface.NonceUse

/-!
# The blocks of a sealed record

What the block cipher is applied to when AES-128-GCM seals one record, and what it says of a
record that it was sealed under a key and a nonce.
-/

set_option autoImplicit false

namespace XboxTls.Interface

open XboxTls.Model
open Interface.AesGcm (Seals counter cipherInputs)

/-- What the cipher is applied to for a plaintext of `n` bytes: the block of the hash key, the
counter block that masks the tag, and one counter block for each block of the plaintext. -/
def recordInputs (nonce : FixedBytes 12) (n : ℕ) : List Block :=
  FixedBytes.zero 16 :: (List.range ((n + 15) / 16 + 1)).map fun j => counter nonce (j + 1)

/-- The record is its header, the ciphertext and the tag of some plaintext under this key and this
nonce, and the blocks for it are among those of the nonce. -/
def SealedUnder (key : Block) (nonce : FixedBytes 12) (record : Bytes) : Prop :=
  ∃ (plaintext ciphertext : Bytes) (tag : Block),
    record = protectedHeader (plaintext.length + 16) ++ ciphertext ++ tag.val ∧
    Seals key nonce (protectedHeader (plaintext.length + 16)) plaintext ciphertext tag ∧
    recordInputs nonce plaintext.length ⊆ cipherInputs [nonce]

end XboxTls.Interface
