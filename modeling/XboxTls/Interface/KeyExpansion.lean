import XboxTls.Interface.StandardSchedule

/-!
# HKDF-Expand of RFC 5869

The blocks `T(1)`, `T(2)` and so on with what each of them is the HMAC of, the output that they
make up, and derivations with a label.
-/

set_option autoImplicit false

namespace XboxTls.Interface.Standard

open XboxTls.Model

section Blocks

variable (hash : Bytes → Bytes) (prk info : Bytes)

/-- `T(i)`; `T(0)` is empty. -/
def expandBlock : ℕ → Bytes
  | 0 => []
  | i + 1 => hmac hash prk (expandBlock i ++ info ++ [UInt8.ofNat (i + 1)])

/-- What `T(i + 1)` is the HMAC of. -/
def expandMessage (i : ℕ) : Bytes := expandBlock hash prk info i ++ info ++ [UInt8.ofNat (i + 1)]

/-- The number of blocks for `n` bytes. -/
def expandCount (n : ℕ) : ℕ := (n + 31) / 32

/-- The first `n` bytes of `T(1) | T(2) | …`. -/
def expandStream (n : ℕ) : Bytes :=
  ((List.range (expandCount n)).flatMap fun i => expandBlock hash prk info (i + 1)).take n

end Blocks

/-- A use of `hkdf_expand_label_sha256` that is accepted. -/
structure LabelledExpansion (P : Crypto) where
  secret : Bytes
  label : Bytes
  context : Bytes
  n : ℕ
  out : FixedBytes n
  accepted : hkdfExpandLabelSha256 P secret label context n = .ok out

namespace LabelledExpansion

variable {P : Crypto} (d : LabelledExpansion P)

/-- The output length, the label and the context. -/
def triple : ℕ × Bytes × Bytes := (d.n, d.label, d.context)

def info : Bytes := hkdfLabel d.n d.label d.context

/-- What it hands to `hmac_sha256`. -/
def messages : List Bytes := hkdfExpandMessages P d.secret d.info (d.n / 32 + 1) [] 1 d.n

end LabelledExpansion

end XboxTls.Interface.Standard
