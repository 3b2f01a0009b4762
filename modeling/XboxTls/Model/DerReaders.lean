import XboxTls.Model.NativeVerifier

/-!
# The three DER readers

`x509.cpp`, `native_verifier.cpp` and `rsa_verify.cpp` have a reader each.  Here every one is
written as its file has it, with running offsets and with spans as offsets into the input.
-/

set_option autoImplicit false

namespace XboxTls.Model

/-- A `ByteSpan` into a buffer. -/
structure Span where
  off : ℕ
  size : ℕ
  deriving DecidableEq, Repr

/-- The bytes of a span. -/
def Span.bytes (s : Span) (input : Bytes) : Bytes := slice input s.off s.size

/-- `DerTlv` of `x509.cpp` with `*next`, and `Tlv` of `native_verifier.cpp`. -/
structure TlvSpans where
  tag : UInt8
  full : Span
  value : Span
  next : ℕ
  deriving DecidableEq, Repr

/-- `Tlv` of `rsa_verify.cpp`, which has no `full`. -/
structure ValueSpan where
  tag : UInt8
  value : Span
  next : ℕ
  deriving DecidableEq, Repr

/-- `for (i < n) len = (len << 8) | in.data[p++]`, in all three files: the length and where it
ends.  With `n ≤ 4` the length fits into 32 bits, and the low byte of the shift is zero. -/
def lengthLoop (input : Bytes) : ℕ → ℕ → ℕ → ℕ × ℕ
  | 0, len, p => (len, p)
  | n + 1, len, p => lengthLoop input n (len * 256 + (byteAt input p).toNat) (p + 1)

/-- `der_tlv`.
SOURCE: src/x509/x509.cpp:18-47 -/
def x509DerTlv (input : Bytes) (off : ℕ) : Except Error TlvSpans := do
  if off ≥ input.length then throw .badHandshake
  let p := off
  let tag := byteAt input p
  let p := p + 1
  if p ≥ input.length then throw .badHandshake
  let lb := byteAt input p
  let p := p + 1
  let (len, p) ←
    if lb &&& 0x80 = 0 then pure (lb.toNat, p)
    else do
      let n := (lb &&& 0x7F).toNat
      if n = 0 ∨ n > 4 ∨ p + n > input.length then throw .badHandshake
      if byteAt input p = 0 then throw .badHandshake
      let (len, p) := lengthLoop input n 0 p
      if len < 128 then throw .badHandshake
      pure (len, p)
  if len > input.length - p then throw .badHandshake
  pure ⟨tag, ⟨off, (p - off) + len⟩, ⟨p, len⟩, p + len⟩

/-- `tlv` of the native verifier.
SOURCE: src/verifier/native/native_verifier.cpp:13-39 -/
def nativeTlv (input : Bytes) (off : ℕ) : Except Error TlvSpans := do
  if off ≥ input.length then throw .badHandshake
  let p := off
  let tag := byteAt input p
  let p := p + 1
  if p ≥ input.length then throw .badHandshake
  let lb := byteAt input p
  let p := p + 1
  let (len, p) ←
    if lb &&& 0x80 = 0 then pure (lb.toNat, p)
    else do
      let n := (lb &&& 0x7F).toNat
      if n = 0 ∨ n > 4 ∨ p + n > input.length ∨ byteAt input p = 0 then throw .badHandshake
      let (len, p) := lengthLoop input n 0 p
      if len < 128 then throw .badHandshake
      pure (len, p)
  if len > input.length - p then throw .badHandshake
  pure ⟨tag, ⟨off, p - off + len⟩, ⟨p, len⟩, p + len⟩

/-- `tlv` of the RSA verifier.
SOURCE: src/crypto/rsa_verify.cpp:21-46 -/
def rsaTlv (input : Bytes) (off : ℕ) : Except Error ValueSpan := do
  if off ≥ input.length then throw .badHandshake
  let p := off
  let tag := byteAt input p
  let p := p + 1
  if p ≥ input.length then throw .badHandshake
  let lb := byteAt input p
  let p := p + 1
  let (len, p) ←
    if lb &&& 0x80 = 0 then pure (lb.toNat, p)
    else do
      let n := (lb &&& 0x7F).toNat
      if n = 0 ∨ n > 4 ∨ p + n > input.length ∨ byteAt input p = 0 then throw .badHandshake
      let (len, p) := lengthLoop input n 0 p
      if len < 128 then throw .badHandshake
      pure (len, p)
  if len > input.length - p then throw .badHandshake
  pure ⟨tag, ⟨p, len⟩, p + len⟩

end XboxTls.Model
