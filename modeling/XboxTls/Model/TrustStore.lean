import XboxTls.Programs.Prog
import XboxTls.Model.NativeVerifier

/-!
# Trust stores (`trust_store.cpp`)

The anchors of a `NativeServerAuthVerifier` are spans into a buffer that somebody else owns.
Here the buffers are blocks of a heap, and `VerifierObject` is the verifier with its spans;
`VerifierObject.deref` reads them.
-/

set_option autoImplicit false

namespace XboxTls.Model

open Programs

/-! ## The heap -/

/-- A span into a block of the heap. -/
structure HeapSpan where
  block : ℕ
  off : ℕ
  size : ℕ
  deriving DecidableEq, Repr

/-- The blocks that `malloc` handed out and `free` has not taken back, under the numbers that
it gave them; no number is given twice. -/
structure Heap where
  blocks : List (ℕ × Bytes)
  next : ℕ
  deriving DecidableEq, Repr

namespace Heap

def empty : Heap := ⟨[], 0⟩

/-- `malloc` of a block that then holds `data`. -/
def alloc (h : Heap) (data : Bytes) : Heap := ⟨(h.next, data) :: h.blocks, h.next + 1⟩

/-- `free`. -/
def free (h : Heap) (block : ℕ) : Heap := { h with blocks := h.blocks.filter fun b => b.1 ≠ block }

/-- What the block holds, if it is still there. -/
def lookup (h : Heap) (block : ℕ) : Option Bytes := h.blocks.lookup block

/-- The bytes of a span, if it lies inside a block that is still there. -/
def read (h : Heap) (s : HeapSpan) : Option Bytes := do
  let data ← h.lookup s.block
  if s.off + s.size ≤ data.length then some (slice data s.off s.size) else none

end Heap

/-! ## The verifier -/

/-- `NativeServerAuthVerifier` as it lies in memory. -/
structure VerifierObject where
  anchors : List HeapSpan
  bound : anchors.length ≤ 16
  leafCertificateSha256Pin : FixedBytes 32
  leafCertificateSha256PinEnabled : Bool
  deriving DecidableEq, Repr

namespace VerifierObject

/-- The constructor.
SOURCE: src/verifier/native/native_verifier.cpp:188-192 -/
def initial : VerifierObject := ⟨[], Nat.zero_le 16, .zero 32, false⟩

/-- `set_leaf_certificate_sha256_pin`; `none` is a null pointer.
SOURCE: src/verifier/native/native_verifier.cpp:194-201 -/
def setLeafCertificateSha256Pin (pin32 : Option Bytes) : Prog VerifierObject Error Unit :=
  match pin32 with
  | none => Prog.throw .invalidArgument
  | some pin =>
    if pin.length ≠ 32 then Prog.throw .invalidArgument
    else Prog.modify fun v => { v with
      leafCertificateSha256Pin := FixedBytes.ofBytes 32 pin
      leafCertificateSha256PinEnabled := true }

/-- `clear_leaf_certificate_sha256_pin`.
SOURCE: src/verifier/native/native_verifier.cpp:203-206 -/
def clearLeafCertificateSha256Pin (v : VerifierObject) : VerifierObject :=
  { v with leafCertificateSha256Pin := .zero 32, leafCertificateSha256PinEnabled := false }

/-- `add_trust_anchor` of a span that holds `der`.
SOURCE: src/verifier/native/native_verifier.cpp:208-219 -/
def addTrustAnchor (span : HeapSpan) (der : Bytes) : Prog VerifierObject Error Unit := do
  let v ← Prog.get
  if span.size = 0 then Prog.throw .invalidArgument
  else if h : v.anchors.length < 16 then
    match x509ParseCertificate der with
    | .error e => Prog.throw e
    | .ok _ => Prog.modify fun _ => { v with
        anchors := v.anchors ++ [span]
        bound := by
          rw [List.length_append]
          exact h }
  else Prog.throw .bufferTooSmall

/-- `clear_trust_anchors`.
SOURCE: src/verifier/native/native_verifier.cpp:220-224 -/
def clearTrustAnchors (v : VerifierObject) : VerifierObject :=
  { v with anchors := [], bound := Nat.zero_le 16 }

/-- `verifier->clear_trust_anchors(); return e;`. -/
def clearAndFail {α : Type} (e : Error) : Prog VerifierObject Error α := do
  Prog.modify clearTrustAnchors
  Prog.throw e

/-- The loop over the certificates of a store, from `off`; the value is where it ends.
SOURCE: src/x509/trust_store.cpp:25-46 -/
def loadEntries (block : ℕ) (blob : Bytes) : ℕ → ℕ → Prog VerifierObject Error ℕ
  | 0, off => pure off
  | count + 1, off =>
    if off + 3 > blob.length then clearAndFail .badHandshake
    else
      let len := loadBe24 blob off
      let off := off + 3
      if len = 0 ∨ len > blob.length - off then clearAndFail .badHandshake
      else do
        Prog.onError (addTrustAnchor ⟨block, off, len⟩ (slice blob off len)) clearAndFail
        loadEntries block blob count (off + len)

/-- `load_compact_trust_store` of a blob at the start of a block; the value is
`*loaded_count`, which is zero after an error.
SOURCE: src/x509/trust_store.cpp:10-50 -/
def loadCompactTrustStore (block : ℕ) (blob : Bytes) : Prog VerifierObject Error ℕ :=
  if blob.length < 6 then Prog.throw .invalidArgument
  else if blob.take 4 ≠ [0x58, 0x54, 0x53, 0x31] then Prog.throw .badHandshake
  else do
    let count := loadBe16 blob 4
    Prog.modify clearTrustAnchors
    let off ← loadEntries block blob count 6
    if off ≠ blob.length then clearAndFail .badHandshake
    else pure count

/-- The verifier with the bytes of its anchors, if all of them are still there. -/
def deref (v : VerifierObject) (heap : Heap) : Option NativeServerAuthVerifier := do
  let ders ← v.anchors.mapM heap.read
  if h : ders.length ≤ 16 then
    some ⟨ders, h, v.leafCertificateSha256Pin, v.leafCertificateSha256PinEnabled⟩
  else none

end VerifierObject

variable (P : Crypto)

/-- `NativeServerAuthVerifier::verify_signature`.
SOURCE: src/verifier/native/native_verifier.cpp:341-352 -/
def NativeServerAuthVerifier.verifySignature (scheme : SignatureScheme)
    (leaf : X509CertificateView) (msg sig : Bytes) : Except Error Unit :=
  if (scheme = .rsaPssRsaeSha256 ∨ scheme = .rsaPssPssSha256) ∧ leaf.publicKeyKind = .rsa then
    P.nativeRsaPssSha256Verify leaf.subjectPublicKeyBits msg sig
  else if scheme = .ecdsaSecp256r1Sha256 ∧ leaf.publicKeyKind = .ecP256 then
    P.nativeP256EcdsaSha256Verify leaf.subjectPublicKeyBits msg sig
  else .error .verify

end XboxTls.Model
