import XboxTls.Model.TrustStore

/-!
# The XTS1 format

A trust store as `make_trust_store.py` writes it: a magic, the number of certificates and the
certificates, each with a length of 24 bits.
-/

set_option autoImplicit false

namespace XboxTls.Interface

open Programs XboxTls.Model

/-- `XTS1`. -/
def xts1Magic : Bytes := [0x58, 0x54, 0x53, 0x31]

/-- One certificate of a store.
SOURCE: dev/tools/make_trust_store.py:18-21 -/
def encodeAnchor (der : Bytes) : Bytes := storeBe24 der.length ++ der

/-- The store.
SOURCE: dev/tools/make_trust_store.py:12-21 -/
def xts1 (certificates : List Bytes) : Bytes :=
  xts1Magic ++ storeBe16 certificates.length ++ certificates.flatMap encodeAnchor

/-- A certificate that a store can hold. -/
structure StorableOne (der : Bytes) : Prop where
  nonempty : 0 < der.length
  bound : der.length < 2 ^ 24
  parsed : ∃ view, x509ParseCertificate der = .ok view

/-- Certificates that fit into a store and into a verifier. -/
structure Storable (certificates : List Bytes) : Prop where
  count : certificates.length ≤ 16
  each : ∀ der ∈ certificates, StorableOne der

/-- `load_compact_trust_store` with `*loaded_count` beside the verifier: it is set to zero first
and to the number of anchors last.
SOURCE: src/x509/trust_store.cpp:10-50 -/
def loadCounted (block : ℕ) (blob : Bytes) : Prog (VerifierObject × ℕ) Error Unit := fun s =>
  (VerifierObject.loadCompactTrustStore block blob s.1).map fun
    | (.ok count, v) => (.ok (), (v, count))
    | (.error e, v) => (.error e, (v, 0))

/-- The anchors are these certificates, wherever the block holds the store. -/
def AnchorsAre (block : ℕ) (blob : Bytes) (v : VerifierObject) (certificates : List Bytes) : Prop :=
  ∀ heap : Heap, heap.lookup block = some blob →
    ∃ verifier, v.deref heap = some verifier ∧ verifier.anchors = certificates

end XboxTls.Interface
