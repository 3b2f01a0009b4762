import Mathlib.Data.Set.Defs
import XboxTls.Interface.Delivery

/-!
# Records on a network that an adversary controls

The tuples that go through the AEAD, what an ideal AEAD opens, and the keys of the peer.
-/

set_option autoImplicit false

namespace XboxTls.Interface

open XboxTls.Model

/-- The key, the nonce, the additional data, the ciphertext and the tag of one call of
`aes128_gcm_encrypt` or `aes128_gcm_decrypt`. -/
structure AeadTuple where
  key : FixedBytes 16
  nonce : FixedBytes 12
  aad : Bytes
  ciphertext : Bytes
  tag : FixedBytes 16
  deriving DecidableEq, Repr

/-- What `unprotect_record_aes128_gcm` hands to `aes128_gcm_decrypt`. -/
def openTuple (keys : TrafficKeys) (record : Bytes) : AeadTuple :=
  let ctLen := loadBe16 record 3 - 16
  ⟨keys.key, keys.nonce, slice record 0 5, slice record 5 ctLen,
    FixedBytes.ofBytes 16 (slice record (5 + ctLen) 16)⟩

section Peer

variable (P : Crypto)

/-- What `protect_record_aes128_gcm` produces with `aes128_gcm_encrypt`. -/
def sealTuple (t : Traffic) (r : PeerRecord) : AeadTuple :=
  let inner := innerPlaintext r.content.innerType r.content.bytes r.padding
  let header := protectedHeader (inner.length + 16)
  let enc := P.aes128GcmEncrypt t.keys.key t.keys.nonce header inner
  ⟨t.keys.key, t.keys.nonce, header, enc.1, enc.2⟩

/-- What the records of the peer produce. -/
def sealTuples : Traffic → List PeerRecord → List AeadTuple
  | _, [] => []
  | t, r :: records => sealTuple P t r :: sealTuples (r.next P t) records

/-- The AEAD is ideal for the direction to the client: it opened only tuples that the peer
produced, or that others did with keys of their own. -/
def IdealFor (t : Traffic) (records : List PeerRecord) (others : Set AeadTuple)
    (evs : List Event) : Prop :=
  ∀ entry ∈ openedRecords .serverApp evs,
    openTuple entry.1 entry.2 ∈ sealTuples P t records ∨ openTuple entry.1 entry.2 ∈ others

/-- The keys of the peer are distinct for each epoch, and nobody else has them. -/
structure DistinctKeys (t : Traffic) (records : List PeerRecord) (others : Set AeadTuple) :
    Prop where
  epochs : ∀ m n, m < n → n ≤ keyUpdatesOf records →
    ((Traffic.update P)^[m] t).keys.key ≠ ((Traffic.update P)^[n] t).keys.key
  others : ∀ o ∈ others, ∀ n, n ≤ keyUpdatesOf records →
    o.key ≠ ((Traffic.update P)^[n] t).keys.key

end Peer

/-- The sequence number of the peer does not come round: fewer than 2^64 records in a row hold no
KeyUpdate. -/
def SequenceFits (records : List PeerRecord) : Prop :=
  ∀ part, part <:+: records → keyUpdatesOf part = 0 → part.length < UInt64.size

/-- The call starts another connection. -/
def IsConnect : Call → Prop
  | .connect _ => True
  | _ => False

end XboxTls.Interface
