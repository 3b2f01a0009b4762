import XboxTls.Model.Api

/-!
# The nonces of a run

For every key slot the nonces that went into `aes128_gcm_encrypt`, grouped by the
derivation of the slot's keys under which the calls were made; and what ties the log to these
calls: every record in it is what a call with the key and the nonce of its entry gave.
-/

set_option autoImplicit false

namespace XboxTls.Interface

open XboxTls.Model

/-- What an event adds to the groups of a slot, the current group first: a derivation opens
a group, a sealed record adds its nonce to the current one. -/
def countSeal (slot : KeySlot) (groups : List (List (FixedBytes 12))) (ev : Event) :
    List (List (FixedBytes 12)) :=
  match ev with
  | .keysDerived slot' _ => if slot' = slot then [] :: groups else groups
  | .sealed slot' keys _ =>
    if slot' = slot then (groups.headD [] ++ [keys.nonce]) :: groups.tail else groups
  | _ => groups

/-- The nonces under which records were sealed with the keys of a slot, one list for each
derivation of these keys, the last derivation first; the last list is for the keys before
the first derivation. -/
def sealedNonces (slot : KeySlot) (evs : List Event) : List (List (FixedBytes 12)) :=
  evs.foldl (countSeal slot) [[]]

/-- The record is the header and what `aes128_gcm_encrypt` gave with this key and this nonce, with
the header as associated data, for a plaintext that fits a record. -/
def EncryptedWith (P : Crypto) (key : FixedBytes 16) (nonce : FixedBytes 12) (record : Bytes) :
    Prop :=
  ∃ plaintext : Bytes, plaintext.length + 16 ≤ 16640 ∧
    let header := protectedHeader (plaintext.length + 16)
    let enc := P.aes128GcmEncrypt key nonce header plaintext
    record = header ++ enc.1 ++ enc.2.val

/-- Every record that was sealed came from a call of `aes128_gcm_encrypt` with the key and the
nonce of its keys. -/
def SealsEncrypted (P : Crypto) (evs : List Event) : Prop :=
  ∀ slot keys record, .sealed slot keys record ∈ evs →
    EncryptedWith P keys.key keys.nonce record

/-- Events that neither derive keys nor seal. -/
def aloofEvent : Event → Bool
  | .keysDerived _ _ | .sealed _ _ _ => false
  | _ => true

/-- One more event changes the groups as it counts. -/
theorem sealedNonces_concat (slot : KeySlot) (evs : List Event) (ev : Event) :
    sealedNonces slot (evs ++ [ev]) = countSeal slot (sealedNonces slot evs) ev := by
  simp only [sealedNonces, List.foldl_append, List.foldl_cons, List.foldl_nil]

end XboxTls.Interface
