import XboxTls.Model.Api

/-!
# Records on the wire

What a peer sees of a run: the byte strings handed to the stream, opened one after the
other under keys that start synchronised.
-/

set_option autoImplicit false

namespace XboxTls.Interface

open Programs XboxTls.Model

/-- The byte strings that the stream took, in order. -/
def writtenRecords (evs : List Event) : List Bytes :=
  evs.filterMap fun ev => match ev with
    | .wrote bytes => some bytes
    | _ => none

/-- A peer with these keys opens records in order: the inner types and the contents. -/
def openAll (P : Crypto) : TrafficKeys → List Bytes → Except Error (List (UInt8 × Bytes))
  | _, [] => .ok []
  | keys, record :: rest => do
    let o ← unprotectRecordAes128Gcm P keys record 16640
    let opened ← openAll P o.keys rest
    pure ((o.innerType, o.content) :: opened)

/-- Records sealed one after the other; the first failing call ends the sequence. -/
def protectAll (P : Crypto) : TrafficKeys → List ProtectArgs → Except Error (List Bytes)
  | _, [] => .ok []
  | keys, args :: rest => do
    let record ← (protectRecordCall P args keys).1
    let records ← protectAll P (protectRecordCall P args keys).2 rest
    pure (record :: records)

/-- The zeros behind the type byte in a record whose content is this. -/
def zeroPadding (record content : Bytes) : ℕ := loadBe16 record 3 - 17 - content.length

/-- Sealing and opening undo each other, and a call that fails leaves the keys alone. -/
structure RecordInverse (P : Crypto) : Prop where
  opens : ∀ keys keys' args record, protectRecordCall P args keys = (.ok record, keys') →
    keys'.sequenceNumber = keys.sequenceNumber + 1 ∧
    ∀ capacity, args.content.length + 1 + args.padding ≤ capacity →
      unprotectRecordCall P false record capacity keys =
        (.ok (args.innerType, args.content), keys')
  opensAll : ∀ keys argss records, protectAll P keys argss = .ok records →
    openAll P keys records = .ok (argss.map fun args => (args.innerType, args.content))
  reseals : ∀ keys keys' record capacity t content,
    unprotectRecordCall P false record capacity keys = (.ok (t, content), keys') →
    record.length = 5 + loadBe16 record 3 → content.length ≤ 16384 →
    zeroPadding record content ≤ 255 → ∀ room, record.length ≤ room →
    protectRecordCall P ⟨false, t, content, zeroPadding record content, room, true⟩ keys =
      (.ok record, keys')
  protectFails : ∀ keys keys' args e, protectRecordCall P args keys = (.error e, keys') →
    keys' = keys
  unprotectFails : ∀ keys keys' null record capacity e,
    unprotectRecordCall P null record capacity keys = (.error e, keys') → keys' = keys

/-- The stream accepts every write, and memory allocation succeeds. -/
structure Accepting {W : Type} (E : Env W) : Prop where
  sendAll : ∀ stream bytes w, ∃ w', E.sendAll stream bytes w = some (.ok (), w')
  malloc : ∀ n w, (E.malloc n w).1 = true

/-- `send` on these bytes returns `XT_OK` with the client still connected, and a peer with
equal keys reads exactly these bytes, as application data, from the records written. -/
def SendDelivers {P : Crypto} {W : Type} (E : Env W) (s : System P W) (data : Bytes) : Prop :=
  ∃ s' evs opened, send E false data s = some (.ok (), s') ∧
    s'.client.state = .connected ∧
    s'.trace = s.trace ++ evs ∧
    openAll P s.client.clientAppKeys (writtenRecords evs) = .ok opened ∧
    (∀ o ∈ opened, o.1 = contentApplicationData) ∧
    (opened.map Prod.snd).flatten = data

/-- The records written in a longer trace are those of its parts. -/
theorem writtenRecords_append (a b : List Event) :
    writtenRecords (a ++ b) = writtenRecords a ++ writtenRecords b :=
  List.filterMap_append

end XboxTls.Interface
