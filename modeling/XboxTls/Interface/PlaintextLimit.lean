import XboxTls.Model.Api

/-!
# The plaintext limit of TLS 1.3

A TLSInnerPlaintext has at most `2 ^ 14 + 1` bytes.  `SealsTooMuch` and `OpensTooMuch` are the
calls of the record layer that go beyond it, and `StaysWithin` keeps `send` from the first.
-/

set_option autoImplicit false

namespace XboxTls.Interface

open XboxTls.Model

/-! ## The limit -/

/-- The most bytes of content, type and padding. -/
def innerLimit : ℕ := 2 ^ 14 + 1

/-- The bytes of the TLSInnerPlaintext in a protected record: the header counts the tag too. -/
def innerLength (record : Bytes) : ℕ := loadBe16 record 3 - 16

/-- If the call seals a record, it is within the limit. -/
def SealsWithin (P : Crypto) (args : ProtectArgs) (keys : TrafficKeys) : Prop :=
  ∀ record keys', protectRecordCall P args keys = (.ok record, keys') →
    innerLength record ≤ innerLimit

/-- If the call opens the record, it is within the limit, and so is its content. -/
def OpensWithin (P : Crypto) (null : Bool) (record : Bytes) (capacity : ℕ)
    (keys : TrafficKeys) : Prop :=
  ∀ t content keys', unprotectRecordCall P null record capacity keys = (.ok (t, content), keys') →
    innerLength record ≤ innerLimit ∧ content.length ≤ 2 ^ 14

/-- The records that were sealed are within the limit. -/
def SealedWithin (evs : List Event) : Prop :=
  ∀ slot keys record, .sealed slot keys record ∈ evs → innerLength record ≤ innerLimit

/-! ## The calls that go beyond it -/

/-- The arguments pass every check, and memory is there. -/
structure Seals (args : ProtectArgs) : Prop where
  null : args.null = false
  typeLow : 20 ≤ args.innerType
  typeHigh : args.innerType ≤ 23
  content : args.content.length ≤ 16384
  padding : args.padding ≤ 255
  fragment : args.content.length + 1 + args.padding + 16 ≤ 16640
  room : 5 + (args.content.length + 1 + args.padding + 16) ≤ args.capacity
  memory : args.memory = true

/-- Content and padding each pass, and together they are too long. -/
def SealsTooMuch (args : ProtectArgs) : Prop :=
  Seals args ∧ 2 ^ 14 < args.content.length + args.padding

/-- The record holds a plaintext that is too long and that a fragment has room for, sealed under
these keys; anything may follow it. -/
def OpensTooMuch (P : Crypto) (null : Bool) (record : Bytes) (capacity : ℕ)
    (keys : TrafficKeys) : Prop :=
  null = false ∧ ∃ t content padding rest, 20 ≤ t ∧ t ≤ 23 ∧
    2 ^ 14 < content.length + padding ∧ content.length + 1 + padding + 16 ≤ 16640 ∧
    content.length + 1 + padding ≤ capacity ∧
    record = sealedRecord P keys t content padding ++ rest

/-- Data and padding fit into one record, or the first part of the data is longer than
`protect_record_aes128_gcm` allows and nothing is sealed. -/
def SendStaysWithin (config : ClientConfig) (data : Bytes) : Prop :=
  data.length + min config.applicationRecordPadding 255 ≤ 2 ^ 14 ∨
    (2 ^ 14 < data.length ∧ config.applicationRecordPadding < 239)

/-- A step that is a `send` on a connected client stays within the limit. -/
def StaysWithin {P : Crypto} {W : Type} (step : Step P W) : Prop :=
  ∀ data, step.call = .send false data → step.before.client.state = .connected →
    SendStaysWithin step.before.client.config data

end XboxTls.Interface
