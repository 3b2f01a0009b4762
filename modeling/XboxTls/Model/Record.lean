import Mathlib.Data.List.DropRight
import XboxTls.Model.Hkdf

/-!
# The record layer

`record.cpp` and `protected_record.cpp`: record headers, nonces, traffic keys and the
two functions that seal and open a TLS 1.3 record.  Keys that a function advances are
returned beside its result; a failing call returns no keys, since it leaves them as
they were.  The key derivations cannot fail (`deriveTrafficKeysSha256_isOk`,
`updateTrafficSecretSha256_isOk`), so no half-written keys are ever left behind.
-/

set_option autoImplicit false

namespace XboxTls.Model

/-! ## Content types (`tls13.h`) -/

def contentChangeCipherSpec : UInt8 := 20
def contentAlert : UInt8 := 21
def contentHandshake : UInt8 := 22
def contentApplicationData : UInt8 := 23

/-! ## Record headers and nonces -/

/-- `RecordHeader`. -/
structure RecordHeader where
  type : UInt8
  legacyVersion : ℕ
  length : ℕ
  deriving DecidableEq, Repr

/-- `parse_record_header`.
SOURCE: src/tls/record.cpp:7-18 -/
def parseRecordHeader (input : Bytes) : Except Error RecordHeader :=
  if input.length < 5 then .error .bufferTooSmall
  else if loadBe16 input 3 > 16640 then .error .badRecord
  else .ok ⟨byteAt input 0, loadBe16 input 1, loadBe16 input 3⟩

/-- The eight bytes of a sequence number, most significant first. -/
def be64 (v : ℕ) : Bytes :=
  [UInt8.ofNat (v / 2 ^ 56), UInt8.ofNat (v / 2 ^ 48), UInt8.ofNat (v / 2 ^ 40),
    UInt8.ofNat (v / 2 ^ 32), UInt8.ofNat (v / 2 ^ 24), UInt8.ofNat (v / 2 ^ 16),
    UInt8.ofNat (v / 2 ^ 8), UInt8.ofNat v]

/-- `make_record_nonce`: the last eight bytes of the iv are masked with the sequence
number.
SOURCE: src/tls/record.cpp:20-29 -/
def makeRecordNonce (iv : FixedBytes 12) (seq : UInt64) : FixedBytes 12 :=
  ⟨iv.val.take 4 ++ List.zipWith (· ^^^ ·) (iv.val.drop 4) (be64 seq.toNat), by
    simp [iv.property, be64]⟩

/-! ## Traffic keys -/

/-- `TrafficKeysAes128Gcm`. -/
structure TrafficKeys where
  key : FixedBytes 16
  iv : FixedBytes 12
  sequenceNumber : UInt64
  deriving DecidableEq, Repr

/-- The keys after construction or `memset`. -/
def TrafficKeys.zero : TrafficKeys := ⟨FixedBytes.zero 16, FixedBytes.zero 12, 0⟩

/-- `++keys->sequence_number`. -/
def TrafficKeys.advance (keys : TrafficKeys) : TrafficKeys :=
  { keys with sequenceNumber := keys.sequenceNumber + 1 }

/-- The nonce of the next record under these keys. -/
def TrafficKeys.nonce (keys : TrafficKeys) : FixedBytes 12 :=
  makeRecordNonce keys.iv keys.sequenceNumber

/-- The key stays. -/
@[simp] theorem TrafficKeys.advance_key (keys : TrafficKeys) : keys.advance.key = keys.key := rfl

/-- The iv stays. -/
@[simp] theorem TrafficKeys.advance_iv (keys : TrafficKeys) : keys.advance.iv = keys.iv := rfl

/-- The sequence number counts one record. -/
@[simp] theorem TrafficKeys.advance_sequenceNumber (keys : TrafficKeys) :
    keys.advance.sequenceNumber = keys.sequenceNumber + 1 := rfl

variable (P : Crypto)

/-- `derive_traffic_keys_sha256`.
SOURCE: src/tls/protected_record.cpp:16-28 -/
def deriveTrafficKeysSha256 (secret : FixedBytes 32) : Except Error TrafficKeys := do
  let key ← hkdfExpandLabelSha256 P secret.val (ascii ['k', 'e', 'y']) [] 16
  let iv ← hkdfExpandLabelSha256 P secret.val (ascii ['i', 'v']) [] 12
  pure ⟨key, iv, 0⟩

/-- `update_traffic_secret_sha256`: the next secret and the keys derived from it.
SOURCE: src/tls/key_schedule.cpp:57-70 -/
def updateTrafficSecretSha256 (secret : FixedBytes 32) :
    Except Error (FixedBytes 32 × TrafficKeys) := do
  let next ← hkdfExpandLabelSha256 P secret.val
    (ascii ['t', 'r', 'a', 'f', 'f', 'i', 'c', ' ', 'u', 'p', 'd']) [] 32
  let keys ← deriveTrafficKeysSha256 P next
  pure (next, keys)

/-- Traffic keys can always be derived, and start at record zero. -/
theorem deriveTrafficKeysSha256_isOk (secret : FixedBytes 32) :
    ∃ keys, deriveTrafficKeysSha256 P secret = .ok keys ∧ keys.sequenceNumber = 0 := by
  obtain ⟨key, hkey⟩ := hkdfExpandLabelSha256_isOk P secret.val (ascii ['k', 'e', 'y']) [] 16
    (by decide) (by decide) (by decide)
  obtain ⟨iv, hiv⟩ := hkdfExpandLabelSha256_isOk P secret.val (ascii ['i', 'v']) [] 12
    (by decide) (by decide) (by decide)
  refine ⟨⟨key, iv, 0⟩, ?_, rfl⟩
  unfold deriveTrafficKeysSha256
  rw [hkey, hiv]
  rfl

/-- A traffic secret can always be updated, and its keys start at record zero. -/
theorem updateTrafficSecretSha256_isOk (secret : FixedBytes 32) :
    ∃ next keys, updateTrafficSecretSha256 P secret = .ok (next, keys) ∧
      deriveTrafficKeysSha256 P next = .ok keys ∧ keys.sequenceNumber = 0 := by
  obtain ⟨next, hnext⟩ := hkdfExpandLabelSha256_isOk P secret.val
    (ascii ['t', 'r', 'a', 'f', 'f', 'i', 'c', ' ', 'u', 'p', 'd']) [] 32
    (by decide) (by decide) (by decide)
  obtain ⟨keys, hkeys, hseq⟩ := deriveTrafficKeysSha256_isOk P next
  refine ⟨next, keys, ?_, hkeys, hseq⟩
  unfold updateTrafficSecretSha256
  rw [hnext]
  show (deriveTrafficKeysSha256 P next >>= fun keys => pure (next, keys)) = _
  rw [hkeys]
  rfl

/-! ## Sealing and opening -/

/-- `TLSInnerPlaintext`: the content, its type and the zero padding. -/
def innerPlaintext (innerType : UInt8) (content : Bytes) (padding : ℕ) : Bytes :=
  content ++ [innerType] ++ List.replicate padding 0

/-- The header of a protected record with a fragment of `fragLen` bytes. -/
def protectedHeader (fragLen : ℕ) : Bytes :=
  [contentApplicationData, 0x03, 0x03] ++ storeBe16 fragLen

/-- The record that `aes128_gcm_encrypt` fills in, without the size checks. -/
def sealedRecord (keys : TrafficKeys) (innerType : UInt8) (content : Bytes) (padding : ℕ) :
    Bytes :=
  let inner := innerPlaintext innerType content padding
  let header := protectedHeader (inner.length + 16)
  let enc := P.aes128GcmEncrypt keys.key keys.nonce header inner
  header ++ enc.1 ++ enc.2.val

/-- The checks of `protect_record_aes128_gcm` before its `malloc`.
SOURCE: src/tls/protected_record.cpp:32-41 -/
def checkProtect (innerType : UInt8) (content : Bytes) (padding capacity : ℕ) :
    Except Error Unit :=
  let innerLen := content.length + 1 + padding
  let fragLen := innerLen + 16
  if innerType < 20 ∨ innerType > 23 then .error .invalidArgument
  else if content.length > 16384 ∨ padding > 255 then .error .badRecord
  else if fragLen > 16640 then .error .badRecord
  else if capacity < 5 + fragLen then .error .bufferTooSmall
  else .ok ()

/-- `protect_record_aes128_gcm` into a buffer of `capacity` bytes; `memory` is whether
`malloc` succeeds.
SOURCE: src/tls/protected_record.cpp:30-71 -/
def protectRecordAes128Gcm (keys : TrafficKeys) (innerType : UInt8) (content : Bytes)
    (padding capacity : ℕ) (memory : Bool) : Except Error (Bytes × TrafficKeys) := do
  checkProtect innerType content padding capacity
  if memory = false then .error .crypto
  else .ok (sealedRecord P keys innerType content padding, keys.advance)

/-- The first half of `unprotect_record_aes128_gcm`, up to the decrypted bytes.
SOURCE: src/tls/protected_record.cpp:77-95 -/
def decryptRecord (keys : TrafficKeys) (record : Bytes) (capacity : ℕ) : Except Error Bytes := do
  let h ← parseRecordHeader record
  if h.type ≠ contentApplicationData ∨ h.legacyVersion ≠ 0x0303 then .error .badRecord
  else if record.length < 5 + h.length ∨ h.length < 17 then .error .badRecord
  else if capacity < h.length - 16 then .error .bufferTooSmall
  else
    let ctLen := h.length - 16
    P.aes128GcmDecrypt keys.key keys.nonce (slice record 0 5) (slice record 5 ctLen)
      (FixedBytes.ofBytes 16 (slice record (5 + ctLen) 16))

/-- The decrypted bytes without the zeros at their end. -/
def stripZeros (plaintext : Bytes) : Bytes := plaintext.rdropWhile (· = 0)

/-- The second half of `unprotect_record_aes128_gcm`: the content and its type.
SOURCE: src/tls/protected_record.cpp:96-106 -/
def splitInner (plaintext : Bytes) : Except Error (UInt8 × Bytes) :=
  let stripped := stripZeros plaintext
  let t := stripped.getLastD 0
  if stripped.length = 0 then .error .badRecord
  else if t < 20 ∨ t > 23 then .error .badRecord
  else .ok (t, stripped.dropLast)

/-- What `unprotect_record_aes128_gcm` hands back. -/
structure OpenedRecord where
  innerType : UInt8
  content : Bytes
  keys : TrafficKeys
  deriving DecidableEq, Repr

/-- `unprotect_record_aes128_gcm` into a buffer of `capacity` bytes.
SOURCE: src/tls/protected_record.cpp:73-109 -/
def unprotectRecordAes128Gcm (keys : TrafficKeys) (record : Bytes) (capacity : ℕ) :
    Except Error OpenedRecord := do
  let plaintext ← decryptRecord P keys record capacity
  let (t, content) ← splitInner plaintext
  pure ⟨t, content, keys.advance⟩

/-! ## The two functions with the keys that they leave behind -/

/-- The arguments of `protect_record_aes128_gcm` besides the keys; `null` is whether one of the
pointers is null that the function refuses. -/
structure ProtectArgs where
  null : Bool
  innerType : UInt8
  content : Bytes
  padding : ℕ
  capacity : ℕ
  memory : Bool
  deriving DecidableEq, Repr

/-- `protect_record_aes128_gcm` with the keys as the call leaves them.
SOURCE: src/tls/protected_record.cpp:30-71 -/
def protectRecordCall (args : ProtectArgs) (keys : TrafficKeys) :
    Except Error Bytes × TrafficKeys :=
  let innerLen := args.content.length + 1 + args.padding
  let fragLen := innerLen + 16
  if args.null then (.error .invalidArgument, keys)
  else if args.innerType < 20 ∨ args.innerType > 23 then (.error .invalidArgument, keys)
  else if args.content.length > 16384 ∨ args.padding > 255 then (.error .badRecord, keys)
  else if fragLen > 16640 then (.error .badRecord, keys)
  else if args.capacity < 5 + fragLen then (.error .bufferTooSmall, keys)
  else if args.memory = false then (.error .crypto, keys)
  else
    let header := protectedHeader fragLen
    let enc := P.aes128GcmEncrypt keys.key keys.nonce header
      (innerPlaintext args.innerType args.content args.padding)
    (.ok (header ++ enc.1 ++ enc.2.val), keys.advance)

/-- `unprotect_record_aes128_gcm` with the keys as the call leaves them.
SOURCE: src/tls/protected_record.cpp:73-109 -/
def unprotectRecordCall (null : Bool) (record : Bytes) (capacity : ℕ) (keys : TrafficKeys) :
    Except Error (UInt8 × Bytes) × TrafficKeys :=
  if null then (.error .invalidArgument, keys)
  else match parseRecordHeader record with
    | .error e => (.error e, keys)
    | .ok h =>
      let ctLen := h.length - 16
      if h.type ≠ contentApplicationData ∨ h.legacyVersion ≠ 0x0303 then (.error .badRecord, keys)
      else if record.length < 5 + h.length ∨ h.length < 17 then (.error .badRecord, keys)
      else if capacity < ctLen then (.error .bufferTooSmall, keys)
      else match P.aes128GcmDecrypt keys.key keys.nonce (slice record 0 5) (slice record 5 ctLen)
          (FixedBytes.ofBytes 16 (slice record (5 + ctLen) 16)) with
        | .error e => (.error e, keys)
        | .ok plaintext =>
          let stripped := stripZeros plaintext
          let t := stripped.getLastD 0
          if stripped.length = 0 then (.error .badRecord, keys)
          else if t < 20 ∨ t > 23 then (.error .badRecord, keys)
          else (.ok (t, stripped.dropLast), keys.advance)

end XboxTls.Model
