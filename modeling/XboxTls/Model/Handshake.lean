import XboxTls.Model.KeySchedule

/-!
# Handshake messages (`handshake.cpp`)

Message framing, the deframer that reassembles messages from record contents, the
parsers of the server's encrypted flight and the Finished computations.  A span that
the source points into its input is the list of the bytes it covers.  The deframer
carries the bound of its storage, so no operation can build one that overflows.
-/

set_option autoImplicit false

namespace XboxTls.Model

/-! ## Handshake types (`tls13.h`) -/

def hsClientHello : UInt8 := 1
def hsServerHello : UInt8 := 2
def hsNewSessionTicket : UInt8 := 4
def hsEncryptedExtensions : UInt8 := 8
def hsCertificate : UInt8 := 11
def hsCertificateVerify : UInt8 := 15
def hsFinished : UInt8 := 20
def hsKeyUpdate : UInt8 := 24

/-! ## Framing -/

/-- `HandshakeMessage`. -/
structure HandshakeMessage where
  type : UInt8
  body : Bytes
  encoded : Bytes
  deriving DecidableEq, Repr

/-- `parse_handshake_message`: the message and the bytes it takes.
SOURCE: src/tls/handshake.cpp:17-34 -/
def parseHandshakeMessage (input : Bytes) : Except Error (HandshakeMessage × ℕ) :=
  if input.length < 4 then .error .bufferTooSmall
  else
    let bodyLen := loadBe24 input 1
    if bodyLen > 0xFFFFFF then .error .badHandshake
    else
      let total := bodyLen + 4
      if input.length < total then .error .bufferTooSmall
      else .ok (⟨byteAt input 0, slice input 4 bodyLen, input.take total⟩, total)

/-- `HandshakeDeframer`: `buffer` is the part of the storage that is in use. -/
structure HandshakeDeframer where
  capacity : ℕ
  buffer : Bytes
  bound : buffer.length ≤ capacity

namespace HandshakeDeframer

/-- A deframer over a storage of `n` bytes. -/
def empty (n : ℕ) : HandshakeDeframer := ⟨n, [], Nat.zero_le n⟩

/-- `HandshakeDeframer::reset`. -/
def reset (d : HandshakeDeframer) : HandshakeDeframer := ⟨d.capacity, [], Nat.zero_le _⟩

/-- `HandshakeDeframer::append`.
SOURCE: src/tls/handshake.cpp:45-54 -/
def append (d : HandshakeDeframer) (bytes : Bytes) : Except Error HandshakeDeframer :=
  if h : bytes.length > d.capacity - d.buffer.length then .error .bufferTooSmall
  else .ok ⟨d.capacity, d.buffer ++ bytes, by
    have := d.bound
    rw [List.length_append]
    omega⟩

/-- `HandshakeDeframer::peek`.
SOURCE: src/tls/handshake.cpp:56-59 -/
def peek (d : HandshakeDeframer) : Except Error HandshakeMessage := do
  let m ← parseHandshakeMessage d.buffer
  pure m.1

/-- `HandshakeDeframer::consume`.
SOURCE: src/tls/handshake.cpp:61-71 -/
def consume (d : HandshakeDeframer) : Except Error HandshakeDeframer := do
  let m ← parseHandshakeMessage d.buffer
  pure ⟨d.capacity, d.buffer.drop m.2, by
    have := d.bound
    rw [List.length_drop]
    omega⟩

end HandshakeDeframer

/-! ## The messages of the encrypted flight -/

/-- `EncryptedExtensionsInfo`; `alpn` is `none` while `has_alpn` is false. -/
structure EncryptedExtensionsInfo where
  alpn : Option Bytes
  deriving DecidableEq, Repr

/-- The extension loop of `parse_encrypted_extensions`; `p` is what `remain` counts, and
the fuel is its length at the start, of which every round takes at least four bytes.
SOURCE: src/tls/handshake.cpp:84-107 -/
def parseEncryptedExtensionsLoop :
    ℕ → Bytes → EncryptedExtensionsInfo → Except Error EncryptedExtensionsInfo
  | 0, _, out => .ok out
  | fuel + 1, p, out =>
    if p.length = 0 then .ok out
    else if p.length < 4 then .error .badHandshake
    else
      let type := loadBe16 p 0
      let len := loadBe16 p 2
      let rest := p.drop 4
      if len > rest.length then .error .badHandshake
      else if type = 0x0010 then
        let listLen := loadBe16 rest 0
        let protoLen := (byteAt rest 2).toNat
        if len < 3 then .error .badHandshake
        else if listLen + 2 ≠ len ∨ listLen < 1 then .error .badHandshake
        else if protoLen = 0 ∨ protoLen + 1 ≠ listLen then .error .badHandshake
        else parseEncryptedExtensionsLoop fuel (rest.drop len) ⟨some (slice rest 3 protoLen)⟩
      else parseEncryptedExtensionsLoop fuel (rest.drop len) out

/-- `parse_encrypted_extensions`.
SOURCE: src/tls/handshake.cpp:73-109 -/
def parseEncryptedExtensions (msg : HandshakeMessage) : Except Error EncryptedExtensionsInfo :=
  if msg.type ≠ hsEncryptedExtensions ∨ msg.body.length < 2 then .error .badHandshake
  else
    let rest := msg.body.drop 2
    if loadBe16 msg.body 0 ≠ rest.length then .error .badHandshake
    else parseEncryptedExtensionsLoop rest.length rest ⟨none⟩

/-- `CertificateInfo`. -/
structure CertificateInfo where
  requestContext : Bytes
  certificateList : Bytes
  deriving DecidableEq, Repr

/-- `parse_certificate`.
SOURCE: src/tls/handshake.cpp:111-133 -/
def parseCertificate (msg : HandshakeMessage) : Except Error CertificateInfo :=
  if msg.type ≠ hsCertificate ∨ msg.body.length < 4 then .error .badHandshake
  else
    let contextLen := (byteAt msg.body 0).toNat
    let p := msg.body.drop 1
    if contextLen > p.length then .error .badHandshake
    else
      let q := p.drop contextLen
      if q.length < 3 then .error .badHandshake
      else
        let list := q.drop 3
        if loadBe24 q 0 ≠ list.length then .error .badHandshake
        else .ok ⟨p.take contextLen, list⟩

/-- `first_certificate_der`: the first certificate of a list and its extensions.
SOURCE: src/tls/handshake.cpp:135-157 -/
def firstCertificateDer (info : CertificateInfo) : Except Error (Bytes × Bytes) :=
  if info.certificateList.length < 5 then .error .badHandshake
  else
    let certLen := loadBe24 info.certificateList 0
    let p := info.certificateList.drop 3
    if certLen = 0 ∨ certLen > p.length then .error .badHandshake
    else
      let q := p.drop certLen
      if q.length < 2 then .error .badHandshake
      else
        let extLen := loadBe16 q 0
        let r := q.drop 2
        if extLen > r.length then .error .badHandshake
        else .ok (p.take certLen, r.take extLen)

/-- `CertificateVerifyInfo`. -/
structure CertificateVerifyInfo where
  algorithm : ℕ
  signature : Bytes
  deriving DecidableEq, Repr

/-- `parse_certificate_verify`.
SOURCE: src/tls/handshake.cpp:159-169 -/
def parseCertificateVerify (msg : HandshakeMessage) : Except Error CertificateVerifyInfo :=
  if msg.type ≠ hsCertificateVerify ∨ msg.body.length < 4 then .error .badHandshake
  else
    let sigLen := loadBe16 msg.body 2
    if sigLen = 0 ∨ sigLen + 4 ≠ msg.body.length then .error .badHandshake
    else .ok ⟨loadBe16 msg.body 0, slice msg.body 4 sigLen⟩

/-! ## Finished -/

variable (P : Crypto)

/-- `finished_key_sha256`.
SOURCE: src/tls/handshake.cpp:171-176 -/
def finishedKeySha256 (trafficSecret : FixedBytes 32) : Except Error (FixedBytes 32) :=
  hkdfExpandLabelSha256 P trafficSecret.val
    (ascii ['f', 'i', 'n', 'i', 's', 'h', 'e', 'd']) [] 32

/-- `compute_finished_verify_data_sha256`.
SOURCE: src/tls/handshake.cpp:178-189 -/
def computeFinishedVerifyDataSha256 (trafficSecret th : FixedBytes 32) :
    Except Error (FixedBytes 32) := do
  let finishedKey ← finishedKeySha256 P trafficSecret
  pure (hmacSha256 P finishedKey.val th.val)

/-- `constant_time_equal` on two spans of one length.
SOURCE: src/tls/handshake.cpp:191-196 -/
def constantTimeEqual (a b : Bytes) : Bool :=
  (List.zipWith (· ^^^ ·) a b).foldl (· ||| ·) 0 = 0

/-- `verify_finished_sha256`.
SOURCE: src/tls/handshake.cpp:198-209 -/
def verifyFinishedSha256 (trafficSecret th : FixedBytes 32) (msg : HandshakeMessage) :
    Except Error Unit :=
  if msg.type ≠ hsFinished ∨ msg.body.length ≠ 32 then .error .badHandshake
  else do
    let expected ← computeFinishedVerifyDataSha256 P trafficSecret th
    if constantTimeEqual expected.val msg.body then pure () else .error .verify

/-- `build_finished_sha256` into a buffer of `capacity` bytes.
SOURCE: src/tls/handshake.cpp:211-226 -/
def buildFinishedSha256 (trafficSecret th : FixedBytes 32) (capacity : ℕ) :
    Except Error Bytes :=
  if capacity < 36 then .error .bufferTooSmall
  else do
    let verifyData ← computeFinishedVerifyDataSha256 P trafficSecret th
    pure ([hsFinished, 0, 0, 32] ++ verifyData.val)

/-- The verify data can always be computed. -/
theorem computeFinishedVerifyDataSha256_isOk (trafficSecret th : FixedBytes 32) :
    ∃ verifyData, computeFinishedVerifyDataSha256 P trafficSecret th = .ok verifyData := by
  obtain ⟨finishedKey, hkey⟩ := hkdfExpandLabelSha256_isOk P trafficSecret.val
    (ascii ['f', 'i', 'n', 'i', 's', 'h', 'e', 'd']) [] 32 (by decide) (by decide) (by decide)
  refine ⟨hmacSha256 P finishedKey.val th.val, ?_⟩
  unfold computeFinishedVerifyDataSha256 finishedKeySha256
  rw [hkey]
  rfl

/-- The Finished that was built verifies. -/
theorem verifyFinishedSha256_of_compute (trafficSecret th verifyData : FixedBytes 32)
    (encoded : Bytes)
    (h : computeFinishedVerifyDataSha256 P trafficSecret th = .ok verifyData) :
    verifyFinishedSha256 P trafficSecret th ⟨hsFinished, verifyData.val, encoded⟩ = .ok () := by
  have hequal : constantTimeEqual verifyData.val verifyData.val = true := by
    unfold constantTimeEqual
    exact decide_eq_true ((foldl_or_xor_eq_zero_iff _ _ rfl).mpr rfl)
  unfold verifyFinishedSha256
  rw [if_neg (by simp [verifyData.property]), h]
  show (if constantTimeEqual verifyData.val verifyData.val then _ else _) = _
  rw [if_pos hequal]
  rfl

end XboxTls.Model
