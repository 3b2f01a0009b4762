import XboxTls.Model.Authentication
import XboxTls.Model.Memory
import XboxTls.Model.ServerHello

/-!
# The handshake parsers and their memory

`parse_handshake_message`, the parsers of the server's messages and `parse_certificate_chain`,
statement by statement: with offsets and remaining counters as the source keeps them, and with
the output arrays at their full size.  A loop is given the number of rounds it may take and
faults when it wants more.
-/

set_option autoImplicit false

namespace XboxTls.Model

open Programs Programs.Guarded

/-! ## What the parsers fill in -/

/-- `HandshakeMessage`. -/
structure HandshakeMessageSpans where
  type : UInt8
  body : ByteSpan
  encoded : ByteSpan
  deriving DecidableEq, Repr

/-- `ServerHelloInfo`, with its arrays. -/
structure ServerHelloArrays where
  random : FixedBytes 32
  sessionId : FixedBytes 32
  sessionIdLength : ℕ
  cipherSuite : ℕ
  selectedVersion : ℕ
  group : NamedGroup
  keyShare : FixedBytes 65
  keyShareLength : ℕ
  helloRetryRequest : Bool
  cookie : FixedBytes 512
  cookieLength : ℕ
  deriving DecidableEq, Repr

/-- `ServerHelloInfo::ServerHelloInfo`. -/
def ServerHelloArrays.empty : ServerHelloArrays where
  random := .zero 32
  sessionId := .zero 32
  sessionIdLength := 0
  cipherSuite := 0
  selectedVersion := 0
  group := .x25519
  keyShare := .zero 65
  keyShareLength := 0
  helloRetryRequest := false
  cookie := .zero 512
  cookieLength := 0

/-- The locals of the extension loop of `parse_server_hello`, and what it fills in. -/
structure ServerHelloArraysScan where
  version : Bool
  keyshare : Bool
  out : ServerHelloArrays
  deriving DecidableEq, Repr

/-- `EncryptedExtensionsInfo`. -/
structure EncryptedExtensionsSpans where
  alpn : ByteSpan
  hasAlpn : Bool
  deriving DecidableEq, Repr

/-- `CertificateInfo`. -/
structure CertificateSpans where
  requestContext : ByteSpan
  certificateList : ByteSpan
  deriving DecidableEq, Repr

/-- `CertificateVerifyInfo`. -/
structure CertificateVerifySpans where
  algorithm : ℕ
  signature : ByteSpan
  deriving DecidableEq, Repr

/-- `CertificateChainEntry`. -/
structure CertificateChainEntrySpans where
  der : ByteSpan
  extensions : ByteSpan
  deriving DecidableEq, Repr

/-- `CertificateChainView`, with its array. -/
structure CertificateChainArray where
  entries : { l : List CertificateChainEntrySpans // l.length = 8 }
  count : ℕ
  deriving DecidableEq, Repr

/-- `CertificateChainView::CertificateChainView`. -/
def CertificateChainArray.empty : CertificateChainArray where
  entries := ⟨List.replicate 8 ⟨.null, .null⟩, List.length_replicate⟩
  count := 0

namespace Memory

variable (m : Memory)

/-! ## `handshake.cpp` -/

/-- `parse_handshake_message`.
SOURCE: src/tls/handshake.cpp:17-34 -/
def parseHandshakeMessage (input : ByteSpan) : Guarded Error (HandshakeMessageSpans × ℕ) := do
  refuseIf (input.data = none ∧ input.size ≠ 0) .invalidArgument
  refuseIf (input.size < 4) .bufferTooSmall
  let bodyLen ← m.loadBe24 input 1
  refuseIf (bodyLen > 0xFFFFFF) .badHandshake
  let total ← m.plus bodyLen 4
  refuseIf (input.size < total) .bufferTooSmall
  let type ← m.readAt input 0
  pure (⟨type, input.sub 4 bodyLen, input.sub 0 total⟩, total)

/-- One extension of `parse_encrypted_extensions`; `p` is the offset of its body.
SOURCE: src/tls/handshake.cpp:93-104 -/
def parseEncryptedExtension (body : ByteSpan) (p type len : ℕ) (out : EncryptedExtensionsSpans) :
    Guarded Error EncryptedExtensionsSpans :=
  if type = 0x0010 then do
    refuseIf (len < 3) .badHandshake
    let listLen ← m.loadBe16 body p
    let listEnd ← m.plus listLen 2
    refuseIf (listEnd ≠ len ∨ listLen < 1) .badHandshake
    let protoLen ← m.readAt body (p + 2)
    let protoEnd ← m.plus protoLen.toNat 1
    refuseIf (protoLen.toNat = 0 ∨ protoEnd ≠ listLen) .badHandshake
    pure ⟨body.sub (p + 3) protoLen.toNat, true⟩
  else pure out

/-- The loop of `parse_encrypted_extensions`; `p` is a pointer into the body, as an offset.
SOURCE: src/tls/handshake.cpp:84-107 -/
def parseEncryptedExtensionsLoop (body : ByteSpan) :
    ℕ → ℕ → ℕ → EncryptedExtensionsSpans → Guarded Error EncryptedExtensionsSpans
  | 0, _, _, _ => fault
  | fuel + 1, p, remain, out =>
    if remain = 0 then pure out
    else do
      refuseIf (remain < 4) .badHandshake
      let type ← m.loadBe16 body p
      let len ← m.loadBe16 body (p + 2)
      let remain ← minus remain 4
      refuseIf (len > remain) .badHandshake
      let out ← m.parseEncryptedExtension body (p + 4) type len out
      let remain ← minus remain len
      parseEncryptedExtensionsLoop body fuel (p + 4 + len) remain out

/-- `parse_encrypted_extensions`.
SOURCE: src/tls/handshake.cpp:73-109 -/
def parseEncryptedExtensions (msg : HandshakeMessageSpans) :
    Guarded Error EncryptedExtensionsSpans := do
  refuseIf (msg.type ≠ hsEncryptedExtensions ∨ msg.body.data = none ∨ msg.body.size < 2)
    .badHandshake
  let extensionsLen ← m.loadBe16 msg.body 0
  let remain ← minus msg.body.size 2
  refuseIf (extensionsLen ≠ remain) .badHandshake
  m.parseEncryptedExtensionsLoop msg.body (remain + 1) 2 remain ⟨.null, false⟩

/-- `parse_certificate`.
SOURCE: src/tls/handshake.cpp:111-133 -/
def parseCertificate (msg : HandshakeMessageSpans) : Guarded Error CertificateSpans := do
  refuseIf (msg.type ≠ hsCertificate ∨ msg.body.data = none ∨ msg.body.size < 4) .badHandshake
  let contextLen ← m.readAt msg.body 0
  let remain ← minus msg.body.size 1
  refuseIf (contextLen.toNat > remain) .badHandshake
  let requestContext := msg.body.sub 1 contextLen.toNat
  let p := 1 + contextLen.toNat
  let remain ← minus remain contextLen.toNat
  refuseIf (remain < 3) .badHandshake
  let listLen ← m.loadBe24 msg.body p
  let remain ← minus remain 3
  refuseIf (listLen ≠ remain) .badHandshake
  pure ⟨requestContext, msg.body.sub (p + 3) listLen⟩

/-- `parse_certificate_verify`.
SOURCE: src/tls/handshake.cpp:159-169 -/
def parseCertificateVerify (msg : HandshakeMessageSpans) :
    Guarded Error CertificateVerifySpans := do
  refuseIf (msg.type ≠ hsCertificateVerify ∨ msg.body.data = none ∨ msg.body.size < 4)
    .badHandshake
  let algorithm ← m.loadBe16 msg.body 0
  let sigLen ← m.loadBe16 msg.body 2
  let sigEnd ← m.plus sigLen 4
  refuseIf (sigLen = 0 ∨ sigEnd ≠ msg.body.size) .badHandshake
  pure ⟨algorithm, msg.body.sub 4 sigLen⟩

/-! ## `server_hello.cpp` -/

/-- One extension of `parse_server_hello`, with its body at `p`.
SOURCE: src/tls/server_hello.cpp:61-95 -/
def parseServerHelloExtension (h : ByteSpan) (p type len : ℕ) (st : ServerHelloArraysScan) :
    Guarded Error ServerHelloArraysScan :=
  let out := st.out
  if type = 0x002b then do
    refuseIf (len ≠ 2) .badHandshake
    let version ← m.loadBe16 h p
    pure { st with version := true, out := { out with selectedVersion := version } }
  else if type = 0x0033 then
    if out.helloRetryRequest then do
      refuseIf (len ≠ 2) .badHandshake
      let group ← m.loadBe16 h p
      pure { st with keyshare := true, out := { out with group := ⟨group⟩, keyShareLength := 0 } }
    else do
      refuseIf (len < 4) .badHandshake
      let group ← m.loadBe16 h p
      let kl ← m.loadBe16 h (p + 2)
      let klEnd ← m.plus kl 4
      refuseIf (klEnd ≠ len ∨ kl > 65) .badHandshake
      let share ← m.readBytes h (p + 4) kl
      let keyShare ← copyTo out.keyShare share
      pure { st with
        keyshare := true
        out := { out with group := ⟨group⟩, keyShare := keyShare, keyShareLength := kl } }
  else if type = 0x002c then do
    refuseIf (out.helloRetryRequest = false ∨ len < 2) .badHandshake
    let cl ← m.loadBe16 h p
    let clEnd ← m.plus cl 2
    refuseIf (clEnd ≠ len ∨ cl > 512) .badHandshake
    if cl ≠ 0 then do
      let bytes ← m.readBytes h (p + 2) cl
      let cookie ← copyTo out.cookie bytes
      pure { st with out := { out with cookie := cookie, cookieLength := cl } }
    else pure { st with out := { out with cookieLength := cl } }
  else pure st

/-- The extension loop of `parse_server_hello`; `stop` is its `end`.
SOURCE: src/tls/server_hello.cpp:54-97 -/
def parseServerHelloExtensions (h : ByteSpan) (stop : ℕ) :
    ℕ → ℕ → ServerHelloArraysScan → Guarded Error ServerHelloArraysScan
  | 0, _, _ => fault
  | fuel + 1, p, st =>
    if p < stop then do
      let headerEnd ← m.plus p 4
      refuseIf (headerEnd > stop) .badHandshake
      let type ← m.loadBe16 h p
      let len ← m.loadBe16 h (p + 2)
      let next ← m.plus headerEnd len
      refuseIf (next > stop) .badHandshake
      let st ← m.parseServerHelloExtension h headerEnd type len st
      parseServerHelloExtensions h stop fuel next st
    else pure st

/-- The checks after the loop.
SOURCE: src/tls/server_hello.cpp:98-109 -/
def checkServerHello (st : ServerHelloArraysScan) : Guarded Error ServerHelloArrays := do
  let out := st.out
  refuseIf (st.version = false ∨ out.selectedVersion ≠ 0x0304 ∨ st.keyshare = false) .badHandshake
  refuseIf (out.cipherSuite ≠ tlsAes128GcmSha256) .unsupported
  if out.helloRetryRequest then do
    refuseIf (out.group ≠ .x25519 ∧ out.group ≠ .secp256r1) .unsupported
    pure out
  else do
    let first ← getAt out.keyShare.val 0
    if out.group = .x25519 ∧ out.keyShareLength = 32 then pure out
    else if out.group = .secp256r1 ∧ out.keyShareLength = 65 ∧ first = 0x04 then pure out
    else refuse .unsupported

/-- The copy of the session id.
SOURCE: src/tls/server_hello.cpp:41-43 -/
def copySessionId (h : ByteSpan) (p sid : ℕ) (out : ServerHelloArrays) :
    Guarded Error ServerHelloArrays :=
  if sid ≠ 0 then do
    let bytes ← m.readBytes h p sid
    let sessionId ← copyTo out.sessionId bytes
    pure { out with sessionIdLength := sid, sessionId := sessionId }
  else pure { out with sessionIdLength := sid }

/-- `parse_server_hello`.
SOURCE: src/tls/server_hello.cpp:19-110 -/
def parseServerHello (h : ByteSpan) : Guarded Error ServerHelloArrays := do
  refuseIf (h.data = none) .invalidArgument
  refuseIf (h.size < 4) .badHandshake
  let type ← m.readAt h 0
  refuseIf (type ≠ hsServerHello) .badHandshake
  let body ← m.loadBe24 h 1
  -- `body` is an `xt_u32`, and so is the sum
  let total ← Guarded.plus (2 ^ 32) body 4
  refuseIf (total ≠ h.size ∨ body < 38) .badHandshake
  let legacy ← m.loadBe16 h 4
  refuseIf (legacy ≠ 0x0303) .badHandshake
  let p ← m.plus 4 2
  let bytes ← m.readBytes h p 32
  let random ← copyTo ServerHelloArrays.empty.random bytes
  let out := { ServerHelloArrays.empty with
    random := random, helloRetryRequest := random.val = hrrRandom }
  let p ← m.plus p 32
  refuseIf (p ≥ h.size) .badHandshake
  let sid ← m.readAt h p
  let p ← m.plus p 1
  refuseIf (sid.toNat > 32) .badHandshake
  let sidEnd ← m.plus p sid.toNat
  let fixedEnd ← m.plus sidEnd 5
  refuseIf (fixedEnd > h.size) .badHandshake
  let out ← m.copySessionId h p sid.toNat out
  let cipherSuite ← m.loadBe16 h sidEnd
  let out := { out with cipherSuite := cipherSuite }
  let p ← m.plus sidEnd 2
  let compression ← m.readAt h p
  let p ← m.plus p 1
  refuseIf (compression ≠ 0) .badHandshake
  let extTotal ← m.loadBe16 h p
  let p ← m.plus p 2
  let stop ← m.plus p extTotal
  refuseIf (stop ≠ h.size) .badHandshake
  let st ← m.parseServerHelloExtensions h stop (extTotal + 1) p ⟨false, false, out⟩
  checkServerHello st

/-! ## `authentication.cpp` -/

/-- The loop of `parse_certificate_chain`.
SOURCE: src/tls/authentication.cpp:19-38 -/
def parseCertificateChainLoop (s : ByteSpan) :
    ℕ → ℕ → CertificateChainArray → Guarded Error CertificateChainArray
  | 0, _, _ => fault
  | fuel + 1, p, out =>
    if p < s.size then do
      let left ← minus s.size p
      refuseIf (out.count ≥ 8 ∨ left < 3) .badHandshake
      let certLen ← m.loadBe24 s p
      let p ← m.plus p 3
      let left ← minus s.size p
      refuseIf (certLen = 0 ∨ certLen > left) .badHandshake
      let der := s.sub p certLen
      let p ← m.plus p certLen
      let left ← minus s.size p
      refuseIf (left < 2) .badHandshake
      let extLen ← m.loadBe16 s p
      let p ← m.plus p 2
      let left ← minus s.size p
      refuseIf (extLen > left) .badHandshake
      let entries ← store out.entries out.count ⟨der, s.sub p extLen⟩
      let p ← m.plus p extLen
      parseCertificateChainLoop s fuel p ⟨entries, out.count + 1⟩
    else pure out

/-- `parse_certificate_chain`.
SOURCE: src/tls/authentication.cpp:13-40 -/
def parseCertificateChain (info : CertificateSpans) : Guarded Error CertificateChainArray := do
  let s := info.certificateList
  let out ← m.parseCertificateChainLoop s (s.size + 1) 0 .empty
  refuseIf (out.count = 0) .verify
  pure out

end Memory

end XboxTls.Model
