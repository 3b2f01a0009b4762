import XboxTls.Programs.Presentation
import XboxTls.Model.ClientHello

/-!
# The grammar of a ClientHello

Section 4.1.2 of RFC 8446 and the extensions that the client sends, as decoders: every
length is checked against what it covers, the bounds of each vector are checked, and a
decoded string is used up to its end.  The parameters are encoded by the same grammar.
-/

set_option autoImplicit false

namespace XboxTls.Interface

open Programs.Decoder XboxTls.Model

/-! ## What is decoded -/

/-- An extension of a ClientHello. -/
inductive HelloExtension where
  | serverName (names : List Bytes)
  | supportedGroups (groups : List ℕ)
  | signatureAlgorithms (algorithms : List ℕ)
  | alpn (names : List Bytes)
  | supportedVersions (versions : List ℕ)
  | cookie (value : Bytes)
  | keyShare (shares : List (ℕ × Bytes))
  deriving DecidableEq, Repr

/-- `ExtensionType`. -/
def HelloExtension.type : HelloExtension → ℕ
  | .serverName _ => 0
  | .supportedGroups _ => 10
  | .signatureAlgorithms _ => 13
  | .alpn _ => 16
  | .supportedVersions _ => 43
  | .cookie _ => 44
  | .keyShare _ => 51

/-- `ClientHello`. -/
structure ClientHello where
  legacyVersion : ℕ
  random : Bytes
  legacySessionId : Bytes
  cipherSuites : List ℕ
  legacyCompressionMethods : List ℕ
  extensions : List HelloExtension
  deriving DecidableEq, Repr

/-! ## The decoders -/

/-- `ServerName`: a host name, the only type there is. -/
def serverName : Programs.Decoder Bytes := do
  let nameType ← uint 1
  require (nameType = 0)
  bounded 2 1 65535

/-- `KeyShareEntry`. -/
def keyShareEntry : Programs.Decoder (ℕ × Bytes) := do
  let group ← uint 2
  let keyExchange ← bounded 2 1 65535
  pure (group, keyExchange)

/-- The data of an extension of this type. -/
def extensionData (type : ℕ) (data : Bytes) : Option HelloExtension :=
  match type with
  | 0 => (whole (vector 2 1 65535 serverName) data).map .serverName
  | 10 => (whole (vector 2 2 65535 (uint 2)) data).map .supportedGroups
  | 13 => (whole (vector 2 2 65534 (uint 2)) data).map .signatureAlgorithms
  | 16 => (whole (vector 2 2 65535 (bounded 1 1 255)) data).map .alpn
  | 43 => (whole (vector 1 2 254 (uint 2)) data).map .supportedVersions
  | 44 => (whole (bounded 2 1 65535) data).map .cookie
  | 51 => (whole (vector 2 0 65535 keyShareEntry) data).map .keyShare
  | _ => none

/-- `Extension`. -/
def helloExtension : Programs.Decoder HelloExtension := do
  let type ← uint 2
  let data ← bounded 2 0 65535
  ofOption (extensionData type data)

/-- `ClientHello`. -/
def clientHelloBody : Programs.Decoder ClientHello := do
  let legacyVersion ← uint 2
  let random ← raw 32
  let legacySessionId ← bounded 1 0 32
  let cipherSuites ← vector 2 2 65534 (uint 2)
  let compressionMethods ← vector 1 1 255 (uint 1)
  let extensions ← vector 2 8 65535 helloExtension
  pure ⟨legacyVersion, random, legacySessionId, cipherSuites, compressionMethods, extensions⟩

/-- `Handshake` with a ClientHello in it. -/
def clientHelloMessage : Programs.Decoder ClientHello := do
  let msgType ← uint 1
  require (msgType = 1)
  let body ← bounded 3 0 0xffffff
  ofOption (whole clientHelloBody body)

/-- A byte string that is one ClientHello. -/
def decodeClientHello (b : Bytes) : Option ClientHello := whole clientHelloMessage b

/-! ## What the parameters ask for -/

/-- The protocols of a comma-separated list; a comma at its end adds none. -/
def offeredProtocols (alpn : Bytes) : List Bytes :=
  let pieces := alpn.splitOn (UInt8.ofNat 44)
  if pieces.getLast? = some [] then pieces.dropLast else pieces

/-- The extensions that the parameters ask for. -/
def extensionsOf (p : ClientHelloParams) : List HelloExtension :=
  (match p.serverName with
    | some host => if host.val = [] then [] else [.serverName [host.val]]
    | none => []) ++
  [.supportedVersions [0x0304],
    .supportedGroups (if p.group = .x25519 then [0x001d, 0x0017] else [p.group.code, 0x001d]),
    .signatureAlgorithms [0x0804, 0x0809, 0x0403],
    .keyShare [(p.group.code, p.keyShare)]] ++
  (if p.cookie = [] then [] else [.cookie p.cookie]) ++
  (match p.alpn with
    | some alpn => if alpn.val = [] then [] else [.alpn (offeredProtocols alpn.val)]
    | none => [])

/-- The ClientHello that the parameters ask for. -/
def helloOf (p : ClientHelloParams) : ClientHello where
  legacyVersion := 0x0303
  random := p.random32
  legacySessionId := p.sessionId
  cipherSuites := [0x1301]
  legacyCompressionMethods := [0]
  extensions := extensionsOf p

/-! ## The encoding -/

/-- The data of an extension. -/
def encodeData : HelloExtension → Bytes
  | .serverName names => prefixed 2 (names.flatMap fun name => uintBytes 1 0 ++ prefixed 2 name)
  | .supportedGroups groups => prefixed 2 (groups.flatMap (uintBytes 2))
  | .signatureAlgorithms algorithms => prefixed 2 (algorithms.flatMap (uintBytes 2))
  | .alpn names => prefixed 2 (names.flatMap (prefixed 1))
  | .supportedVersions versions => prefixed 1 (versions.flatMap (uintBytes 2))
  | .cookie value => prefixed 2 value
  | .keyShare shares =>
    prefixed 2 (shares.flatMap fun share => uintBytes 2 share.1 ++ prefixed 2 share.2)

/-- An extension. -/
def encodeExtension (e : HelloExtension) : Bytes :=
  uintBytes 2 e.type ++ prefixed 2 (encodeData e)

/-- The fields of a ClientHello before its extensions. -/
def encodeFields (p : ClientHelloParams) : Bytes :=
  uintBytes 2 0x0303 ++ (p.random32 ++ (prefixed 1 p.sessionId ++
    (prefixed 2 (uintBytes 2 0x1301) ++ prefixed 1 (uintBytes 1 0))))

/-- The body of the message that the parameters ask for. -/
def encodeBody (p : ClientHelloParams) : Bytes :=
  encodeFields p ++ prefixed 2 ((extensionsOf p).flatMap encodeExtension)

/-- The message that the parameters ask for. -/
def encodeHello (p : ClientHelloParams) : Bytes := uintBytes 1 1 ++ prefixed 3 (encodeBody p)

end XboxTls.Interface
