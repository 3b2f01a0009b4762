import XboxTls.Model.ServerHello

/-!
# The grammar of a ServerHello

A ServerHello or HelloRetryRequest by its parts, of which the extensions are a list of types
with bodies; how the parts are written, and what a message of the supported profile says.
The extensions of EncryptedExtensions are written in the same way.
-/

set_option autoImplicit false

namespace XboxTls.Interface

open XboxTls.Model

/-! ## Extensions -/

/-- `Extension`: a type and the data, each with a length field of two bytes. -/
structure RawExtension where
  type : ℕ
  body : Bytes
  typeBound : type < 65536
  bodyBound : body.length < 65536

namespace RawExtension

/-- An extension as it is sent. -/
def encode (e : RawExtension) : Bytes := storeBe16 e.type ++ storeBe16 e.body.length ++ e.body

/-- Extensions one after the other. -/
def encodeAll (es : List RawExtension) : Bytes := es.flatMap encode

/-- The types of the extensions, in order. -/
def types (es : List RawExtension) : List ℕ := es.map type

/-- The data of the last extension of this type. -/
def lastBody (t : ℕ) (es : List RawExtension) : Option Bytes :=
  ((es.filter fun e => e.type = t).getLast?).map body

end RawExtension

/-- The data of `key_share` in a ServerHello: the group and the share. -/
def keyShareBody (group : NamedGroup) (share : Bytes) : Bytes :=
  storeBe16 group.code ++ storeBe16 share.length ++ share

/-- The data of `cookie`. -/
def cookieBody (cookie : Bytes) : Bytes := storeBe16 cookie.length ++ cookie

/-- The data of the ALPN extension when it names one protocol. -/
def alpnBody (name : Bytes) : Bytes :=
  storeBe16 (name.length + 1) ++ [UInt8.ofNat name.length] ++ name

/-- The extensions that the client looks at have the data that their type asks for in a
ServerHello, or in a HelloRetryRequest. -/
structure RawExtension.WellFormed (retry : Bool) (e : RawExtension) : Prop where
  version : e.type = 0x002b → ∃ v < 65536, e.body = storeBe16 v
  keyShare : e.type = 0x0033 → retry = false → ∃ group share, group.code < 65536 ∧
    share.length ≤ 65 ∧ e.body = keyShareBody group share
  retryGroup : e.type = 0x0033 → retry = true → ∃ group : NamedGroup, group.code < 65536 ∧
    e.body = storeBe16 group.code
  cookie : e.type = 0x002c → retry = true ∧ ∃ cookie, cookie.length ≤ 512 ∧
    e.body = cookieBody cookie

/-! ## Messages -/

/-- supported_versions with TLS 1.3. -/
def RawExtension.supportedVersion : RawExtension := ⟨0x002b, [3, 4], by decide, by decide⟩

/-- A key_share with this body. -/
def RawExtension.keyShare (body : Bytes) (h : body.length < 65536) : RawExtension :=
  ⟨0x0033, body, by decide, h⟩

/-- The cipher suite has 16 bits. -/
theorem tlsAes128GcmSha256_lt : tlsAes128GcmSha256 < 65536 := by
  decide

/-- The parts of a ServerHello; the version and the compression method have one value. -/
structure HelloParts where
  random : FixedBytes 32
  sessionId : Bytes
  cipherSuite : ℕ
  extensions : List RawExtension
  sessionBound : sessionId.length ≤ 32
  suiteBound : cipherSuite < 65536
  extensionsBound : (RawExtension.encodeAll extensions).length < 65536

namespace HelloParts

/-- The body of the message. -/
def encodeBody (m : HelloParts) : Bytes :=
  storeBe16 0x0303 ++ m.random.val ++ [UInt8.ofNat m.sessionId.length] ++ m.sessionId ++
    storeBe16 m.cipherSuite ++ [0] ++ storeBe16 (RawExtension.encodeAll m.extensions).length ++
    RawExtension.encodeAll m.extensions

/-- The message as it is sent. -/
def encode (m : HelloParts) : Bytes :=
  [hsServerHello] ++ storeBe24 m.encodeBody.length ++ m.encodeBody

/-- Whether the message is a HelloRetryRequest. -/
def isRetry (m : HelloParts) : Bool := m.random.val = hrrRandom

/-- The data of the last `key_share` is the group and the share of `info`; a retry has no
share. -/
def Shares (m : HelloParts) (info : ServerHelloInfo) : Prop :=
  if m.isRetry then
    RawExtension.lastBody 0x0033 m.extensions = some (storeBe16 info.group.code) ∧
      (info.group = .x25519 ∨ info.group = .secp256r1) ∧ info.keyShare = []
  else
    RawExtension.lastBody 0x0033 m.extensions =
        some (keyShareBody info.group info.keyShare) ∧
      ((info.group = .x25519 ∧ info.keyShare.length = 32) ∨
        (info.group = .secp256r1 ∧ info.keyShare.length = 65 ∧ byteAt info.keyShare 0 = 0x04))

/-- `info` is what the parts say, where the last extension of a type counts. -/
structure Says (m : HelloParts) (info : ServerHelloInfo) : Prop where
  random : info.random = m.random.val
  sessionId : info.sessionId = m.sessionId
  cipherSuite : info.cipherSuite = m.cipherSuite
  retry : info.helloRetryRequest = m.isRetry
  suite : m.cipherSuite = tlsAes128GcmSha256
  wellFormed : ∀ e ∈ m.extensions, e.WellFormed m.isRetry
  version : RawExtension.lastBody 0x002b m.extensions = some (storeBe16 0x0304)
  selectedVersion : info.selectedVersion = 0x0304
  share : m.Shares info
  cookie : info.cookie =
    ((RawExtension.lastBody 0x002c m.extensions).map (List.drop 2)).getD []

/-- The message says something that the client can go on with. -/
def Acceptable (m : HelloParts) : Prop := ∃ info, m.Says info

end HelloParts

/-! ## The supported profile -/

/-- A share of one of the two groups. -/
structure SupportedShare where
  group : NamedGroup
  share : Bytes
  supported : (group = .x25519 ∧ share.length = 32) ∨
    (group = .secp256r1 ∧ share.length = 65 ∧ byteAt share 0 = 0x04)

/-- What a message of the supported profile says besides its session id: a ServerHello with a
random value and a share, or a HelloRetryRequest with a group and perhaps a cookie. -/
inductive HelloKind where
  | serverHello (random : FixedBytes 32) (fresh : random.val ≠ hrrRandom) (share : SupportedShare)
  | retry (group : NamedGroup) (supported : group = .x25519 ∨ group = .secp256r1)
      (cookie : Option Bytes) (cookieBound : ∀ c, cookie = some c → c.length ≤ 512)

namespace HelloKind

/-- The random value of a HelloRetryRequest. -/
def retryRandom : FixedBytes 32 := ⟨hrrRandom, rfl⟩

/-- The random value. -/
def random : HelloKind → FixedBytes 32
  | .serverHello random _ _ => random
  | .retry _ _ _ _ => retryRandom

/-- The types and the data of the extensions. -/
def extensions : HelloKind → List (ℕ × Bytes)
  | .serverHello _ _ share =>
    [(0x002b, storeBe16 0x0304), (0x0033, keyShareBody share.group share.share)]
  | .retry group _ cookie _ =>
    [(0x002b, storeBe16 0x0304), (0x0033, storeBe16 group.code)] ++
      match cookie with
      | none => []
      | some cookie => [(0x002c, cookieBody cookie)]

/-- What the client should read. -/
def info (k : HelloKind) (sessionId : Bytes) : ServerHelloInfo where
  random := k.random.val
  sessionId := sessionId
  cipherSuite := tlsAes128GcmSha256
  selectedVersion := 0x0304
  group := match k with
    | .serverHello _ _ share => share.group
    | .retry group _ _ _ => group
  keyShare := match k with
    | .serverHello _ _ share => share.share
    | .retry _ _ _ _ => []
  helloRetryRequest := match k with
    | .serverHello _ _ _ => false
    | .retry _ _ _ _ => true
  cookie := match k with
    | .serverHello _ _ _ => []
    | .retry _ _ cookie _ => cookie.getD []

end HelloKind

/-- The types of the extensions that the client looks at. -/
def knownTypes : List ℕ := [0x002b, 0x0033, 0x002c]

/-- These parts are a message of the profile: its extensions in any order, with others between
them. -/
structure HelloParts.OfKind (m : HelloParts) (k : HelloKind) : Prop where
  random : m.random = k.random
  suite : m.cipherSuite = tlsAes128GcmSha256
  extensions : ∃ others : List RawExtension, (∀ e ∈ others, e.type ∉ knownTypes) ∧
    (m.extensions.map fun e => (e.type, e.body)).Perm
      (k.extensions ++ others.map fun e => (e.type, e.body))

end XboxTls.Interface
