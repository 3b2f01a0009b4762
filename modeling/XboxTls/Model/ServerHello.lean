import XboxTls.Model.Handshake

/-!
# ServerHello and HelloRetryRequest (`server_hello.cpp`)
-/

set_option autoImplicit false

namespace XboxTls.Model

/-- `NamedGroup`: the enumerators, and any other code that was read off the wire or put
into a configuration. -/
structure NamedGroup where
  code : ℕ
  deriving DecidableEq, Repr

def NamedGroup.secp256r1 : NamedGroup := ⟨0x0017⟩
def NamedGroup.x25519 : NamedGroup := ⟨0x001D⟩

/-- `TLS_AES_128_GCM_SHA256`. -/
def tlsAes128GcmSha256 : ℕ := 0x1301

/-- `HRR_RANDOM`. -/
def hrrRandom : Bytes :=
  [0xcf, 0x21, 0xad, 0x74, 0xe5, 0x9a, 0x61, 0x11, 0xbe, 0x1d, 0x8c, 0x02, 0x1e, 0x65, 0xb8, 0x91,
    0xc2, 0xa2, 0x11, 0x16, 0x7a, 0xbb, 0x8c, 0x5e, 0x07, 0x9e, 0x09, 0xe2, 0xc8, 0xa8, 0x33, 0x9c]

/-- `ServerHelloInfo`; the arrays with a length field are the bytes in use. -/
structure ServerHelloInfo where
  random : Bytes
  sessionId : Bytes
  cipherSuite : ℕ
  selectedVersion : ℕ
  group : NamedGroup
  keyShare : Bytes
  helloRetryRequest : Bool
  cookie : Bytes
  deriving DecidableEq, Repr

/-- The state of the extension loop of `parse_server_hello`. -/
structure ServerHelloScan where
  version : Bool
  keyshare : Bool
  out : ServerHelloInfo
  deriving DecidableEq, Repr

/-- One extension of type `type` with body `h[p, p + len)`.
SOURCE: src/tls/server_hello.cpp:61-95 -/
def scanServerHelloExtension (h : Bytes) (p type len : ℕ) (st : ServerHelloScan) :
    Except Error ServerHelloScan :=
  let out := st.out
  if type = 0x002b then
    if len ≠ 2 then .error .badHandshake
    else .ok { st with version := true, out := { out with selectedVersion := loadBe16 h p } }
  else if type = 0x0033 then
    if out.helloRetryRequest then
      if len ≠ 2 then .error .badHandshake
      else .ok { st with
        keyshare := true, out := { out with group := ⟨loadBe16 h p⟩, keyShare := [] } }
    else
      let kl := loadBe16 h (p + 2)
      if len < 4 then .error .badHandshake
      else if kl + 4 ≠ len ∨ kl > 65 then .error .badHandshake
      else .ok { st with
        keyshare := true
        out := { out with group := ⟨loadBe16 h p⟩, keyShare := slice h (p + 4) kl } }
  else if type = 0x002c then
    let cl := loadBe16 h p
    if out.helloRetryRequest = false ∨ len < 2 then .error .badHandshake
    else if cl + 2 ≠ len ∨ cl > 512 then .error .badHandshake
    else .ok { st with out := { out with cookie := slice h (p + 2) cl } }
  else .ok st

/-- The extension loop; every round takes at least four of the bytes up to the end of
`h`, which is the end of the extensions.
SOURCE: src/tls/server_hello.cpp:54-97 -/
def scanServerHelloExtensions (h : Bytes) :
    ℕ → ℕ → ServerHelloScan → Except Error ServerHelloScan
  | 0, _, st => .ok st
  | fuel + 1, p, st =>
    if p ≥ h.length then .ok st
    else if p + 4 > h.length then .error .badHandshake
    else
      let type := loadBe16 h p
      let len := loadBe16 h (p + 2)
      if p + 4 + len > h.length then .error .badHandshake
      else do
        let st' ← scanServerHelloExtension h (p + 4) type len st
        scanServerHelloExtensions h fuel (p + 4 + len) st'

/-- The checks after the loop.
SOURCE: src/tls/server_hello.cpp:98-109 -/
def checkServerHello (st : ServerHelloScan) : Except Error ServerHelloInfo :=
  let out := st.out
  if st.version = false ∨ out.selectedVersion ≠ 0x0304 ∨ st.keyshare = false then
    .error .badHandshake
  else if out.cipherSuite ≠ tlsAes128GcmSha256 then .error .unsupported
  else if out.helloRetryRequest then
    if out.group ≠ .x25519 ∧ out.group ≠ .secp256r1 then .error .unsupported else .ok out
  else if out.group = .x25519 ∧ out.keyShare.length = 32 then .ok out
  else if out.group = .secp256r1 ∧ out.keyShare.length = 65 ∧ byteAt out.keyShare 0 = 0x04 then
    .ok out
  else .error .unsupported

/-- `parse_server_hello`.
SOURCE: src/tls/server_hello.cpp:19-110 -/
def parseServerHello (h : Bytes) : Except Error ServerHelloInfo :=
  if h.length < 4 ∨ byteAt h 0 ≠ hsServerHello then .error .badHandshake
  else
    let body := loadBe24 h 1
    if body + 4 ≠ h.length ∨ body < 38 then .error .badHandshake
    else if loadBe16 h 4 ≠ 0x0303 then .error .badHandshake
    else if 38 ≥ h.length then .error .badHandshake
    else
      let random := slice h 6 32
      let sid := (byteAt h 38).toNat
      if sid > 32 ∨ 39 + sid + 5 > h.length then .error .badHandshake
      else
        let p := 39 + sid
        let extTotal := loadBe16 h (p + 3)
        if byteAt h (p + 2) ≠ 0 then .error .badHandshake
        else if p + 5 + extTotal ≠ h.length then .error .badHandshake
        else do
          let st ← scanServerHelloExtensions h extTotal (p + 5)
            ⟨false, false,
              { random := random
                sessionId := slice h 39 sid
                cipherSuite := loadBe16 h p
                selectedVersion := 0
                group := .x25519
                keyShare := []
                helloRetryRequest := random = hrrRandom
                cookie := [] }⟩
          checkServerHello st

end XboxTls.Model
