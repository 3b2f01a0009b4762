import XboxTls.Model.ServerHello

/-!
# ClientHello (`client_hello.cpp`)

The writer keeps the bytes written so far and the flag of a failed put; the extension
writers return `none` where the source returns false.
-/

set_option autoImplicit false

namespace XboxTls.Model

/-- `ClientHelloParams`. -/
structure ClientHelloParams where
  random32 : Bytes
  sessionId : Bytes
  keyShare : Bytes
  group : NamedGroup
  serverName : Option CString
  alpn : Option CString
  cookie : Bytes
  deriving DecidableEq, Repr

/-- `Writer` over a buffer of `cap` bytes, of which `out` are written. -/
structure Writer where
  cap : ℕ
  out : Bytes
  ok : Bool
  deriving DecidableEq, Repr

namespace Writer

/-- `put8`, `put16`, `put24` and `bytes`: all or nothing. -/
def bytes (w : Writer) (b : Bytes) : Writer :=
  if w.out.length + b.length > w.cap then { w with ok := false }
  else { w with out := w.out ++ b }

def put8 (w : Writer) (v : ℕ) : Writer := w.bytes [UInt8.ofNat v]

def put16 (w : Writer) (v : ℕ) : Writer := w.bytes (storeBe16 v)

def put24 (w : Writer) (v : ℕ) : Writer := w.bytes (storeBe24 v)

/-- `patch16` and `patch24`: overwrite bytes already written. -/
def patch (w : Writer) (at_ : ℕ) (b : Bytes) : Writer :=
  if at_ + b.length > w.out.length then w
  else { w with out := w.out.take at_ ++ b ++ w.out.drop (at_ + b.length) }

/-- `return w.ok()`. -/
def checked (w : Writer) : Option Writer := if w.ok then some w else none

end Writer

/-- `ext_supported_versions`.
SOURCE: src/tls/client_hello.cpp:65-71 -/
def extSupportedVersions (w : Writer) : Option Writer :=
  ((((w.put16 0x002b).put16 3).put8 2).put16 0x0304).checked

/-- `ext_supported_groups`.
SOURCE: src/tls/client_hello.cpp:72-79 -/
def extSupportedGroups (w : Writer) (preferred : NamedGroup) : Option Writer :=
  let other : NamedGroup := if preferred = .x25519 then .secp256r1 else .x25519
  (((((w.put16 0x000a).put16 6).put16 4).put16 preferred.code).put16 other.code).checked

/-- `ext_sig_algs`.
SOURCE: src/tls/client_hello.cpp:80-88 -/
def extSigAlgs (w : Writer) : Option Writer :=
  ((((((w.put16 0x000d).put16 8).put16 6).put16 0x0804).put16 0x0809).put16 0x0403).checked

/-- `ext_key_share`.
SOURCE: src/tls/client_hello.cpp:89-97 -/
def extKeyShare (w : Writer) (g : NamedGroup) (k : Bytes) : Option Writer :=
  ((((((w.put16 0x0033).put16 (6 + k.length)).put16 (4 + k.length)).put16
    g.code).put16 k.length).bytes k).checked

/-- `ext_sni`.
SOURCE: src/tls/client_hello.cpp:98-111 -/
def extSni (w : Writer) (host : Option CString) : Option Writer :=
  match host with
  | none => some w
  | some host =>
    let h := host.val.length
    if h = 0 then some w
    else if h > 65530 then none
    else
      ((((((w.put16 0x0000).put16 (5 + h)).put16 (3 + h)).put8 0).put16 h).bytes host.val).checked

/-- `ext_cookie`.
SOURCE: src/tls/client_hello.cpp:112-122 -/
def extCookie (w : Writer) (cookie : Bytes) : Option Writer :=
  if cookie.length = 0 then some w
  else if cookie.length > 65535 then none
  else
    ((((w.put16 0x002c).put16 (2 + cookie.length)).put16 cookie.length).bytes cookie).checked

/-- The comma-separated pieces of an ALPN string; a trailing comma adds none. -/
def alpnPieces (alpn : Bytes) : List Bytes :=
  go alpn.length alpn
where
  /-- `while (*p)`: cut a piece off at the next comma and skip the comma. -/
  go : ℕ → Bytes → List Bytes
    | 0, _ => []
    | fuel + 1, p =>
      if p.length = 0 then []
      else
        let piece := p.takeWhile (· ≠ UInt8.ofNat 44)
        piece :: go fuel (p.drop (piece.length + 1))

/-- The first loop of `ext_alpn`: the size of the protocol list, or a piece that does not
fit.
SOURCE: src/tls/client_hello.cpp:130-145 -/
def alpnListSize : List Bytes → ℕ → Option ℕ
  | [], size => some size
  | piece :: rest, size =>
    if piece.length = 0 ∨ piece.length > 255 then none
    else if size + 1 + piece.length > 65535 then none
    else alpnListSize rest (size + 1 + piece.length)

/-- `ext_alpn`.
SOURCE: src/tls/client_hello.cpp:123-166 -/
def extAlpn (w : Writer) (alpn : Option CString) : Option Writer :=
  match alpn with
  | none => some w
  | some alpn =>
    if alpn.val.length = 0 then some w
    else
      match alpnListSize (alpnPieces alpn.val) 0 with
      | none => none
      | some listSize =>
        let w' := ((w.put16 0x0010).put16 (2 + listSize)).put16 listSize
        ((alpnPieces alpn.val).foldl (fun w piece => (w.put8 piece.length).bytes piece) w').checked

/-- The fields before the extensions.
SOURCE: src/tls/client_hello.cpp:174-185 -/
def writeHelloFields (p : ClientHelloParams) (cap : ℕ) : Writer :=
  let w : Writer := ⟨cap, [], true⟩
  let w := ((w.put8 hsClientHello.toNat).put24 0).put16 0x0303
  let w := ((w.bytes p.random32).put8 p.sessionId.length).bytes p.sessionId
  (((w.put16 2).put16 tlsAes128GcmSha256).put8 1).put8 0

/-- The extensions in their order.
SOURCE: src/tls/client_hello.cpp:189-193 -/
def writeHelloExtensions (p : ClientHelloParams) (w : Writer) : Option Writer := do
  let w ← extSni w p.serverName
  let w ← extSupportedVersions w
  let w ← extSupportedGroups w p.group
  let w ← extSigAlgs w
  let w ← extKeyShare w p.group p.keyShare
  let w ← extCookie w p.cookie
  let w ← extAlpn w p.alpn
  w.checked

/-- `build_client_hello` into a buffer of `cap` bytes.
SOURCE: src/tls/client_hello.cpp:168-204 -/
def buildClientHello (p : ClientHelloParams) (cap : ℕ) : Except Error Bytes :=
  if p.random32.length ≠ 32 ∨ p.sessionId.length > 32 ∨ p.keyShare.length = 0 ∨
      p.keyShare.length > 65535 then .error .invalidArgument
  else
    let w := writeHelloFields p cap
    let extLen := w.out.length
    let w := w.put16 0
    let extStart := w.out.length
    match writeHelloExtensions p w with
    | none => .error .bufferTooSmall
    | some w =>
      let exts := w.out.length - extStart
      if exts > 65535 then .error .invalidArgument
      else
        let w := w.patch extLen (storeBe16 exts)
        let body := w.out.length - 4
        if body > 0xffffff then .error .invalidArgument
        else .ok (w.patch 1 (storeBe24 body)).out

/-- `build_client_hello` with `*written` as the call leaves it; `null` is whether the output
buffer or the random bytes have no data.
SOURCE: src/tls/client_hello.cpp:168-204 -/
def buildClientHelloCall (null : Bool) (p : ClientHelloParams) (cap : ℕ) :
    Except Error Bytes × ℕ :=
  let written := 0
  if null then (.error .invalidArgument, written)
  else if p.random32.length ≠ 32 ∨ p.sessionId.length > 32 ∨ p.keyShare.length = 0 ∨
      p.keyShare.length > 65535 then (.error .invalidArgument, written)
  else
    let w := writeHelloFields p cap
    let extLen := w.out.length
    let w := w.put16 0
    let extStart := w.out.length
    match writeHelloExtensions p w with
    | none => (.error .bufferTooSmall, written)
    | some w =>
      let exts := w.out.length - extStart
      if exts > 65535 then (.error .invalidArgument, written)
      else
        let w := w.patch extLen (storeBe16 exts)
        let body := w.out.length - 4
        if body > 0xffffff then (.error .invalidArgument, written)
        else
          let w := w.patch 1 (storeBe24 body)
          let written := w.out.length
          (.ok w.out, written)

end XboxTls.Model
