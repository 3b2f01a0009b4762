import XboxTls.Programs.Prog
import XboxTls.Model.Authentication
import XboxTls.Model.ClientHello
import XboxTls.Model.Record

/-!
# The client object and what it calls (`connection.h`, `platform.h`)

The members of `TlsClient`, the objects outside the client (the platform, the stream,
the verifier and the allocator) as an `Env` over a state `W` of theirs, and the small
functions of `connection.cpp` that the larger ones are made of.

A method is a program over the client, the outside world and a trace of events.  An
event records a call the method makes or a value it passes on; no function reads the
trace, so the events do not take part in what the methods compute.
-/

set_option autoImplicit false

namespace XboxTls.Model

open Programs

/-! ## The client's members -/

/-- `ClientState`. -/
inductive ClientState where
  | idle
  | handshaking
  | connected
  | closed
  | failed
  deriving DecidableEq, Repr

/-- `ClientConfig`; an object is the handle under which the `Env` knows it, and `none` is
a null pointer. -/
structure ClientConfig where
  platform : Option ℕ
  stream : Option ℕ
  verifier : Option ℕ
  hostname : Option CString
  alpn : Option CString
  preferredGroup : NamedGroup
  applicationRecordPadding : ℕ
  deriving DecidableEq, Repr

/-- The configuration after construction.
SOURCE: src/tls/connection.cpp:9-16 -/
def ClientConfig.default : ClientConfig := ⟨none, none, none, none, none, .x25519, 0⟩

/-- The four traffic keys of a client. -/
inductive KeySlot where
  | clientHs
  | serverHs
  | clientApp
  | serverApp
  deriving DecidableEq, Repr

/-- The members of `TlsClient`.  `clientHello`, `certificateStorage` and `negotiatedAlpn`
are the bytes in use of their arrays.  `pendingApp` is what was last copied to the start of
`pending_app_`: the array holds its first 16384 bytes, and what is longer was written behind
the array. -/
structure TlsClient (P : Crypto) where
  state : ClientState
  config : ClientConfig
  transcript : TranscriptHash P
  schedule : KeySchedule
  clientHsKeys : TrafficKeys
  serverHsKeys : TrafficKeys
  clientAppKeys : TrafficKeys
  serverAppKeys : TrafficKeys
  privateKey : FixedBytes 32
  publicKey : FixedBytes 65
  clientHello : Bytes
  deframer : HandshakeDeframer
  certificateStorage : Bytes
  negotiatedAlpn : Bytes
  pendingApp : Bytes
  pendingAppOffset : ℕ
  pendingAppLength : ℕ
  lastAlertLevel : UInt8
  lastAlertDescription : UInt8

namespace TlsClient

variable {P : Crypto}

/-- The constructor.
SOURCE: src/tls/connection.cpp:18-31 -/
def initial (P : Crypto) : TlsClient P where
  state := .idle
  config := .default
  transcript := P.shaReset
  schedule := .zero
  clientHsKeys := .zero
  serverHsKeys := .zero
  clientAppKeys := .zero
  serverAppKeys := .zero
  privateKey := .zero 32
  publicKey := .zero 65
  clientHello := []
  deframer := .empty 32768
  certificateStorage := []
  negotiatedAlpn := []
  pendingApp := []
  pendingAppOffset := 0
  pendingAppLength := 0
  lastAlertLevel := 0
  lastAlertDescription := 0

/-- `TlsClient::wipe_secrets`.
SOURCE: src/tls/connection.cpp:33-41 -/
def wipeSecrets (c : TlsClient P) : TlsClient P :=
  { c with
    privateKey := .zero 32
    publicKey := .zero 65
    schedule := .zero
    clientHsKeys := .zero
    serverHsKeys := .zero
    clientAppKeys := .zero
    serverAppKeys := .zero }

/-- The keys in a slot. -/
def keys (c : TlsClient P) : KeySlot → TrafficKeys
  | .clientHs => c.clientHsKeys
  | .serverHs => c.serverHsKeys
  | .clientApp => c.clientAppKeys
  | .serverApp => c.serverAppKeys

/-- The client with other keys in a slot. -/
def setKeys (c : TlsClient P) (slot : KeySlot) (k : TrafficKeys) : TlsClient P :=
  match slot with
  | .clientHs => { c with clientHsKeys := k }
  | .serverHs => { c with serverHsKeys := k }
  | .clientApp => { c with clientAppKeys := k }
  | .serverApp => { c with serverAppKeys := k }

end TlsClient

/-! ## The outside world -/

/-- The objects that a configuration points to, and `malloc`, over a state `W`.  A call
may change the state in any way, fail with any code and never return. -/
structure Env (W : Type) where
  /-- `Platform::random_bytes` into a span of `n` bytes. -/
  randomBytes : ℕ → (n : ℕ) → Prog W Error (FixedBytes n)
  /-- `Stream::send_all`. -/
  sendAll : ℕ → Bytes → Prog W Error Unit
  /-- `Stream::recv_some` into a span of `n` bytes. -/
  recvSome : ℕ → (n : ℕ) → Prog W Error { b : Bytes // b.length ≤ n }
  /-- `Stream::close`. -/
  close : ℕ → W → W
  /-- `ServerAuthVerifier::verify_chain`. -/
  verifyChain : ℕ → CertificateChainView → CString → Prog W Error Unit
  /-- `ServerAuthVerifier::verify_signature`. -/
  verifySignature : ℕ → SignatureScheme → X509CertificateView → Bytes → Bytes →
    Prog W Error Unit
  /-- Whether `malloc` of `n` bytes succeeds. -/
  malloc : ℕ → W → Bool × W
  /-- The bytes of a `size_t`. -/
  sizeOfSize : ℕ
  /-- What these bytes change when they are written behind `pending_app_`, over the members
  after the array and over what follows the object. -/
  writeBehind : Bytes → W → W
  /-- The `n` bytes from this place behind `pending_app_` on.  They are members of the object
  and what follows it; nothing is known of them here. -/
  readBehind : ℕ → (n : ℕ) → W → FixedBytes n

/-! ## Events -/

/-- The read protection under which handshake bytes arrive. -/
inductive Stage where
  | plaintext
  | handshake
  | application
  deriving DecidableEq, Repr

/-- What the methods do, in order. -/
inductive Event where
  /-- `connect` took this configuration. -/
  | connect (config : ClientConfig)
  /-- A ClientHello was built from these parameters, hashed and handed to the stream. -/
  | clientHello (params : ClientHelloParams) (encoded : Bytes)
  /-- A HelloRetryRequest was accepted. -/
  | retry (encoded : Bytes) (info : ServerHelloInfo)
  /-- A ServerHello was accepted. -/
  | serverHello (encoded : Bytes) (info : ServerHelloInfo)
  /-- The key agreement gave this secret for this private key. -/
  | sharedSecret (privateKey shared : FixedBytes 32)
  /-- An unprotected change_cipher_spec record arrived under this read protection. -/
  | changeCipherSpec (stage : Stage) (record : Bytes)
  /-- `HandshakeDeframer::append` took this content, while `buffered` was in its storage. -/
  | fragment (stage : Stage) (buffered content : Bytes)
  /-- The verifier accepted this chain for this host name. -/
  | chainVerified (chain : CertificateChainView) (hostname : CString)
  /-- The verifier accepted this signature. -/
  | signatureVerified (scheme : SignatureScheme) (leaf : X509CertificateView)
      (message signature : Bytes)
  /-- `authenticate_server_flight` returned `XT_OK` for these arguments. -/
  | authenticated (certificates : CertificateInfo) (certificateVerify : CertificateVerifyInfo)
      (transcriptHash : FixedBytes 32) (hostname : CString)
  /-- `verify_finished_sha256` accepted the server's Finished over this hash. -/
  | finishedVerified (transcriptHash : FixedBytes 32)
  /-- A message of the server's encrypted flight was accepted and hashed. -/
  | flight (msg : HandshakeMessage)
  /-- The client's Finished over this hash was handed to the stream. -/
  | clientFinished (transcriptHash : FixedBytes 32) (encoded : Bytes)
  /-- A message after the handshake was processed. -/
  | postHandshake (msg : HandshakeMessage)
  /-- The server's read keys changed while the deframer held `beyond` after the message
  that caused the change. -/
  | readKeysChanged (stage : Stage) (beyond : Bytes)
  /-- The keys of a slot were derived anew. -/
  | keysDerived (slot : KeySlot) (keys : TrafficKeys)
  /-- `Stream::send_all` took these bytes. -/
  | wrote (bytes : Bytes)
  /-- `aes128_gcm_encrypt` made this record under these keys. -/
  | sealed (slot : KeySlot) (keys : TrafficKeys) (record : Bytes)
  /-- `aes128_gcm_decrypt` accepted this record under these keys. -/
  | opened (slot : KeySlot) (keys : TrafficKeys) (record : Bytes)
  /-- `recv` took the content of an application-data record. -/
  | appData (content : Bytes) (capacity : ℕ)
  /-- `recv` returned these bytes. -/
  | delivered (bytes : Bytes)
  deriving DecidableEq, Repr

/-! ## Programs of the client -/

/-- The client, what is outside it, and the events so far. -/
structure System (P : Crypto) (W : Type) where
  client : TlsClient P
  world : W
  trace : List Event

/-- A method of the client. -/
abbrev ClientM (P : Crypto) (W : Type) (α : Type) : Type := Prog (System P W) Error α

section Primitives

variable {P : Crypto} {W : Type} {α : Type}

/-- The members at this moment. -/
def getClient : ClientM P W (TlsClient P) := fun s => some (.ok s.client, s)

/-- Assign to members. -/
def modifyClient (f : TlsClient P → TlsClient P) : ClientM P W Unit :=
  fun s => some (.ok (), { s with client := f s.client })

/-- Record an event. -/
def emit (ev : Event) : ClientM P W Unit :=
  fun s => some (.ok (), { s with trace := s.trace ++ [ev] })

/-- A call to an object outside the client. -/
def callWorld (x : Prog W Error α) : ClientM P W α := fun s =>
  match x s.world with
  | none => none
  | some (r, w) => some (r, { s with world := w })

/-- A call to an object outside the client that cannot fail. -/
def updateWorld (f : W → α × W) : ClientM P W α :=
  fun s => some (.ok (f s.world).1, { s with world := (f s.world).2 })

/-- The object behind a pointer.  A call through a null pointer has no outcome. -/
def deref (p : Option α) : ClientM P W α :=
  match p with
  | none => Prog.diverge
  | some a => pure a

/-- What holds behind a read of the client. -/
@[simp] theorem wp_getClient (Q : Except Error (TlsClient P) → System P W → Prop)
    (s : System P W) : Prog.wp getClient Q s ↔ Q (.ok s.client) s := by
  simp [Prog.wp, getClient]

/-- What holds behind a change of the client. -/
@[simp] theorem wp_modifyClient (f : TlsClient P → TlsClient P)
    (Q : Except Error Unit → System P W → Prop) (s : System P W) :
    Prog.wp (modifyClient f) Q s ↔ Q (.ok ()) { s with client := f s.client } := by
  simp [Prog.wp, modifyClient]

/-- What holds behind an event. -/
@[simp] theorem wp_emit (ev : Event) (Q : Except Error Unit → System P W → Prop)
    (s : System P W) :
    Prog.wp (emit ev) Q s ↔ Q (.ok ()) { s with trace := s.trace ++ [ev] } := by
  simp [Prog.wp, emit]

/-- What holds behind a change of the outside world. -/
@[simp] theorem wp_updateWorld (f : W → α × W) (Q : Except Error α → System P W → Prop)
    (s : System P W) :
    Prog.wp (updateWorld f) Q s ↔ Q (.ok (f s.world).1) { s with world := (f s.world).2 } := by
  simp [Prog.wp, updateWorld]

/-- A call outside is as good as the object's own fact about it. -/
@[simp] theorem wp_callWorld (x : Prog W Error α) (Q : Except Error α → System P W → Prop)
    (s : System P W) :
    Prog.wp (callWorld x) Q s ↔ Prog.wp x (fun r w => Q r { s with world := w }) s.world := by
  unfold Prog.wp callWorld
  constructor
  · intro h r w hx
    exact h _ _ (by rw [hx])
  · intro h r s' hx
    split at hx
    · cases hx
    · rename_i r₁ w hx₁
      cases hx
      exact h _ _ hx₁

/-- A read of the client succeeds. -/
theorem succeeds_getClient {Q : TlsClient P → System P W → Prop} {s : System P W}
    (h : Q s.client s) : Prog.succeeds getClient Q s :=
  ⟨_, _, rfl, h⟩

/-- A change of the client succeeds. -/
theorem succeeds_modifyClient {f : TlsClient P → TlsClient P} {Q : Unit → System P W → Prop}
    {s : System P W} (h : Q () { s with client := f s.client }) :
    Prog.succeeds (modifyClient f) Q s :=
  ⟨_, _, rfl, h⟩

/-- An event succeeds. -/
theorem succeeds_emit {ev : Event} {Q : Unit → System P W → Prop} {s : System P W}
    (h : Q () { s with trace := s.trace ++ [ev] }) : Prog.succeeds (emit ev) Q s :=
  ⟨_, _, rfl, h⟩

/-- A pointer that is not null can be used. -/
theorem succeeds_deref {p : Option α} {a : α} {Q : α → System P W → Prop} {s : System P W}
    (hp : p = some a) (h : Q a s) : Prog.succeeds (deref p) Q s := by
  subst hp
  exact ⟨a, s, rfl, h⟩

/-- What holds of the client that was read. -/
@[simp] theorem wpOk_getClient (Q : TlsClient P → System P W → Prop) (s : System P W) :
    Prog.wpOk getClient Q s ↔ Q s.client s := by
  simp [Prog.wpOk, getClient]

/-- What holds behind a change of the client that returned. -/
@[simp] theorem wpOk_modifyClient (f : TlsClient P → TlsClient P)
    (Q : Unit → System P W → Prop) (s : System P W) :
    Prog.wpOk (modifyClient f) Q s ↔ Q () { s with client := f s.client } := by
  constructor
  · intro h
    exact h _ _ rfl
  · intro h a s' hx
    cases hx
    exact h

/-- What holds behind an event that returned. -/
@[simp] theorem wpOk_emit (ev : Event) (Q : Unit → System P W → Prop) (s : System P W) :
    Prog.wpOk (emit ev) Q s ↔ Q () { s with trace := s.trace ++ [ev] } := by
  constructor
  · intro h
    exact h _ _ rfl
  · intro h a s' hx
    cases hx
    exact h

/-- A call outside changes the world only. -/
theorem wpOk_callWorld {x : Prog W Error α} {Q : α → System P W → Prop} {s : System P W}
    (h : ∀ a w, Q a { s with world := w }) : Prog.wpOk (callWorld x) Q s := by
  intro a s' hx
  unfold callWorld at hx
  split at hx
  · cases hx
  · next r w _ =>
    cases hx
    exact h a w

/-- What holds of whatever a pointer points to. -/
theorem wpOk_deref {p : Option α} {Q : α → System P W → Prop} {s : System P W}
    (h : ∀ a, Q a s) : Prog.wpOk (deref p) Q s := by
  cases p with
  | none => exact Prog.wpOk_diverge Q s
  | some a => exact (Prog.wpOk_pure a Q s).mpr (h a)

/-- What holds behind the use of a pointer: nothing, if it is null. -/
theorem wp_deref (p : Option α) (Q : Except Error α → System P W → Prop) (s : System P W) :
    Prog.wp (deref p) Q s ↔ ∀ a, p = some a → Q (.ok a) s := by
  cases p with
  | none => simp [deref]
  | some a => simp [deref]

end Primitives

/-! ## The small methods -/

section Methods

variable {P : Crypto} {W : Type} {α : Type} (E : Env W)

/-- `config_.stream->close()` behind its null check. -/
def closeStream : ClientM P W Unit := do
  let c ← getClient
  match c.config.stream with
  | none => pure ()
  | some stream => updateWorld fun w => ((), E.close stream w)

/-- `TlsClient::fail`.
SOURCE: src/tls/connection.cpp:42-47 -/
def fail : ClientM P W Unit := do
  modifyClient fun c => { c.wipeSecrets with state := .failed }
  closeStream E

/-- `fail(); return e;`. -/
def failWith (e : Error) : ClientM P W α := do
  fail E
  Prog.throw e

/-- `if (e != XT_OK) { fail(); return e; }`. -/
def orFail (x : ClientM P W α) : ClientM P W α := Prog.onError x fun e => failWith E e

/-- `config_.stream->send_all`. -/
def writeStream (stream : ℕ) (bytes : Bytes) : ClientM P W Unit := do
  callWorld (E.sendAll stream bytes)
  emit (.wrote bytes)

/-- The two loops of `read_record`: read until `total` bytes are there.  Every round reads
at least one of the bytes that are missing, so as many rounds suffice.
SOURCE: src/tls/connection.cpp:53-61 and 69-77 -/
def recvLoop (stream : ℕ) : ℕ → ℕ → Bytes → ClientM P W Bytes
  | 0, _, have_ => pure have_
  | fuel + 1, total, have_ =>
    if have_.length < total then do
      let b ← callWorld (E.recvSome stream (total - have_.length))
      if b.val.length = 0 then Prog.throw .closed
      else recvLoop stream fuel total (have_ ++ b.val)
    else pure have_

/-- `TlsClient::read_record` into a buffer of `capacity` bytes.
SOURCE: src/tls/connection.cpp:49-80 -/
def readRecord (capacity : ℕ) : ClientM P W Bytes := do
  let c ← getClient
  match c.config.stream with
  | none => Prog.throw .invalidArgument
  | some stream =>
    if capacity < 5 then Prog.throw .invalidArgument
    else do
      let header ← recvLoop E stream 5 5 []
      let h ← Prog.lift (parseRecordHeader header)
      if h.length > 16640 ∨ 5 + h.length > capacity then Prog.throw .badRecord
      else recvLoop E stream h.length (5 + h.length) header

/-- `TlsClient::send_plain_record`.
SOURCE: src/tls/connection.cpp:82-94 -/
def sendPlainRecord (type : UInt8) (payload : Bytes) : ClientM P W Unit := do
  let c ← getClient
  match c.config.stream with
  | none => Prog.throw .invalidArgument
  | some stream =>
    if payload.length > 16384 then Prog.throw .invalidArgument
    else do
      writeStream E stream ([type, 3, 3] ++ storeBe16 payload.length)
      if payload.length ≠ 0 then writeStream E stream payload else pure ()

/-- `protect_record_aes128_gcm` on the keys of a slot, into a buffer of 16645 bytes. -/
def protectRecord (slot : KeySlot) (innerType : UInt8) (content : Bytes) (padding : ℕ) :
    ClientM P W Bytes := do
  let c ← getClient
  Prog.lift (checkProtect innerType content padding 16645)
  let memory ← updateWorld (E.malloc (content.length + 1 + padding))
  let (record, keys) ← Prog.lift
    (protectRecordAes128Gcm P (c.keys slot) innerType content padding 16645 memory)
  modifyClient fun c => c.setKeys slot keys
  emit (.sealed slot (c.keys slot) record)
  pure record

/-- `unprotect_record_aes128_gcm` on the keys of a slot, into a buffer of 16640 bytes. -/
def unprotectRecord (slot : KeySlot) (record : Bytes) : ClientM P W (UInt8 × Bytes) := do
  let c ← getClient
  let plaintext ← Prog.lift (decryptRecord P (c.keys slot) record 16640)
  emit (.opened slot (c.keys slot) record)
  let (t, content) ← Prog.lift (splitInner plaintext)
  modifyClient fun c => c.setKeys slot (c.keys slot).advance
  pure (t, content)

/-- `derive_traffic_keys_sha256` into the keys of a slot. -/
def deriveKeys (slot : KeySlot) (secret : FixedBytes 32) : ClientM P W Unit := do
  let keys ← Prog.lift (deriveTrafficKeysSha256 P secret)
  modifyClient fun c => c.setKeys slot keys
  emit (.keysDerived slot keys)

/-- `TlsClient::send_protected`.
SOURCE: src/tls/connection.cpp:95-104 -/
def sendProtected (innerType : UInt8) (payload : Bytes) : ClientM P W Unit := do
  let c ← getClient
  let slot : KeySlot := if c.state = .connected then .clientApp else .clientHs
  let record ← protectRecord E slot innerType payload 0
  let stream ← deref c.config.stream
  writeStream E stream record

/-- `TlsClient::handle_alert`: the code it returns, which is never `XT_OK`.
SOURCE: src/tls/connection.cpp:518-526 -/
def handleAlert (payload : Bytes) : ClientM P W Error :=
  if payload.length ≠ 2 then pure .badRecord
  else do
    let level := byteAt payload 0
    let description := byteAt payload 1
    modifyClient fun c => { c with lastAlertLevel := level, lastAlertDescription := description }
    if description = 0 then pure .closed else pure .verify

/-- `deframer_.append`, its error returned. -/
def appendFragment (stage : Stage) (content : Bytes) : ClientM P W Unit := do
  let c ← getClient
  let d ← Prog.lift (c.deframer.append content)
  modifyClient fun c => { c with deframer := d }
  emit (.fragment stage c.deframer.buffer content)

/-- `deframer_.consume`, its error returned. -/
def consumeMessage : ClientM P W Unit := do
  let c ← getClient
  let d ← Prog.lift c.deframer.consume
  modifyClient fun c => { c with deframer := d }

/-- `transcript_.update`. -/
def hashMessage (encoded : Bytes) : ClientM P W Unit :=
  modifyClient fun c => { c with transcript := transcriptUpdate P c.transcript encoded }

end Methods

end XboxTls.Model
