import XboxTls.Model.Api
import XboxTls.Model.TrustStore

/-!
# The client of the console (`xbox_client.cpp`)

`XboxTlsClient` owns a platform, a socket, a native verifier, a `TlsClient` and the file of
its trust store.  The socket, the network, the clock and the file are an `XboxEnv` over a
state `V`; the verifier and the heap that its anchors point into are part of the outside
world of the `TlsClient`, whose `verify_chain` is the native one (`tlsEnv`).
-/

set_option autoImplicit false

namespace XboxTls.Model

open Programs

/-! ## Options and counters -/

/-- `XboxTlsOptions`. -/
structure XboxTlsOptions where
  trustStorePath : Option CString
  port : UInt16
  alpn : Option CString
  requireAlpn : Bool
  preferredGroup : NamedGroup
  applicationRecordPadding : ℕ
  sendTimeoutMs : UInt32
  receiveTimeoutMs : UInt32
  certificateSha256Pin : Option (FixedBytes 32)
  autoReconnect : Bool
  sendCloseNotify : Bool
  requestPeerKeyUpdate : Bool
  deriving DecidableEq, Repr

/-- The options after construction: the path is `game:\roots.xts` and the protocol
`http/1.1`.
SOURCE: src/platform/xbox360/xbox_client.cpp:11-23 -/
def XboxTlsOptions.default : XboxTlsOptions where
  trustStorePath := some ⟨[0x67, 0x61, 0x6D, 0x65, 0x3A, 0x5C, 0x72, 0x6F, 0x6F, 0x74, 0x73, 0x2E,
    0x78, 0x74, 0x73], by decide⟩
  port := 443
  alpn := some ⟨[0x68, 0x74, 0x74, 0x70, 0x2F, 0x31, 0x2E, 0x31], by decide⟩
  requireAlpn := false
  preferredGroup := .x25519
  applicationRecordPadding := 0
  sendTimeoutMs := 0
  receiveTimeoutMs := 0
  certificateSha256Pin := none
  autoReconnect := true
  sendCloseNotify := true
  requestPeerKeyUpdate := false

/-- `XboxTlsStats`. -/
structure XboxTlsStats where
  bytesSent : UInt64
  bytesReceived : UInt64
  connectAttempts : UInt32
  successfulConnections : UInt32
  failedConnections : UInt32
  keyUpdatesSent : UInt32
  trustStoreReloads : UInt32
  deriving DecidableEq, Repr

/-- The counters after construction.
SOURCE: src/platform/xbox360/xbox_client.cpp:25-32 -/
def XboxTlsStats.zero : XboxTlsStats := ⟨0, 0, 0, 0, 0, 0, 0⟩

/-- The loop of `alpn_list_contains`; every round takes a name or a comma.
SOURCE: src/platform/xbox360/xbox_client.cpp:40-55 -/
def alpnListLoop (selected : Bytes) : ℕ → Bytes → Bool
  | 0, _ => false
  | fuel + 1, p =>
    if p.length = 0 then false
    else
      let name := p.takeWhile fun x => x ≠ 0x2C
      if name = selected then true
      else alpnListLoop selected fuel (p.drop (name.length + 1))

/-- `alpn_list_contains`.
SOURCE: src/platform/xbox360/xbox_client.cpp:35-56 -/
def alpnListContains (list : Option CString) (selected : CString) : Bool :=
  match list with
  | none => false
  | some list =>
    if selected.val.length = 0 then false
    else alpnListLoop selected.val list.val.length list.val

/-! ## The members -/

/-- The members of `XboxTlsClient` besides the objects that it owns; the last error is `none`
for `XT_OK`, and the trust store is the block that `trust_store_data_` points to. -/
structure XboxTlsClient where
  defaults : XboxTlsOptions
  activeOptions : XboxTlsOptions
  stats : XboxTlsStats
  trustStoreData : Option ℕ
  trustStoreSize : ℕ
  lastError : Option Error
  networkStarted : Bool
  initialized : Bool
  deriving DecidableEq, Repr

/-- The constructor.
SOURCE: src/platform/xbox360/xbox_client.cpp:58-64 -/
def XboxTlsClient.initial : XboxTlsClient where
  defaults := .default
  activeOptions := .default
  stats := .zero
  trustStoreData := none
  trustStoreSize := 0
  lastError := none
  networkStarted := false
  initialized := false

/-! ## What the client runs on -/

/-- The network, the socket, the platform, the file functions and `malloc`, over a state `V`. -/
structure XboxEnv (V : Type) where
  networkStartup : Prog V Error Unit
  networkCleanup : V → V
  randomBytes : (n : ℕ) → Prog V Error (FixedBytes n)
  unixTimeSeconds : V → UInt64 × V
  connectTcp : CString → UInt16 → Prog V Error Unit
  setIoTimeouts : UInt32 → UInt32 → Prog V Error Unit
  sendAll : Bytes → Prog V Error Unit
  recvSome : (n : ℕ) → Prog V Error { b : Bytes // b.length ≤ n }
  closeSocket : V → V
  /-- `fopen` for reading, and whether it gave a file. -/
  fopen : CString → V → Bool × V
  /-- `fseek` to the end, and whether it returned zero. -/
  fseekEnd : V → Bool × V
  ftell : V → ℤ × V
  /-- `fseek` to the start, and whether it returned zero. -/
  fseekSet : V → Bool × V
  /-- `fread` of at most `n` bytes. -/
  fread : (n : ℕ) → V → { b : Bytes // b.length ≤ n } × V
  fclose : V → V
  /-- Whether `malloc` of `n` bytes succeeds. -/
  malloc : ℕ → V → Bool × V
  /-- What the members after `tls_`, and what follows the object, become when these bytes are
  written behind the `pending_app_` of `tls_`; the layout decides. -/
  overrun : Bytes → XboxTlsClient → V → XboxTlsClient × V
  /-- The `n` bytes from this place behind that `pending_app_` on. -/
  readBehind : ℕ → (n : ℕ) → V → FixedBytes n

/-- The outside world of the `TlsClient`: the verifier, the heap and what the environment
keeps. -/
structure XboxWorld (V : Type) where
  verifier : VerifierObject
  heap : Heap
  outside : V

section Worlds

variable {V α : Type}

/-- A call to the environment. -/
def callOutside (x : Prog V Error α) : Prog (XboxWorld V) Error α := fun w =>
  match x w.outside with
  | none => none
  | some (r, v) => some (r, { w with outside := v })

/-- A call to the environment that cannot fail. -/
def updateOutside (f : V → α × V) (w : XboxWorld V) : α × XboxWorld V :=
  ((f w.outside).1, { w with outside := (f w.outside).2 })

/-- A method of the verifier. -/
def callVerifier (x : Prog VerifierObject Error α) : Prog (XboxWorld V) Error α := fun w =>
  match x w.verifier with
  | none => none
  | some (r, v) => some (r, { w with verifier := v })

/-- `verify_chain` on the verifier of this world, with the clock of the platform.  Reading an
anchor that is no longer there has no outcome. -/
def verifyChainHere (P : Crypto) (X : XboxEnv V) (chain : CertificateChainView)
    (hostname : CString) : Prog (XboxWorld V) Error Unit := do
  let w ← Prog.get
  match w.verifier.deref w.heap with
  | none => Prog.diverge
  | some verifier =>
    callOutside (verifier.verifyChain P (some X.unixTimeSeconds) chain hostname)

/-- What `platform_`, `socket_` and `verifier_` are for the `TlsClient`.  A `size_t` has four
bytes; what `recv` writes behind the `TlsClient` lands in `landOverrun`. -/
def tlsEnv (P : Crypto) (X : XboxEnv V) : Env (XboxWorld V) where
  randomBytes _ n := callOutside (X.randomBytes n)
  sendAll _ bytes := callOutside (X.sendAll bytes)
  recvSome _ n := callOutside (X.recvSome n)
  close _ w := { w with outside := X.closeSocket w.outside }
  verifyChain _ chain hostname := verifyChainHere P X chain hostname
  verifySignature _ scheme leaf message signature :=
    Prog.lift (NativeServerAuthVerifier.verifySignature P scheme leaf message signature)
  malloc n := updateOutside (X.malloc n)
  sizeOfSize := 4
  writeBehind _ w := w
  readBehind first n w := X.readBehind first n w.outside

end Worlds

/-- The client with its `TlsClient` and the outside world of that. -/
structure XboxSystem (P : Crypto) (V : Type) where
  client : XboxTlsClient
  tls : System P (XboxWorld V)

/-- A method of `XboxTlsClient`. -/
abbrev XboxM (P : Crypto) (V : Type) (α : Type) : Type := Prog (XboxSystem P V) Error α

section Primitives

variable {P : Crypto} {V α : Type}

/-- The members at this moment. -/
def getXbox : XboxM P V XboxTlsClient := fun s => some (.ok s.client, s)

/-- Assign to members. -/
def modifyXbox (f : XboxTlsClient → XboxTlsClient) : XboxM P V Unit :=
  fun s => some (.ok (), { s with client := f s.client })

/-- The members of `tls_` at this moment. -/
def getTls : XboxM P V (TlsClient P) := fun s => some (.ok s.tls.client, s)

/-- A method of `tls_`. -/
def callTls (x : ClientM P (XboxWorld V) α) : XboxM P V α := fun s =>
  match x s.tls with
  | none => none
  | some (r, t) => some (r, { s with tls := t })

/-- A call to the network, the socket or the verifier. -/
def callXboxWorld (x : Prog (XboxWorld V) Error α) : XboxM P V α := callTls (callWorld x)

/-- A call to the environment that cannot fail. -/
def updateXboxWorld (f : XboxWorld V → α × XboxWorld V) : XboxM P V α := callTls (updateWorld f)

/-- `stats_`. -/
def modifyStats (f : XboxTlsStats → XboxTlsStats) : XboxM P V Unit :=
  modifyXbox fun x => { x with stats := f x.stats }

/-- `return remember(XT_OK);`. -/
def rememberOk : XboxM P V Unit := modifyXbox fun x => { x with lastError := none }

/-- `return remember(e);` with an error. -/
def rememberError (e : Error) : XboxM P V α := do
  modifyXbox fun x => { x with lastError := some e }
  Prog.throw e

end Primitives

/-! ## The methods -/

section Methods

variable {P : Crypto} {V : Type} (X : XboxEnv V)

/-- `socket_.close()`. -/
def closeSocket : XboxM P V Unit :=
  updateXboxWorld fun w => ((), { w with outside := X.closeSocket w.outside })

/-- `fclose(file); return remember(e);`. -/
def closeFileAndFail (e : Error) : XboxM P V Unit := do
  updateXboxWorld fun w => ((), { w with outside := X.fclose w.outside })
  rememberError e

/-- `free(data); return remember(e);`. -/
def freeAndFail (block : ℕ) (e : Error) : XboxM P V Unit := do
  updateXboxWorld fun w => ((), { w with heap := w.heap.free block })
  rememberError e

/-- `XboxTlsClient::free_trust_store`.
SOURCE: src/platform/xbox360/xbox_client.cpp:123-131 -/
def freeTrustStore : XboxM P V Unit := do
  let x ← getXbox
  match x.trustStoreData with
  | none => pure ()
  | some block => do
    updateXboxWorld fun w => ((), { w with heap := w.heap.free block })
    modifyXbox fun x => { x with trustStoreData := none }
  modifyXbox fun x => { x with trustStoreSize := 0 }
  updateXboxWorld fun w => ((), { w with verifier := w.verifier.clearTrustAnchors })

/-- The store in `block` replaces the one in use.
SOURCE: src/platform/xbox360/xbox_client.cpp:108-120 -/
def useTrustStore (block : ℕ) (data : Bytes) : XboxM P V Unit := do
  freeTrustStore
  let loaded ← Prog.attempt (callXboxWorld (callVerifier
    (VerifierObject.loadCompactTrustStore block data)))
  match loaded with
  | .error e => freeAndFail block e
  | .ok 0 => freeAndFail block .verify
  | .ok _ => do
    modifyXbox fun x => { x with trustStoreData := some block, trustStoreSize := data.length }
    modifyStats fun s => { s with trustStoreReloads := s.trustStoreReloads + 1 }
    rememberOk

/-- The file that is open is read into a block of its size.
SOURCE: src/platform/xbox360/xbox_client.cpp:94-107 -/
def readTrustStore (size : ℕ) : XboxM P V Unit := do
  let memory ← updateXboxWorld (updateOutside (X.malloc size))
  if memory = false then closeFileAndFail X .bufferTooSmall
  else do
    let data ← updateXboxWorld (updateOutside (X.fread size))
    let block ← updateXboxWorld fun w => (w.heap.next, { w with heap := w.heap.alloc data.val })
    if data.val.length ≠ size then do
      updateXboxWorld fun w => ((), { w with heap := w.heap.free block })
      closeFileAndFail X .io
    else do
      updateXboxWorld fun w => ((), { w with outside := X.fclose w.outside })
      useTrustStore block data.val

/-- `XboxTlsClient::load_trust_store_file`.
SOURCE: src/platform/xbox360/xbox_client.cpp:75-121 -/
def loadTrustStoreFile (path : Option CString) : XboxM P V Unit :=
  match path with
  | none => rememberError .invalidArgument
  | some path =>
    if path.val.length = 0 then rememberError .invalidArgument
    else do
      let opened ← updateXboxWorld (updateOutside (X.fopen path))
      if opened = false then rememberError .io
      else do
        let atEnd ← updateXboxWorld (updateOutside X.fseekEnd)
        if atEnd = false then closeFileAndFail X .io
        else do
          let fileSize ← updateXboxWorld (updateOutside X.ftell)
          if fileSize ≤ 0 then closeFileAndFail X .io
          else do
            let atStart ← updateXboxWorld (updateOutside X.fseekSet)
            if atStart = false then closeFileAndFail X .io
            else readTrustStore X fileSize.toNat

/-- `XboxTlsClient::close`.
SOURCE: src/platform/xbox360/xbox_client.cpp:311-321 -/
def XboxTlsClient.close : XboxM P V Unit := do
  let x ← getXbox
  let t ← getTls
  let error ← Prog.attempt
    (if t.state = .connected ∧ x.activeOptions.sendCloseNotify then
        callTls (Model.close (tlsEnv P X))
    else if t.state ≠ .idle then callTls (Model.reset (tlsEnv P X))
    else pure ())
  closeSocket X
  match error with
  | .error e => rememberError e
  | .ok () => rememberOk

/-- The network is stopped if it was started.
SOURCE: src/platform/xbox360/xbox_client.cpp:327-330 -/
def stopNetwork : XboxM P V Unit := do
  let x ← getXbox
  if x.networkStarted then do
    updateXboxWorld fun w => ((), { w with outside := X.networkCleanup w.outside })
    modifyXbox fun x => { x with networkStarted := false }
  else pure ()

/-- `XboxTlsClient::shutdown`.
SOURCE: src/platform/xbox360/xbox_client.cpp:323-333 -/
def XboxTlsClient.shutdown : XboxM P V Unit := do
  let _ ← Prog.attempt (XboxTlsClient.close X)
  freeTrustStore
  stopNetwork X
  modifyXbox fun x => { x with initialized := false }

/-- The network is started once.
SOURCE: src/platform/xbox360/xbox_client.cpp:146-152 -/
def startNetwork : XboxM P V Unit := do
  let x ← getXbox
  if x.networkStarted then pure ()
  else do
    Prog.onError (callXboxWorld (callOutside X.networkStartup)) rememberError
    modifyXbox fun x => { x with networkStarted := true }

/-- `XboxTlsClient::initialize` with options.
SOURCE: src/platform/xbox360/xbox_client.cpp:143-162 -/
def XboxTlsClient.initializeWith (options : XboxTlsOptions) : XboxM P V Unit := do
  modifyXbox fun x => { x with defaults := options }
  startNetwork X
  Prog.onError (loadTrustStoreFile X options.trustStorePath) fun e => do
    XboxTlsClient.shutdown X
    rememberError e
  modifyXbox fun x => { x with initialized := true }
  rememberOk

/-! ### `connect` -/

/-- `++stats_.failed_connections; return remember(e);`. -/
def failConnect (e : Error) : XboxM P V Unit := do
  modifyStats fun s => { s with failedConnections := s.failedConnections + 1 }
  rememberError e

/-- A connection that is still there is closed, unless the options forbid it.
SOURCE: src/platform/xbox360/xbox_client.cpp:179-189 -/
def closeConnected (options : XboxTlsOptions) : XboxM P V Unit := do
  let t ← getTls
  if t.state ≠ .connected then pure ()
  else if options.autoReconnect = false then rememberError .invalidArgument
  else do
    let _ ← Prog.attempt
      (if options.sendCloseNotify then callTls (Model.close (tlsEnv P X))
      else callTls (Model.reset (tlsEnv P X)))
    closeSocket X

/-- `tls_` is reset unless it is idle.
SOURCE: src/platform/xbox360/xbox_client.cpp:191-195 -/
def resetToIdle : XboxM P V Unit := do
  let t ← getTls
  if t.state ≠ .idle then Prog.onError (callTls (Model.reset (tlsEnv P X))) rememberError
  else pure ()

/-- What `connect` does about an earlier connection; its errors are remembered and not counted.
SOURCE: src/platform/xbox360/xbox_client.cpp:179-195 -/
def leaveConnection (options : XboxTlsOptions) : XboxM P V Unit := do
  closeConnected X options
  resetToIdle X

/-- The pin of the options.
SOURCE: src/platform/xbox360/xbox_client.cpp:203-212 -/
def setPin (options : XboxTlsOptions) : XboxM P V Unit :=
  match options.certificateSha256Pin with
  | some pin => callXboxWorld (callVerifier
      (VerifierObject.setLeafCertificateSha256Pin (some pin.val)))
  | none => updateXboxWorld fun w =>
      ((), { w with verifier := w.verifier.clearLeafCertificateSha256Pin })

/-- The configuration that `connect` hands to `tls_`.
SOURCE: src/platform/xbox360/xbox_client.cpp:227-234 -/
def XboxTlsOptions.clientConfig (options : XboxTlsOptions) (hostname : CString) : ClientConfig where
  platform := some 0
  stream := some 0
  verifier := some 0
  hostname := some hostname
  alpn := options.alpn
  preferredGroup := options.preferredGroup
  applicationRecordPadding := options.applicationRecordPadding

/-- The socket and the handshake.
SOURCE: src/platform/xbox360/xbox_client.cpp:214-241 -/
def openConnection (fuel : ℕ) (hostname : CString) (options : XboxTlsOptions) : XboxM P V Unit := do
  Prog.onError (callXboxWorld (callOutside (X.connectTcp hostname options.port))) failConnect
  Prog.onError (callXboxWorld (callOutside
    (X.setIoTimeouts options.sendTimeoutMs options.receiveTimeoutMs))) fun e => do
      closeSocket X
      failConnect e
  Prog.onError
    (callTls (Model.connect (tlsEnv P X) fuel (options.clientConfig hostname))) fun e => do
      closeSocket X
      failConnect e

/-- The check on the protocol that the server selected.
SOURCE: src/platform/xbox360/xbox_client.cpp:245-254 -/
def checkAlpn (options : XboxTlsOptions) : XboxM P V Unit := do
  let t ← getTls
  if options.requireAlpn ∧ alpnListContains options.alpn t.negotiatedAlpnString = false then do
    let _ ← Prog.attempt (callTls (Model.close (tlsEnv P X)))
    closeSocket X
    failConnect .badHandshake
  else pure ()

/-- The KeyUpdate that the options ask for.
SOURCE: src/platform/xbox360/xbox_client.cpp:256-263 -/
def requestKeyUpdate (options : XboxTlsOptions) : XboxM P V Unit :=
  if options.requestPeerKeyUpdate then do
    Prog.onError (callTls (Model.keyUpdate (tlsEnv P X) true)) failConnect
    modifyStats fun s => { s with keyUpdatesSent := s.keyUpdatesSent + 1 }
  else pure ()

/-- `connect` after a connection that was still there is left.
SOURCE: src/platform/xbox360/xbox_client.cpp:197-266 -/
def connectIdle (fuel : ℕ) (hostname : CString) (options : XboxTlsOptions) : XboxM P V Unit :=
  if options.preferredGroup ≠ .x25519 ∧ options.preferredGroup ≠ .secp256r1 then
    failConnect .invalidArgument
  else do
    Prog.onError (setPin options) failConnect
    openConnection X fuel hostname options
    modifyXbox fun x => { x with activeOptions := options }
    checkAlpn X options
    requestKeyUpdate X options
    modifyStats fun s => { s with successfulConnections := s.successfulConnections + 1 }
    rememberOk

/-- `XboxTlsClient::connect`.
SOURCE: src/platform/xbox360/xbox_client.cpp:171-267 -/
def XboxTlsClient.connect (fuel : ℕ) (hostname : Option CString) (options : XboxTlsOptions) :
    XboxM P V Unit := do
  modifyStats fun s => { s with connectAttempts := s.connectAttempts + 1 }
  let x ← getXbox
  match hostname with
  | none => failConnect .invalidArgument
  | some hostname =>
    if x.initialized = false ∨ hostname.val.length = 0 then failConnect .invalidArgument
    else do
      leaveConnection X options
      connectIdle X fuel hostname options

/-! ### The other methods -/

/-- `XboxTlsClient::send` of a span; `null` is whether its data pointer is null.
SOURCE: src/platform/xbox360/xbox_client.cpp:269-274 -/
def XboxTlsClient.send (null : Bool) (data : Bytes) : XboxM P V Unit := do
  Prog.onError (callTls (Model.send (tlsEnv P X) null data)) rememberError
  modifyStats fun s => { s with bytesSent := s.bytesSent + UInt64.ofNat data.length }
  rememberOk

/-- What a `recv` that kept bytes wrote behind `tls_`, where these were more than `pending_app_`
holds. -/
def landOverrun (before after : TlsClient P) : XboxM P V Unit := fun s =>
  if before.pendingAppLength = 0 ∧ after.pendingAppLength ≠ 0 ∧
      16384 < after.pendingApp.length then
    let landed := X.overrun (after.pendingApp.drop 16384) s.client s.tls.world.outside
    some (.ok (), { s with
      client := landed.1
      tls := { s.tls with world := { s.tls.world with outside := landed.2 } } })
  else some (.ok (), s)

/-- `XboxTlsClient::receive` into a span.  `recv` keeps bytes only when none were pending.
SOURCE: src/platform/xbox360/xbox_client.cpp:283-288 -/
def XboxTlsClient.receive (fuel : ℕ) (receivedNull outNull : Bool) (size : ℕ) :
    XboxM P V Bytes := do
  let before ← getTls
  let bytes ← Prog.onError (callTls (Model.recv (tlsEnv P X) fuel receivedNull outNull size))
    rememberError
  let after ← getTls
  landOverrun X before after
  modifyStats fun s => { s with bytesReceived := s.bytesReceived + UInt64.ofNat bytes.length }
  rememberOk
  pure bytes

/-- `XboxTlsClient::key_update`.
SOURCE: src/platform/xbox360/xbox_client.cpp:297-302 -/
def XboxTlsClient.keyUpdate (requestPeerUpdate : Bool) : XboxM P V Unit := do
  Prog.onError (callTls (Model.keyUpdate (tlsEnv P X) requestPeerUpdate)) rememberError
  modifyStats fun s => { s with keyUpdatesSent := s.keyUpdatesSent + 1 }
  rememberOk

/-- `XboxTlsClient::reload_trust_store`.
SOURCE: src/platform/xbox360/xbox_client.cpp:304-309 -/
def XboxTlsClient.reloadTrustStore (path : Option CString) : XboxM P V Unit := do
  let x ← getXbox
  if x.networkStarted = false then rememberError .invalidArgument else loadTrustStoreFile X path

end Methods

/-! ## Calls -/

/-- A call of a public method; `send`, `receive` and `initialize` have several forms. -/
inductive XboxCall where
  | initializeDefault
  | initializePath (path : Option CString)
  | initializeWith (options : XboxTlsOptions)
  | connectTo (hostname : Option CString) (port : UInt16) (alpn : Option CString)
  | connect (hostname : Option CString) (options : XboxTlsOptions)
  | send (null : Bool) (data : Bytes)
  | sendPointer (null : Bool) (data : Bytes)
  | receive (receivedNull outNull : Bool) (size : ℕ)
  | receivePointer (receivedNull outNull : Bool) (size : ℕ)
  | keyUpdate (requestPeerUpdate : Bool)
  | reloadTrustStore (path : Option CString)
  | close
  | shutdown
  | setDefaultOptions (options : XboxTlsOptions)
  | resetStats
  deriving DecidableEq, Repr

section Runs

variable {P : Crypto} {V : Type} (X : XboxEnv V)

/-- The options of `connect(hostname, port, alpn)`.
SOURCE: src/platform/xbox360/xbox_client.cpp:164-169 -/
def XboxTlsOptions.towards (options : XboxTlsOptions) (port : UInt16) (alpn : Option CString) :
    XboxTlsOptions :=
  { options with port := port, alpn := alpn }

/-- A method without a value. -/
def withoutBytes (x : XboxM P V Unit) : XboxM P V Bytes := do
  x
  pure []

/-- The method behind a call; the value is the bytes that `receive` hands out.
SOURCE: src/platform/xbox360/xbox_client.cpp:133-141, 276-281, 290-295, 335-337 and 363-365 -/
def XboxCall.run (fuel : ℕ) : XboxCall → XboxM P V Bytes
  | .initializeDefault => withoutBytes do
    let x ← getXbox
    XboxTlsClient.initializeWith X x.defaults
  | .initializePath path => withoutBytes do
    let x ← getXbox
    XboxTlsClient.initializeWith X { x.defaults with trustStorePath := path }
  | .initializeWith options => withoutBytes (XboxTlsClient.initializeWith X options)
  | .connectTo hostname port alpn => withoutBytes do
    let x ← getXbox
    XboxTlsClient.connect X fuel hostname (x.defaults.towards port alpn)
  | .connect hostname options => withoutBytes (XboxTlsClient.connect X fuel hostname options)
  | .send null data => withoutBytes (XboxTlsClient.send X null data)
  | .sendPointer null data => withoutBytes
    (if null ∧ data.length ≠ 0 then rememberError .invalidArgument
    else XboxTlsClient.send X null data)
  | .receive receivedNull outNull size => XboxTlsClient.receive X fuel receivedNull outNull size
  | .receivePointer receivedNull outNull size =>
    if outNull ∧ size ≠ 0 then rememberError .invalidArgument
    else XboxTlsClient.receive X fuel receivedNull outNull size
  | .keyUpdate requestPeerUpdate => withoutBytes (XboxTlsClient.keyUpdate X requestPeerUpdate)
  | .reloadTrustStore path => withoutBytes (XboxTlsClient.reloadTrustStore X path)
  | .close => withoutBytes (XboxTlsClient.close X)
  | .shutdown => withoutBytes (XboxTlsClient.shutdown X)
  | .setDefaultOptions options => withoutBytes (modifyXbox fun x => { x with defaults := options })
  | .resetStats => withoutBytes (modifyStats fun _ => .zero)

/-- The call returns with this result. -/
def XboxReturns (call : XboxCall) (s : XboxSystem P V) (r : Except Error Bytes)
    (s' : XboxSystem P V) : Prop :=
  ∃ fuel, call.run X fuel s = some (r, s')

/-- A call of a run with the states around it. -/
structure XboxStep (P : Crypto) (V : Type) where
  before : XboxSystem P V
  call : XboxCall
  result : Except Error Bytes
  after : XboxSystem P V

/-- Calls one after the other. -/
inductive XboxRun : XboxSystem P V → List (XboxStep P V) → XboxSystem P V → Prop where
  | nil (s : XboxSystem P V) : XboxRun s [] s
  | snoc {s s' s'' : XboxSystem P V} {steps : List (XboxStep P V)} {call : XboxCall}
      {r : Except Error Bytes} :
      XboxRun s steps s' → XboxReturns X call s' r s'' →
        XboxRun s (steps ++ [⟨s', call, r, s''⟩]) s''

/-- A fresh client. -/
def XboxSystem.fresh (P : Crypto) (v : V) : XboxSystem P V :=
  ⟨.initial, System.fresh P ⟨.initial, .empty, v⟩⟩

end Runs

end XboxTls.Model
