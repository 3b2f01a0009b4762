import XboxTls.Model.Client

/-!
# The connection (`connection.cpp`)

The methods of `TlsClient`.  A loop that ends only when the peer makes it end runs on
fuel: with none left it has no outcome, so a fact about every outcome is a fact about
every run that returns.  The loop of `send` and the loops that drain the deframer run on
the number of bytes they have left to take.
-/

set_option autoImplicit false

namespace XboxTls.Model

open Programs

variable {P : Crypto} {W : Type} (E : Env W)

/-! ## Key shares -/

/-- The attempts to draw a P-256 private key; a failing `random_bytes` is reported as
`report` of its code, and `last` is the code of the last key that was refused.
SOURCE: src/tls/connection.cpp:135-143 and 267-274 -/
def generateP256 (report : Error → Error) : ℕ → Error → ClientM P W Unit
  | 0, last => failWith E last
  | attempts + 1, _ => do
    let c ← getClient
    let platform ← deref c.config.platform
    let r ← Prog.attempt (callWorld (E.randomBytes platform 32))
    match r with
    | .error e => failWith E (report e)
    | .ok privateKey => do
      modifyClient fun c => { c with privateKey := privateKey }
      match P.p256PublicFromPrivate privateKey with
      | .error e => generateP256 report attempts e
      | .ok publicKey => modifyClient fun c => { c with publicKey := publicKey }

/-- The clamping of an X25519 private key. -/
def clampPrivateKey (k : FixedBytes 32) : FixedBytes 32 :=
  (k.set 0 (byteAt k.val 0 &&& 248)).set 31 (byteAt k.val 31 &&& 127 ||| 64)

/-- A fresh X25519 key; a failing `random_bytes` is reported as `report` of its code.
SOURCE: src/tls/connection.cpp:145-151 and 281-292 -/
def generateX25519 (report : Error → Error) : ClientM P W Unit := do
  let c ← getClient
  let platform ← deref c.config.platform
  let r ← Prog.attempt (callWorld (E.randomBytes platform 32))
  match r with
  | .error e => failWith E (report e)
  | .ok bytes =>
    let privateKey := clampPrivateKey bytes
    modifyClient fun c => { c with
      privateKey := privateKey
      publicKey := c.publicKey.overwrite (P.x25519PublicFromPrivate privateKey) (by decide) }

/-- A key for a group, and the length of its public value.
SOURCE: src/tls/connection.cpp:132-158 and 265-297 -/
def generateKeyShare (report : Error → Error) (group : NamedGroup) : ClientM P W ℕ :=
  if group = .secp256r1 then do
    generateP256 E report 16 .verify
    pure 65
  else if group = .x25519 then do
    generateX25519 E report
    pure 32
  else failWith E .unsupported

/-- Build, hash and send a ClientHello.
SOURCE: src/tls/connection.cpp:166-181 and 301-312 -/
def sendClientHello (p : ClientHelloParams) : ClientM P W Unit := do
  match buildClientHello p 2048 with
  | .error e => do
    modifyClient fun c => { c with clientHello := [] }
    failWith E e
  | .ok encoded => do
    modifyClient fun c => { c with clientHello := encoded }
    hashMessage encoded
    orFail E (sendPlainRecord E contentHandshake encoded)
    emit (.clientHello p encoded)

/-! ## The hello loop -/

/-- The locals of `connect` that the hello loop reads and changes. -/
structure HelloLocals where
  sid : FixedBytes 32
  activeGroup : NamedGroup
  params : ClientHelloParams
  hadHrr : Bool

/-- A record of the hello loop: its content goes to the deframer.
SOURCE: src/tls/connection.cpp:195-229 -/
def readHelloRecord : ClientM P W Unit := do
  let record ← orFail E (readRecord E 16645)
  let rh ← orFail E (Prog.lift (parseRecordHeader record))
  if rh.type = contentChangeCipherSpec then do
    emit (.changeCipherSpec .plaintext record)
    if rh.length ≠ 1 ∨ byteAt record 5 ≠ 1 then failWith E .badRecord else pure ()
  else if rh.type = contentAlert then do
    let ae ← handleAlert (slice record 5 rh.length)
    failWith E ae
  else if rh.type ≠ contentHandshake then failWith E .badHandshake
  else orFail E (appendFragment .plaintext (slice record 5 rh.length))

/-- Consume a hello message; nothing may follow it in the deframer.
SOURCE: src/tls/connection.cpp:260-264 and 316-320 -/
def consumeHello : ClientM P W Unit := do
  let r ← Prog.attempt consumeMessage
  match r with
  | .error _ => failWith E .badHandshake
  | .ok () => do
    let c ← getClient
    if c.deframer.buffer.length ≠ 0 then failWith E .badHandshake else pure ()

/-- The `message_hash` message that stands for the first ClientHello after a retry. -/
def messageHash (ch1Hash : FixedBytes 32) : Bytes := [0xfe, 0, 0, 32] ++ ch1Hash.val

/-- The transcript that starts again from the `message_hash` message. -/
def retryTranscript (t : TranscriptHash P) : TranscriptHash P :=
  transcriptUpdate P P.shaReset (messageHash (transcriptSnapshot P t))

/-- A HelloRetryRequest: the transcript starts again, and a second ClientHello goes out.
SOURCE: src/tls/connection.cpp:244-314 -/
def retryHello (h : HelloLocals) (hm : HandshakeMessage) (sh : ServerHelloInfo) :
    ClientM P W HelloLocals :=
  if h.hadHrr ∨ sh.group = h.activeGroup then failWith E .badHandshake
  else do
    modifyClient fun c => { c with transcript := retryTranscript c.transcript }
    hashMessage hm.encoded
    consumeHello E
    emit (.retry hm.encoded sh)
    let publicLen ← generateKeyShare E (fun _ => .crypto) sh.group
    let c ← getClient
    let params := { h.params with
      group := sh.group
      keyShare := c.publicKey.val.take publicLen
      cookie := sh.cookie }
    sendClientHello E params
    pure { h with activeGroup := sh.group, params := params, hadHrr := true }

/-- The loop `while (!got_sh)`.
SOURCE: src/tls/connection.cpp:191-322 -/
def helloLoop : ℕ → HelloLocals → ClientM P W (ServerHelloInfo × HelloLocals)
  | 0, _ => Prog.diverge
  | fuel + 1, h => do
    let c ← getClient
    match c.deframer.peek with
    | .error .bufferTooSmall => do
      readHelloRecord E
      helloLoop fuel h
    | .error _ => failWith E .badHandshake
    | .ok hm =>
      if hm.type ≠ hsServerHello then failWith E .badHandshake
      else do
        let sh ← orFail E (Prog.lift (parseServerHello hm.encoded))
        if sh.sessionId ≠ h.sid.val then failWith E .badHandshake
        else if sh.helloRetryRequest then do
          let h' ← retryHello E h hm sh
          helloLoop fuel h'
        else do
          hashMessage hm.encoded
          consumeHello E
          emit (.serverHello hm.encoded sh)
          pure (sh, h)

/-! ## The handshake keys -/

/-- The key agreement for the group of the ServerHello.
SOURCE: src/tls/connection.cpp:331-336 -/
def computeShared (privateKey : FixedBytes 32) (sh : ServerHelloInfo) :
    Except Error (FixedBytes 32) :=
  if sh.group = .x25519 ∧ sh.keyShare.length = 32 then
    P.x25519SharedSecret privateKey (FixedBytes.ofBytes 32 sh.keyShare)
  else if sh.group = .secp256r1 ∧ sh.keyShare.length = 65 then
    P.p256SharedSecret privateKey (FixedBytes.ofBytes 65 sh.keyShare)
  else .error .unsupported

/-- From the accepted ServerHello to the handshake traffic keys.
SOURCE: src/tls/connection.cpp:323-365 -/
def deriveHandshakeKeys (sh : ServerHelloInfo) (activeGroup : NamedGroup) :
    ClientM P W Unit := do
  let c ← getClient
  let beyond := c.deframer.buffer
  modifyClient fun c => { c with deframer := c.deframer.reset }
  if sh.group ≠ activeGroup then failWith E .badHandshake
  else do
    let c ← getClient
    let shared ← orFail E (Prog.lift (computeShared (P := P) c.privateKey sh))
    emit (.sharedSecret c.privateKey shared)
    modifyClient fun c => { c with schedule := c.schedule.deriveEarlySecret P [] }
    let c ← getClient
    let th := transcriptSnapshot P c.transcript
    let schedule ← orFail E (Prog.lift (c.schedule.deriveHandshakeSecret P shared.val th))
    modifyClient fun c => { c with schedule := schedule }
    orFail E (deriveKeys .clientHs schedule.clientHandshakeTrafficSecret)
    orFail E (deriveKeys .serverHs schedule.serverHandshakeTrafficSecret)
    emit (.readKeysChanged .handshake beyond)

/-! ## The encrypted flight -/

/-- `authenticate_server_flight`.
SOURCE: src/tls/authentication.cpp:58-102 -/
def authenticateServerFlight (certificates : CertificateInfo)
    (certificateVerify : CertificateVerifyInfo) (th : FixedBytes 32)
    (hostname : Option CString) (verifier : Option ℕ) : ClientM P W Unit :=
  match verifier, hostname with
  | some verifier, some hostname => do
    let chain ← Prog.lift (parseCertificateChain certificates)
    let leaf ← Prog.lift (x509ParseCertificate chain.leafDer)
    Prog.lift (x509VerifyHostname leaf hostname)
    callWorld (E.verifyChain verifier chain hostname)
    emit (.chainVerified chain hostname)
    let scheme ← Prog.lift (signatureScheme certificateVerify.algorithm)
    Prog.lift (checkSchemeKind scheme leaf.publicKeyKind)
    let message ← Prog.lift (buildServerCertificateVerifyMessage th 160)
    callWorld (E.verifySignature verifier scheme leaf message certificateVerify.signature)
    emit (.signatureVerified scheme leaf message certificateVerify.signature)
    emit (.authenticated certificates certificateVerify th hostname)
  | _, _ => Prog.throw .verify

/-- The locals of `process_server_handshake` that `handle_handshake_message` changes. -/
structure FlightLocals where
  gotFinished : Bool
  certInfo : CertificateInfo
  haveCert : Bool
  deriving DecidableEq, Repr

/-- The copy of the selected protocol name to `negotiated_alpn_`.
SOURCE: src/tls/connection.cpp:461-466 -/
def storeAlpn (alpn : Option Bytes) : ClientM P W Unit :=
  match alpn with
  | none => pure ()
  | some alpn =>
    if alpn.length ≥ 256 then Prog.throw .badHandshake
    else modifyClient fun c => { c with negotiatedAlpn := alpn }

/-- The EncryptedExtensions branch.
SOURCE: src/tls/connection.cpp:456-469 -/
def handleEncryptedExtensions (msg : HandshakeMessage) (l : FlightLocals) :
    ClientM P W FlightLocals := do
  let ee ← Prog.lift (parseEncryptedExtensions msg)
  storeAlpn ee.alpn
  hashMessage msg.encoded
  emit (.flight msg)
  pure l

/-- The Certificate branch.
SOURCE: src/tls/connection.cpp:470-487 -/
def handleCertificate (msg : HandshakeMessage) (l : FlightLocals) :
    ClientM P W FlightLocals :=
  if msg.encoded.length > 24576 then Prog.throw .bufferTooSmall
  else do
    modifyClient fun c => { c with certificateStorage := msg.encoded }
    let saved ← Prog.lift (parseHandshakeMessage msg.encoded)
    let certInfo ← Prog.lift (parseCertificate saved.1)
    hashMessage msg.encoded
    emit (.flight msg)
    pure { l with certInfo := certInfo, haveCert := true }

/-- The CertificateVerify branch.
SOURCE: src/tls/connection.cpp:488-503 -/
def handleCertificateVerify (msg : HandshakeMessage) (l : FlightLocals) :
    ClientM P W FlightLocals :=
  if l.haveCert = false then Prog.throw .badHandshake
  else do
    let cv ← Prog.lift (parseCertificateVerify msg)
    let c ← getClient
    authenticateServerFlight E l.certInfo cv (transcriptSnapshot P c.transcript)
      c.config.hostname c.config.verifier
    hashMessage msg.encoded
    emit (.flight msg)
    pure l

/-- The Finished branch.
SOURCE: src/tls/connection.cpp:504-514 -/
def handleFinished (msg : HandshakeMessage) (l : FlightLocals) : ClientM P W FlightLocals := do
  let c ← getClient
  let th := transcriptSnapshot P c.transcript
  Prog.lift (verifyFinishedSha256 P c.schedule.serverHandshakeTrafficSecret th msg)
  emit (.finishedVerified th)
  hashMessage msg.encoded
  emit (.flight msg)
  pure { l with gotFinished := true }

/-- `TlsClient::handle_handshake_message`.
SOURCE: src/tls/connection.cpp:451-516 -/
def handleHandshakeMessage (msg : HandshakeMessage) (l : FlightLocals) :
    ClientM P W FlightLocals :=
  if msg.type = hsEncryptedExtensions then handleEncryptedExtensions msg l
  else if msg.type = hsCertificate then handleCertificate msg l
  else if msg.type = hsCertificateVerify then handleCertificateVerify E msg l
  else if msg.type = hsFinished then handleFinished msg l
  else Prog.throw .unsupported

/-- The loop that drains the deframer; every round takes at least four bytes out of it.
SOURCE: src/tls/connection.cpp:407-422 -/
def drainFlight : ℕ → FlightLocals → ClientM P W FlightLocals
  | 0, _ => Prog.diverge
  | fuel + 1, l => do
    let c ← getClient
    match c.deframer.peek with
    | .error .bufferTooSmall => pure l
    | .error e => Prog.throw e
    | .ok msg => do
      let l' ← handleHandshakeMessage E msg l
      consumeMessage
      if l'.gotFinished then pure l' else drainFlight fuel l'

/-- One round of the flight loop.
SOURCE: src/tls/connection.cpp:380-422 -/
def flightRound (l : FlightLocals) : ClientM P W FlightLocals := do
  let record ← readRecord E 16645
  let rh ← Prog.lift (parseRecordHeader record)
  if rh.type = contentChangeCipherSpec then do
    emit (.changeCipherSpec .handshake record)
    pure l
  else if rh.type = contentAlert then do
    let e ← handleAlert (slice record 5 rh.length)
    Prog.throw e
  else if rh.type ≠ contentApplicationData then Prog.throw .badRecord
  else do
    let (inner, content) ← unprotectRecord .serverHs record
    if inner = contentAlert then do
      let e ← handleAlert content
      Prog.throw e
    else if inner ≠ contentHandshake then Prog.throw .badHandshake
    else do
      appendFragment .handshake content
      let c ← getClient
      drainFlight E (c.deframer.buffer.length + 1) l

/-- The loop `while (!got_finished)`.
SOURCE: src/tls/connection.cpp:379-423 -/
def flightLoop : ℕ → FlightLocals → ClientM P W Unit
  | 0, _ => Prog.diverge
  | fuel + 1, l =>
    if l.gotFinished then pure ()
    else do
      let l' ← flightRound E l
      flightLoop fuel l'

/-- The application keys and the client's Finished.
SOURCE: src/tls/connection.cpp:424-448 -/
def finishHandshake : ClientM P W Unit := do
  let c ← getClient
  let th := transcriptSnapshot P c.transcript
  let schedule ← Prog.lift (c.schedule.deriveMasterSecret P th)
  modifyClient fun c => { c with schedule := schedule }
  deriveKeys .clientApp schedule.clientApplicationTrafficSecret
  deriveKeys .serverApp schedule.serverApplicationTrafficSecret
  let c ← getClient
  emit (.readKeysChanged .application c.deframer.buffer)
  let th := transcriptSnapshot P c.transcript
  let fin ← Prog.lift (buildFinishedSha256 P schedule.clientHandshakeTrafficSecret th 64)
  sendProtected E contentHandshake fin
  hashMessage fin
  emit (.clientFinished th fin)

/-- `TlsClient::process_server_handshake`.
SOURCE: src/tls/connection.cpp:375-449 -/
def processServerHandshake (fuel : ℕ) : ClientM P W Unit := do
  flightLoop E fuel ⟨false, ⟨[], []⟩, false⟩
  finishHandshake E

/-! ## `connect` -/

/-- What `connect` sets before it draws random bytes.
SOURCE: src/tls/connection.cpp:110-119 -/
def beginConnect (config : ClientConfig) (c : TlsClient P) : TlsClient P :=
  { c with
    config := config
    state := .handshaking
    transcript := P.shaReset
    deframer := c.deframer.reset
    certificateStorage := []
    negotiatedAlpn := []
    pendingAppOffset := 0
    pendingAppLength := 0
    lastAlertLevel := 0
    lastAlertDescription := 0 }

/-- The arguments that `connect` refuses.
SOURCE: src/tls/connection.cpp:107-109 -/
def ClientConfig.usable (config : ClientConfig) : Bool :=
  config.platform.isSome && config.stream.isSome && config.verifier.isSome &&
    (config.hostname.any fun h => h.val.length ≠ 0)

/-- From the random bytes to the first ClientHello on the wire.
SOURCE: src/tls/connection.cpp:120-190 -/
def startHello (config : ClientConfig) : ClientM P W HelloLocals := do
  let platform ← deref config.platform
  let random ← orFail E (callWorld (E.randomBytes platform 32))
  let sid ← orFail E (callWorld (E.randomBytes platform 32))
  let publicLen ← generateKeyShare E (fun e => e) config.preferredGroup
  let c ← getClient
  let params : ClientHelloParams :=
    { random32 := random.val
      sessionId := sid.val
      keyShare := c.publicKey.val.take publicLen
      group := config.preferredGroup
      serverName := config.hostname
      alpn := config.alpn
      cookie := [] }
  sendClientHello E params
  modifyClient fun c => { c with deframer := c.deframer.reset }
  pure ⟨sid, config.preferredGroup, params, false⟩

/-- From the random bytes to the end of the handshake.
SOURCE: src/tls/connection.cpp:120-370 -/
def connectHandshake (fuel : ℕ) (config : ClientConfig) : ClientM P W Unit := do
  let h ← startHello E config
  let (sh, h) ← helloLoop E fuel h
  deriveHandshakeKeys E sh h.activeGroup
  orFail E (processServerHandshake E fuel)

/-- `TlsClient::connect`.
SOURCE: src/tls/connection.cpp:106-373 -/
def connect (fuel : ℕ) (config : ClientConfig) : ClientM P W Unit := do
  let c ← getClient
  if c.state ≠ .idle ∨ config.usable = false then Prog.throw .invalidArgument
  else do
    modifyClient (beginConnect config)
    emit (.connect config)
    connectHandshake E fuel config
    modifyClient fun c => { c with state := .connected }

/-! ## After the handshake -/

/-- `update_traffic_secret_sha256` on the client's application secret and keys. -/
def updateClientKeys : ClientM P W Unit := do
  let c ← getClient
  let (next, keys) ← Prog.lift
    (updateTrafficSecretSha256 P c.schedule.clientApplicationTrafficSecret)
  modifyClient fun c => { c with
    schedule := { c.schedule with clientApplicationTrafficSecret := next }
    clientAppKeys := keys }
  emit (.keysDerived .clientApp keys)

/-- `update_traffic_secret_sha256` on the server's application secret and keys. -/
def updateServerKeys : ClientM P W Unit := do
  let c ← getClient
  let (next, keys) ← Prog.lift
    (updateTrafficSecretSha256 P c.schedule.serverApplicationTrafficSecret)
  modifyClient fun c => { c with
    schedule := { c.schedule with serverApplicationTrafficSecret := next }
    serverAppKeys := keys }
  emit (.keysDerived .serverApp keys)

/-- A KeyUpdate message. -/
def keyUpdateMessage (requestUpdate : Bool) : Bytes :=
  [hsKeyUpdate, 0, 0, 1, if requestUpdate then 1 else 0]

/-- A KeyUpdate from the server, which is still at the front of the deframer.
SOURCE: src/tls/connection.cpp:542-558 -/
def handleKeyUpdate (msg : HandshakeMessage) : ClientM P W Unit :=
  if msg.body.length ≠ 1 ∨ byteAt msg.body 0 > 1 then Prog.throw .badHandshake
  else do
    updateServerKeys
    let c ← getClient
    emit (.readKeysChanged .application (c.deframer.buffer.drop msg.encoded.length))
    if byteAt msg.body 0 = 1 then do
      sendProtected E contentHandshake (keyUpdateMessage false)
      updateClientKeys
    else pure ()

/-- A message after the handshake.
SOURCE: src/tls/connection.cpp:539-561 -/
def handlePostHandshake (msg : HandshakeMessage) : ClientM P W Unit :=
  if msg.type = hsNewSessionTicket then pure ()
  else if msg.type = hsKeyUpdate then handleKeyUpdate E msg
  else Prog.throw .unsupported

/-- The loop of `process_post_handshake`; every round takes at least four bytes out of the
deframer.
SOURCE: src/tls/connection.cpp:532-565 -/
def drainPostHandshake : ℕ → ClientM P W Unit
  | 0 => Prog.diverge
  | fuel + 1 => do
    let c ← getClient
    match c.deframer.peek with
    | .error .bufferTooSmall => pure ()
    | .error e => Prog.throw e
    | .ok msg => do
      handlePostHandshake E msg
      consumeMessage
      emit (.postHandshake msg)
      drainPostHandshake fuel

/-- `TlsClient::process_post_handshake`.
SOURCE: src/tls/connection.cpp:528-566 -/
def processPostHandshake (content : Bytes) : ClientM P W Unit := do
  appendFragment .application content
  let c ← getClient
  drainPostHandshake E (c.deframer.buffer.length + 1)

/-- `TlsClient::key_update`.
SOURCE: src/tls/connection.cpp:569-596 -/
def keyUpdate (requestPeerUpdate : Bool) : ClientM P W Unit := do
  let c ← getClient
  if c.state ≠ .connected then Prog.throw .closed
  else do
    orFail E (sendProtected E contentHandshake (keyUpdateMessage requestPeerUpdate))
    orFail E updateClientKeys

/-- One record of `send`.
SOURCE: src/tls/connection.cpp:614-624 -/
def sendChunk (padding : ℕ) (content : Bytes) : ClientM P W Unit := do
  let record ← protectRecord E .clientApp contentApplicationData content padding
  let c ← getClient
  let stream ← deref c.config.stream
  writeStream E stream record

/-- The loop of `send`: `data` is what `data.data + off` still holds, and every round
takes at least one byte of it.
SOURCE: src/tls/connection.cpp:609-630 -/
def sendLoop (padding maxContent : ℕ) : ℕ → Bytes → ClientM P W Unit
  | 0, _ => pure ()
  | fuel + 1, data =>
    if data.length = 0 then pure ()
    else do
      let n := min data.length maxContent
      orFail E (sendChunk E padding (data.take n))
      sendLoop padding maxContent fuel (data.drop n)

/-- `TlsClient::send`; `null` is whether the data pointer is null.
SOURCE: src/tls/connection.cpp:598-632 -/
def send (null : Bool) (data : Bytes) : ClientM P W Unit := do
  let c ← getClient
  if c.state ≠ .connected then Prog.throw .closed
  else if data.length ≠ 0 ∧ null then Prog.throw .invalidArgument
  else
    let padding := min c.config.applicationRecordPadding 255
    sendLoop E padding (16623 - padding) data.length data

/-- `memcpy` of `n` bytes out of `pending_app_`; past the end of the array it reads what lies
there.
SOURCE: src/tls/connection.cpp:644-645 -/
def readPending (offset n : ℕ) : ClientM P W Bytes := do
  let c ← getClient
  if offset + n ≤ 16384 then pure (slice c.pendingApp offset n)
  else do
    let behind ← updateWorld fun w =>
      (E.readBehind (offset - 16384) (n - (16384 - offset)) w, w)
    pure (slice (c.pendingApp.take 16384) offset n ++ behind.val)

/-- The branch of `recv` that empties the pending buffer.
SOURCE: src/tls/connection.cpp:640-652 -/
def recvPending (size : ℕ) : ClientM P W Bytes := do
  let c ← getClient
  let n := min c.pendingAppLength size
  let bytes ← readPending E c.pendingAppOffset n
  let left := c.pendingAppLength - n
  modifyClient fun c => { c with
    pendingAppOffset := if left = 0 then 0 else c.pendingAppOffset + n
    pendingAppLength := left }
  emit (.delivered bytes)
  pure bytes

/-- `memcpy` of these bytes into `pending_app_`.  What is longer than the array goes over the
offset and the length, which are assigned afterwards, over the two bytes of the last alert and
over what follows the object.
SOURCE: src/tls/connection.cpp:690-692 -/
def copyToPending (rest : Bytes) : ClientM P W Unit := do
  let behind := rest.drop 16384
  if behind.length = 0 then pure ()
  else updateWorld fun w => ((), E.writeBehind behind w)
  modifyClient fun c => { c with
    pendingApp := rest
    pendingAppOffset := 0
    pendingAppLength := rest.length
    lastAlertLevel := behind.getD (2 * E.sizeOfSize) c.lastAlertLevel
    lastAlertDescription := behind.getD (2 * E.sizeOfSize + 1) c.lastAlertDescription }

/-- The copy of what did not fit.
SOURCE: src/tls/connection.cpp:688-693 -/
def keepRest (content : Bytes) (n : ℕ) : ClientM P W Unit :=
  if n < content.length then copyToPending E (content.drop n) else pure ()

/-- The branch of `recv` on application data: what fits `size` bytes is returned, the rest
is kept.
SOURCE: src/tls/connection.cpp:681-695 -/
def recvData (content : Bytes) (size : ℕ) : ClientM P W Bytes := do
  let n := min content.length size
  emit (.appData content size)
  keepRest E content n
  emit (.delivered (content.take n))
  pure (content.take n)

/-- A close_notify from the server.
SOURCE: src/tls/connection.cpp:699-702 -/
def recvClosed : ClientM P W Bytes := do
  modifyClient fun c => { c with state := .closed }
  closeStream E
  modifyClient fun c => c.wipeSecrets
  Prog.throw .closed

/-- The branch of `recv` on an alert.
SOURCE: src/tls/connection.cpp:696-706 -/
def recvAlert (content : Bytes) : ClientM P W Bytes := do
  let ae ← handleAlert content
  if ae = .closed then recvClosed E else failWith E ae

/-- The loop of `recv` over the records.
SOURCE: src/tls/connection.cpp:654-717 -/
def recvRecords (size : ℕ) : ℕ → ClientM P W Bytes
  | 0 => Prog.diverge
  | fuel + 1 => do
    let record ← orFail E (readRecord E 16645)
    let rh ← orFail E (Prog.lift (parseRecordHeader record))
    if rh.type = contentChangeCipherSpec then do
      emit (.changeCipherSpec .application record)
      recvRecords size fuel
    else if rh.type ≠ contentApplicationData then failWith E .badRecord
    else do
      let (inner, content) ← orFail E (unprotectRecord .serverApp record)
      if inner = contentApplicationData then recvData E content size
      else if inner = contentAlert then recvAlert E content
      else if inner = contentHandshake then do
        orFail E (processPostHandshake E content)
        recvRecords size fuel
      else failWith E .badRecord

/-- `TlsClient::recv`; the flags are whether `received` and `out.data` are null, and `size`
is `out.size`.  The value is the bytes copied to `out`.
SOURCE: src/tls/connection.cpp:634-718 -/
def recv (fuel : ℕ) (receivedNull outNull : Bool) (size : ℕ) : ClientM P W Bytes := do
  let c ← getClient
  if receivedNull ∨ (outNull ∧ size ≠ 0) then Prog.throw .invalidArgument
  else if c.state ≠ .connected then Prog.throw .closed
  else if c.pendingAppLength ≠ 0 then recvPending E size
  else recvRecords E size fuel

/-- `TlsClient::reset`.
SOURCE: src/tls/connection.cpp:721-741 -/
def reset : ClientM P W Unit := do
  let c ← getClient
  if c.state = .handshaking then Prog.throw .invalidArgument
  else do
    closeStream E
    modifyClient fun c =>
      { c.wipeSecrets with
        config := .default
        transcript := P.shaReset
        deframer := c.deframer.reset
        certificateStorage := []
        clientHello := []
        negotiatedAlpn := []
        pendingAppOffset := 0
        pendingAppLength := 0
        lastAlertLevel := 0
        lastAlertDescription := 0
        state := .idle }

/-- The close_notify alert of a connected client; its error is dropped.
SOURCE: src/tls/connection.cpp:746-749 -/
def sendCloseNotify (c : TlsClient P) : ClientM P W (Except Error Unit) :=
  if c.state = .connected then Prog.attempt (sendProtected E contentAlert [1, 0])
  else pure (.ok ())

/-- `TlsClient::close`.
SOURCE: src/tls/connection.cpp:743-755 -/
def close : ClientM P W Unit := do
  let c ← getClient
  if c.state = .closed then pure ()
  else do
    let _ ← sendCloseNotify E c
    closeStream E
    modifyClient fun c => { c.wipeSecrets with state := .closed }

end XboxTls.Model
