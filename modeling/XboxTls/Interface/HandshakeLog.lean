import XboxTls.Model.Api

/-!
# The handshake as a log

The handshake messages of a connection and the steps that depend on them, in the order in
which they happened, and what a log has to look like for the client to have made it: the
hello messages (`HelloLog`), the key agreement, the encrypted flight (`FlightLog`) and the
client's Finished (`IsHandshake`).  What the log says of the verifier and of the Finished
messages rests on the calls: on the answers of the verifier (`Verdicts`) and on the functions
that check and build a Finished.
-/

set_option autoImplicit false

namespace XboxTls.Interface

open Programs XboxTls.Model

/-! ## Events and transcripts -/

/-- The events on handshake messages and on what is computed from them. -/
def handshakeEvent : Event → Bool
  | .clientHello _ _ | .retry _ _ | .serverHello _ _ | .sharedSecret _ _ | .chainVerified _ _
  | .signatureVerified _ _ _ _ | .authenticated _ _ _ _ | .finishedVerified _ | .flight _
  | .clientFinished _ _ => true
  | _ => false

/-- The log of a trace. -/
def handshakeEvents (evs : List Event) : List Event := evs.filter handshakeEvent

/-- The handshake events of a longer trace are those of its parts. -/
theorem handshakeEvents_append (a b : List Event) :
    handshakeEvents (a ++ b) = handshakeEvents a ++ handshakeEvents b :=
  List.filter_append _ _

/-- The messages of the server's encrypted flight that were accepted. -/
def flightMessages (evs : List Event) : List HandshakeMessage :=
  evs.filterMap fun ev => match ev with
    | .flight msg => some msg
    | _ => none

/-- The messages of a longer flight are those of its parts. -/
theorem flightMessages_append (a b : List Event) :
    flightMessages (a ++ b) = flightMessages a ++ flightMessages b :=
  List.filterMap_append

/-- What a message adds to the bytes that are hashed.  A HelloRetryRequest puts the
`message_hash` message in the place of the first ClientHello. -/
def hashEvent (P : Crypto) (hashed : Bytes) (ev : Event) : Bytes :=
  match ev with
  | .clientHello _ encoded => hashed ++ encoded
  | .retry encoded _ => messageHash (P.sha256 hashed) ++ encoded
  | .serverHello encoded _ => hashed ++ encoded
  | .flight msg => hashed ++ msg.encoded
  | .clientFinished _ encoded => hashed ++ encoded
  | _ => hashed

/-- The transcript: every message once, in order. -/
def transcriptBytes (P : Crypto) (evs : List Event) : Bytes := evs.foldl (hashEvent P) []

/-- One more event adds to the transcript what it hashes. -/
theorem transcriptBytes_concat (P : Crypto) (evs : List Event) (ev : Event) :
    transcriptBytes P (evs ++ [ev]) = hashEvent P (transcriptBytes P evs) ev := by
  simp only [transcriptBytes, List.foldl_append, List.foldl_cons, List.foldl_nil]

/-- The bytes of messages, one after the other. -/
def encodings (msgs : List HandshakeMessage) : Bytes := (msgs.map (·.encoded)).flatten

/-- One more message adds its bytes. -/
theorem encodings_concat (msgs : List HandshakeMessage) (msg : HandshakeMessage) :
    encodings (msgs ++ [msg]) = encodings msgs ++ msg.encoded := by
  simp [encodings]

/-- The bytes that reached the deframer under this protection. -/
def received (stage : Stage) (evs : List Event) : Bytes :=
  (evs.map fun ev => match ev with
    | .fragment stage' _ content => if stage' = stage then content else []
    | _ => []).flatten

/-- The bytes received in a longer trace are those of its parts. -/
theorem received_append (stage : Stage) (a b : List Event) :
    received stage (a ++ b) = received stage a ++ received stage b := by
  simp [received]

/-- The bytes of the server's hello messages in a log. -/
def serverHellos (evs : List Event) : Bytes :=
  (evs.map fun ev => match ev with
    | .retry encoded _ => encoded
    | .serverHello encoded _ => encoded
    | _ => []).flatten

/-- The hellos of a longer trace are those of its parts. -/
theorem serverHellos_append (a b : List Event) :
    serverHellos (a ++ b) = serverHellos a ++ serverHellos b := by
  simp [serverHellos]

/-! ## The hello messages -/

/-- This key share is the public value of this private key. -/
def KeyShareOf (P : Crypto) (group : NamedGroup) (privateKey : FixedBytes 32) (share : Bytes) :
    Prop :=
  (group = .x25519 ∧ share = (P.x25519PublicFromPrivate privateKey).val) ∨
    (group = .secp256r1 ∧ ∃ pub, P.p256PublicFromPrivate privateKey = .ok pub ∧ share = pub.val)

/-- The log up to the last ClientHello, the parameters of which are `p`. -/
inductive HelloLog (config : ClientConfig) : Bool → ClientHelloParams → List Event → Prop where
  /-- One ClientHello for the preferred group. -/
  | first {p : ClientHelloParams} {encoded : Bytes} (hgroup : p.group = config.preferredGroup)
      (hbuild : buildClientHello p 2048 = .ok encoded) :
      HelloLog config false p [.clientHello p encoded]
  /-- A HelloRetryRequest and a second ClientHello for the group that it names. -/
  | retry {p p' : ClientHelloParams} {log : List Event} {request encoded : Bytes}
      {info : ServerHelloInfo} (hfirst : HelloLog config false p log)
      (hparse : parseServerHello request = .ok info) (hretry : info.helloRetryRequest = true)
      (hchange : info.group ≠ p.group) (hgroup : p'.group = info.group)
      (hbuild : buildClientHello p' 2048 = .ok encoded) :
      HelloLog config true p' (log ++ [.retry request info, .clientHello p' encoded])

/-! ## The answers of the verifier -/

/-- What is known of the chains and of the signatures that a verifier accepted. -/
structure Verdicts where
  chain : ℕ → CertificateChainView → CString → Prop
  signature : ℕ → SignatureScheme → X509CertificateView → Bytes → Bytes → Prop

/-- A call of the verifier with these arguments returned `XT_OK`. -/
def acceptedBy {W : Type} (E : Env W) : Verdicts where
  chain verifier chain hostname :=
    ∃ w w', E.verifyChain verifier chain hostname w = some (.ok (), w')
  signature verifier scheme leaf message signature :=
    ∃ w w', E.verifySignature verifier scheme leaf message signature w = some (.ok (), w')

/-! ## The encrypted flight -/

/-- What the client judges a flight by: the verifier, the host name and the traffic secret of
the server's handshake keys. -/
structure FlightTerms where
  verifier : ℕ
  hostname : CString
  serverSecret : FixedBytes 32
  verdicts : Verdicts

/-- The events of one message of an encrypted flight: the transcript before the flight is
`base`, and before the message `msgs` were accepted and the locals of the flight loop were
`l`. -/
inductive FlightStep (P : Crypto) (base : Bytes) (terms : FlightTerms)
    (msgs : List HandshakeMessage) (l : FlightLocals) (msg : HandshakeMessage) :
    FlightLocals → List Event → Prop where
  | extensions (htype : msg.type = hsEncryptedExtensions) :
      FlightStep P base terms msgs l msg l [.flight msg]
  | certificate {info : CertificateInfo} (htype : msg.type = hsCertificate)
      (hparse : parseCertificate msg = .ok info) :
      FlightStep P base terms msgs l msg { l with certInfo := info, haveCert := true }
        [.flight msg]
  /-- `authenticate_server_flight` accepts the certificates that were saved last: the leaf has
  the host name, and the verifier accepts the chain and the signature. -/
  | verify {cv : CertificateVerifyInfo} {chain : CertificateChainView}
      {scheme : SignatureScheme} {leaf : X509CertificateView} {message : Bytes}
      (hcert : l.haveCert = true) (htype : msg.type = hsCertificateVerify)
      (hparse : parseCertificateVerify msg = .ok cv)
      (hchain : parseCertificateChain l.certInfo = .ok chain)
      (hleaf : x509ParseCertificate chain.leafDer = .ok leaf)
      (hname : x509VerifyHostname leaf terms.hostname = .ok ())
      (haccepted : terms.verdicts.chain terms.verifier chain terms.hostname)
      (hscheme : signatureScheme cv.algorithm = .ok scheme)
      (hkind : checkSchemeKind scheme leaf.publicKeyKind = .ok ())
      (hmessage : buildServerCertificateVerifyMessage (P.sha256 (base ++ encodings msgs)) 160 =
        .ok message)
      (hsigned : terms.verdicts.signature terms.verifier scheme leaf message cv.signature) :
      FlightStep P base terms msgs l msg l
        [.chainVerified chain terms.hostname,
          .signatureVerified scheme leaf message cv.signature,
          .authenticated l.certInfo cv (P.sha256 (base ++ encodings msgs)) terms.hostname,
          .flight msg]
  /-- `verify_finished_sha256` accepts the Finished over the transcript before it. -/
  | finished (htype : msg.type = hsFinished)
      (hverify : verifyFinishedSha256 P terms.serverSecret (P.sha256 (base ++ encodings msgs))
        msg = .ok ()) :
      FlightStep P base terms msgs l msg { l with gotFinished := true }
        [.finishedVerified (P.sha256 (base ++ encodings msgs)), .flight msg]

/-- The log of an encrypted flight: the messages that were accepted, the locals of the
flight loop after them, and the events.  A message is what its own bytes parse to, and
nothing is accepted after a Finished. -/
inductive FlightLog (P : Crypto) (base : Bytes) (terms : FlightTerms) :
    List HandshakeMessage → FlightLocals → List Event → Prop where
  | nil : FlightLog P base terms [] ⟨false, ⟨[], []⟩, false⟩ []
  | snoc {msgs : List HandshakeMessage} {l l' : FlightLocals} {log step : List Event}
      {msg : HandshakeMessage} (hlog : FlightLog P base terms msgs l log)
      (hopen : l.gotFinished = false)
      (hself : parseHandshakeMessage msg.encoded = .ok (msg, msg.encoded.length))
      (hstep : FlightStep P base terms msgs l msg l' step) :
      FlightLog P base terms (msgs ++ [msg]) l' (log ++ step)

/-! ## The whole handshake -/

/-- What a handshake is made of; `schedule` has the secrets of the handshake. -/
structure HandshakeParts where
  verifier : ℕ
  retried : Bool
  params : ClientHelloParams
  hellos : List Event
  serverHello : Bytes
  info : ServerHelloInfo
  privateKey : FixedBytes 32
  shared : FixedBytes 32
  schedule : KeySchedule
  messages : List HandshakeMessage
  locals : FlightLocals
  flight : List Event
  finished : Bytes

/-- The transcript through the ServerHello. -/
def HandshakeParts.helloBytes (P : Crypto) (h : HandshakeParts) : Bytes :=
  transcriptBytes P h.hellos ++ h.serverHello

/-- The transcript through the server's Finished. -/
def HandshakeParts.flightBytes (P : Crypto) (h : HandshakeParts) : Bytes :=
  h.helloBytes P ++ encodings h.messages

/-- The schedule from an empty PSK, the shared secret and the transcript of the hellos. -/
def HandshakeSchedule (P : Crypto) (before : KeySchedule) (shared : FixedBytes 32)
    (hello : Bytes) (schedule : KeySchedule) : Prop :=
  (before.deriveEarlySecret P []).deriveHandshakeSecret P shared.val (P.sha256 hello) =
    .ok schedule

/-- What the client judged the flight of the handshake by. -/
def HandshakeParts.terms (h : HandshakeParts) (verdicts : Verdicts) (hostname : CString) :
    FlightTerms :=
  ⟨h.verifier, hostname, h.schedule.serverHandshakeTrafficSecret, verdicts⟩

/-- The log of a whole handshake with these parts. -/
structure IsHandshake (P : Crypto) (verdicts : Verdicts) (config : ClientConfig)
    (hostname : CString) (h : HandshakeParts) (log : List Event) : Prop where
  log_eq : log = h.hellos ++ [.serverHello h.serverHello h.info,
    .sharedSecret h.privateKey h.shared] ++ h.flight ++
    [.clientFinished (P.sha256 (h.flightBytes P)) h.finished]
  configured : config.hostname = some hostname
  asked : config.verifier = some h.verifier
  hellos : HelloLog config h.retried h.params h.hellos
  parsed : parseServerHello h.serverHello = .ok h.info
  accepted : h.info.helloRetryRequest = false
  group : h.info.group = h.params.group
  keyShare : KeyShareOf P h.params.group h.privateKey h.params.keyShare
  shared : computeShared (P := P) h.privateKey h.info = .ok h.shared
  schedule : ∃ before, HandshakeSchedule P before h.shared (h.helloBytes P) h.schedule
  flight : FlightLog P (h.helloBytes P) (h.terms verdicts hostname) h.messages h.locals h.flight
  finished : h.locals.gotFinished = true
  answered : buildFinishedSha256 P h.schedule.clientHandshakeTrafficSecret
    (P.sha256 (h.flightBytes P)) 64 = .ok h.finished

end XboxTls.Interface
