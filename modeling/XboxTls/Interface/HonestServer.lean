import XboxTls.Interface.Fragmentation
import XboxTls.Interface.HandshakeLog
import XboxTls.Interface.RecordStream
import XboxTls.Interface.ScriptedServer
import XboxTls.Interface.ServerHelloGrammar
import XboxTls.Interface.StandardSchedule

/-!
# A server of the profile

A server that plays its part: a share, a certificate and a key to sign with, and the messages
and the keys that follow from them and from the ClientHello by the formulas of RFC 8446.  Its
schedule starts from an empty PSK, as that of the client does.
-/

set_option autoImplicit false

namespace XboxTls.Interface

open Programs XboxTls.Model

namespace Standard

variable (hash : Bytes → Bytes)

/-- HKDF-Expand-Label for at most 32 bytes. -/
def expandLabel (n : ℕ) (secret label context : Bytes) : Bytes :=
  (hkdfExpand hash secret (storeBe16 n ++
    vector8 (ascii ['t', 'l', 's', '1', '3', ' '] ++ label) ++ vector8 context)).take n

/-- The record keys of a traffic secret. -/
def trafficKeys (secret : Bytes) : TrafficKeys where
  key := FixedBytes.ofBytes 16 (expandLabel hash 16 secret (ascii ['k', 'e', 'y']) [])
  iv := FixedBytes.ofBytes 12 (expandLabel hash 12 secret (ascii ['i', 'v']) [])
  sequenceNumber := 0

/-- The verify data of a Finished behind these messages. -/
def verifyData (secret messages : Bytes) : Bytes :=
  hmac hash (expandLabel hash 32 secret
    (ascii ['f', 'i', 'n', 'i', 's', 'h', 'e', 'd']) []) (hash messages)

/-- What a server signs behind these messages. -/
def signedContent (messages : Bytes) : Bytes :=
  List.replicate 64 0x20 ++ serverCertificateVerifyContext ++ [0] ++ hash messages

/-- The verify data has the length of the hash. -/
theorem verifyData_length (P : Crypto) (secret messages : Bytes) :
    (verifyData (digest P) secret messages).length = 32 :=
  (P.sha256 _).property

end Standard

/-- The key agreement of a group. -/
def sharedSecret (P : Crypto) (group : NamedGroup) (privateKey : FixedBytes 32) (share : Bytes) :
    Except Error (FixedBytes 32) :=
  if group = .x25519 ∧ share.length = 32 then
    P.x25519SharedSecret privateKey (FixedBytes.ofBytes 32 share)
  else if group = .secp256r1 ∧ share.length = 65 then
    P.p256SharedSecret privateKey (FixedBytes.ofBytes 65 share)
  else .error .unsupported

/-- With the shares of each other, both sides get one secret. -/
def KeysAgree (P : Crypto) (group : NamedGroup) : Prop :=
  ∀ a b shareA shareB shared, KeyShareOf P group a shareA → KeyShareOf P group b shareB →
    sharedSecret P group a shareB = .ok shared → sharedSecret P group b shareA = .ok shared

/-- What a server is: its private key and its share, the protocol that it selects and the message
that says so, its certificates, and how it signs. -/
structure Server where
  key : FixedBytes 32
  share : SupportedShare
  alpn : Option Bytes
  extensions : OutgoingMessage
  certificate : OutgoingMessage
  algorithm : ℕ
  sign : Bytes → Bytes
  signBound : ∀ content, (sign content).length ≤ 0xFFFF

namespace Server

variable (P : Crypto) (server : Server)

/-- The CertificateVerify behind these messages. -/
def certificateVerify (messages : Bytes) : OutgoingMessage where
  type := hsCertificateVerify
  body := storeBe16 server.algorithm ++
    storeBe16 (server.sign (Standard.signedContent (Standard.digest P) messages)).length ++
    server.sign (Standard.signedContent (Standard.digest P) messages)
  fits := by
    have hbound := server.signBound (Standard.signedContent (Standard.digest P) messages)
    simp only [List.length_append, storeBe16_length]
    omega

end Server

/-- A Finished behind these messages. -/
def finishedOf (P : Crypto) (secret messages : Bytes) : OutgoingMessage where
  type := hsFinished
  body := Standard.verifyData (Standard.digest P) secret messages
  fits := by
    rw [Standard.verifyData_length]
    decide

namespace Server

variable (P : Crypto) (server : Server)

/-- The messages of the flight up to the Finished, behind the hellos `hello`. -/
def signedFlight (hello : Bytes) : List OutgoingMessage :=
  [server.extensions, server.certificate, server.certificateVerify P
    (hello ++ server.extensions.encode ++ server.certificate.encode)]

/-- The encrypted flight behind the hellos `hello`, with this handshake secret. -/
def flight (secret hello : Bytes) : List OutgoingMessage :=
  server.signedFlight P hello ++
    [finishedOf P secret (hello ++ flightBytes (server.signedFlight P hello))]

/-- The traffic secrets for this shared secret and these hellos. -/
def secrets (shared : FixedBytes 32) (hello : Bytes) : Standard.TrafficSecrets :=
  let secret :=
    (Standard.trafficSecrets (Standard.digest P) [] shared.val hello []).serverHandshake
  Standard.trafficSecrets (Standard.digest P) [] shared.val hello
    (hello ++ flightBytes (server.flight P secret hello))

/-- Everything that the server sends in the flight. -/
def messages (shared : FixedBytes 32) (hello : Bytes) : List OutgoingMessage :=
  server.flight P (server.secrets P shared hello).serverHandshake hello

end Server

/-! ## The records of the server -/

/-- The change_cipher_spec record of middlebox compatibility. -/
def changeCipherSpecRecord : Bytes := plainRecord contentChangeCipherSpec [1]

/-- How a server puts its messages into records: its ServerHello with records of
change_cipher_spec before and behind it, and the way of cutting the flight. -/
structure Reply where
  random : FixedBytes 32
  fresh : random.val ≠ hrrRandom
  hello : HelloParts
  before : ℕ
  after : ℕ
  cut : List FlightRecord

namespace Server

variable (P : Crypto) (server : Server)

/-- The bytes of a reply, behind the bytes `sent` that the client has hashed. -/
def replyBytes (sent : Bytes) (shared : FixedBytes 32) (reply : Reply) : Bytes :=
  (List.replicate reply.before changeCipherSpecRecord).flatten ++
    plainRecord contentHandshake reply.hello.encode ++
    ((List.replicate reply.after changeCipherSpecRecord).flatten ++
      sealFlight P (Standard.trafficKeys (Standard.digest P)
        (server.secrets P shared (sent ++ reply.hello.encode)).serverHandshake) reply.cut)

/-- The reply is one to a ClientHello with these parameters, which completes the bytes `sent`:
the ServerHello fits it, the secret is that of the key agreement, and the flight is cut into
records that the reassembly buffer can take. -/
structure Replies (p : ClientHelloParams) (sent : Bytes) (shared : FixedBytes 32) (reply : Reply) :
    Prop where
  kind : reply.hello.OfKind (.serverHello reply.random reply.fresh server.share)
  session : reply.hello.sessionId = p.sessionId
  short : reply.hello.encode.length ≤ 16384
  group : server.share.group = p.group
  ownShare : KeyShareOf P p.group server.key server.share.share
  agrees : sharedSecret P p.group server.key p.keyShare = .ok shared
  cuts : Cuts (server.messages P shared (sent ++ reply.hello.encode)) reply.cut
  room : HasRoom (server.messages P shared (sent ++ reply.hello.encode)) reply.cut

/-- The client takes what this server shows it: the messages can be read, the certificates are
for its host name, and its verifier accepts them and the signatures. -/
structure Shows {W : Type} (E : Env W) (config : ClientConfig) : Prop where
  extensions : server.extensions.type = hsEncryptedExtensions
  selects : parseEncryptedExtensions server.extensions.received = .ok ⟨server.alpn⟩
  alpnBound : ∀ name, server.alpn = some name → name.length < 256
  certificate : server.certificate.type = hsCertificate
  certificateBound : server.certificate.encode.length ≤ 24576
  signs : ∀ content, server.sign content ≠ []
  accepted : ∃ info chain leaf scheme verifier hostname,
    config.verifier = some verifier ∧ config.hostname = some hostname ∧
    parseCertificate server.certificate.received = .ok info ∧
    parseCertificateChain info = .ok chain ∧ x509ParseCertificate chain.leafDer = .ok leaf ∧
    x509VerifyHostname leaf hostname = .ok () ∧
    signatureScheme server.algorithm = .ok scheme ∧
    checkSchemeKind scheme leaf.publicKeyKind = .ok () ∧
    (∀ w, ∃ w', E.verifyChain verifier chain hostname w = some (.ok (), w')) ∧
    ∀ content w, ∃ w', E.verifySignature verifier scheme leaf content (server.sign content) w =
      some (.ok (), w')

end Server

/-- Nothing fails on the client's side: the random source gives 32 bytes, which are a private key
of the group, writes and memory allocation succeed. -/
structure Cooperates (P : Crypto) {W : Type} (E : Env W) (group : NamedGroup) : Prop
    extends Accepting E where
  random : ∀ platform w, ∃ b w', E.randomBytes platform 32 w = some (.ok b, w') ∧
    (group = .secp256r1 → ∃ share, P.p256PublicFromPrivate b = .ok share)

/-- A host name and protocols that fit a ClientHello of 2048 bytes: no protocol name is empty or
longer than 255 bytes, and all together are not too long. -/
structure HelloFits (config : ClientConfig) : Prop where
  pieces : ∀ alpn, config.alpn = some alpn → ∀ piece ∈ alpnPieces alpn.val,
    1 ≤ piece.length ∧ piece.length ≤ 255
  total : (config.hostname.elim 0 fun h => h.val.length) +
    (config.alpn.elim 0 fun a => a.val.length) ≤ 1300

/-- The ClientHello `ch` of these parameters offers a share of this group and the name and the
protocols of the configuration. -/
structure Offers (P : Crypto) (config : ClientConfig) (group : NamedGroup) (p : ClientHelloParams)
    (ch : Bytes) : Prop where
  built : buildClientHello p 2048 = .ok ch
  group : p.group = group
  share : ∃ privateKey, KeyShareOf P p.group privateKey p.keyShare
  name : p.serverName = config.hostname
  protocols : p.alpn = config.alpn

/-- Behind the hellos `hello` the client has the configuration, the protocol, the secrets and the
keys that the server has, and waits for application data; the last record that it has written is
the Finished that the server expects, sealed with the keys of the client's handshake secret. -/
structure Agreed (P : Crypto) {W : Type} (config : ClientConfig) (server : Server)
    (shared : FixedBytes 32) (hello : Bytes) (s : System P W) : Prop where
  state : s.client.state = .connected
  config : s.client.config = config
  alpn : s.client.negotiatedAlpn = server.alpn.getD []
  secrets : Standard.secretsOf s.client.schedule = server.secrets P shared hello
  sends : s.client.clientAppKeys = Standard.trafficKeys (Standard.digest P)
    (server.secrets P shared hello).clientApplication
  receives : s.client.serverAppKeys = Standard.trafficKeys (Standard.digest P)
    (server.secrets P shared hello).serverApplication
  buffered : s.client.deframer.buffer = []
  pending : s.client.pendingAppLength = 0
  finished : (writtenRecords s.trace).getLast? = some (sealedRecord P
    (Standard.trafficKeys (Standard.digest P) (server.secrets P shared hello).clientHandshake)
    contentHandshake (finishedOf P (server.secrets P shared hello).clientHandshake
      (hello ++ flightBytes (server.messages P shared hello))).encode 0)

/-- `connect` with a stream whose first bytes are `heard`: it completes with every server of the
profile that then replies to the ClientHello of these parameters, which completes the bytes
`sent`. -/
def Completes (P : Crypto) {W : Type} (E : Env W) (config : ClientConfig) (s : System P W)
    (heard : Bytes) (p : ClientHelloParams) (sent : Bytes) : Prop :=
  ∀ (S : Segmentation) (ended : Option Error) (t : S.State) (server : Server) (reply : Reply)
    (shared : FixedBytes 32) (rest : Bytes), KeysAgree P p.group → server.Shows E config →
    server.Replies P p sent shared reply →
    S.left t = heard ++ server.replyBytes P sent shared reply ++ rest →
    ∃ s' : System P (S.State × W), Returns (segmented S ended E) (.connect config)
      ⟨s.client, (t, s.world), s.trace⟩ (.ok []) s' ∧
      Agreed P config server shared (sent ++ reply.hello.encode) s' ∧ S.left s'.world.1 = rest

end XboxTls.Interface
