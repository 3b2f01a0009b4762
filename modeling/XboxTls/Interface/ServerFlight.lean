import XboxTls.Interface.HandshakeLog

/-!
# What an encrypted flight should be

The two demands on the server's encrypted flight: that it authenticates the server
(`Authenticated`) and that it is the flight of the profile (`ProfileFlight`); and the
conditions on the types of the messages under which the client's flight loop meets them.
-/

set_option autoImplicit false

namespace XboxTls.Interface

open XboxTls.Model

/-- The types of the messages of the encrypted flight in a log. -/
def flightTypes (evs : List Event) : List UInt8 := (flightMessages evs).map (·.type)

/-! ## Authentication -/

/-- A successful call of `authenticate_server_flight` in a log. -/
structure Authentication where
  verifier : ℕ
  before : List Event
  after : List Event
  certificate : HandshakeMessage
  info : CertificateInfo
  certificateVerify : CertificateVerifyInfo
  chain : CertificateChainView
  leaf : X509CertificateView
  scheme : SignatureScheme
  message : Bytes
  hostname : CString

/-- The call was made for the certificate list of the last Certificate message, for the
configured host name and for a CertificateVerify over the transcript through that message; the
configured verifier accepted the chain and the signature, the leaf has the host name and its
key fits the scheme; and all this was before the server's Finished was accepted. -/
structure IsAuthentication (P : Crypto) (verdicts : Verdicts) (config : ClientConfig)
    (log : List Event) (a : Authentication) : Prop where
  log_eq : log = a.before ++ .authenticated a.info a.certificateVerify
    (P.sha256 (transcriptBytes P a.before)) a.hostname :: a.after
  verified : [.chainVerified a.chain a.hostname,
    .signatureVerified a.scheme a.leaf a.message a.certificateVerify.signature] <:+ a.before
  configured : config.hostname = some a.hostname
  asked : config.verifier = some a.verifier
  last : (flightMessages a.before).getLast? = some a.certificate
  certificate : a.certificate.type = hsCertificate
  parsed : parseCertificate a.certificate = .ok a.info
  chain : parseCertificateChain a.info = .ok a.chain
  leaf : x509ParseCertificate a.chain.leafDer = .ok a.leaf
  name : x509VerifyHostname a.leaf a.hostname = .ok ()
  accepted : verdicts.chain a.verifier a.chain a.hostname
  request : ∃ msg, (flightMessages a.after).head? = some msg ∧ msg.type = hsCertificateVerify ∧
    parseCertificateVerify msg = .ok a.certificateVerify
  scheme : signatureScheme a.certificateVerify.algorithm = .ok a.scheme
  kind : checkSchemeKind a.scheme a.leaf.publicKeyKind = .ok ()
  message : buildServerCertificateVerifyMessage (P.sha256 (transcriptBytes P a.before)) 160 =
    .ok a.message
  signed : verdicts.signature a.verifier a.scheme a.leaf a.message a.certificateVerify.signature
  finished : ∃ th, .finishedVerified th ∈ a.after
  noneLater : hsCertificate ∉ flightTypes a.after

/-- The server was authenticated. -/
def Authenticated (P : Crypto) (verdicts : Verdicts) (config : ClientConfig)
    (log : List Event) : Prop :=
  ∃ a, IsAuthentication P verdicts config log a

/-- The last Certificate is directly followed by a CertificateVerify. -/
def LastCertificateVerified (types : List UInt8) : Prop :=
  ∃ a b, types = a ++ [hsCertificate, hsCertificateVerify] ++ b ∧ hsCertificate ∉ b

/-! ## The flight of the profile -/

/-- EncryptedExtensions, Certificate, CertificateVerify, Finished. -/
def ProfileFlight (types : List UInt8) : Prop :=
  types = [hsEncryptedExtensions, hsCertificate, hsCertificateVerify, hsFinished]

/-- EncryptedExtensions come first, and they, the Certificate and the CertificateVerify come
exactly once. -/
def EachOnceExtensionsFirst (types : List UInt8) : Prop :=
  types.head? = some hsEncryptedExtensions ∧ types.count hsEncryptedExtensions = 1 ∧
    types.count hsCertificate = 1 ∧ types.count hsCertificateVerify = 1

end XboxTls.Interface
