import XboxTls.Interface.PathValidation
import XboxTls.Interface.ServerFlight
import XboxTls.Interface.TrustStoreFormat
import XboxTls.Model.XboxClient

/-!
# Whom the console trusts

What a successful `connect` of `XboxTlsClient` should say about the server: its certificates
lead to one of the trust store that the client holds, by the clock of the console, under the
name and the pin that were given to this `connect`, and its key signed the handshake.
-/

set_option autoImplicit false

namespace XboxTls.Interface

open XboxTls.Model

variable {P : Crypto} {V : Type}

/-- The name and the options of a `connect` in either form. -/
def connectTarget (client : XboxTlsClient) : XboxCall → Option (Option CString × XboxTlsOptions)
  | .connectTo hostname port alpn => some (hostname, client.defaults.towards port alpn)
  | .connect hostname options => some (hostname, options)
  | _ => none

/-- The client holds a trust store with these certificates. -/
structure HoldsStore (s : XboxSystem P V) (certificates : List Bytes) : Prop where
  storable : Storable certificates
  block : ∃ block, s.client.trustStoreData = some block ∧
    s.tls.world.heap.lookup block = some (xts1 certificates)

/-- A verifier with these anchors and the pin of the options. -/
def verifierOf (certificates : List Bytes) (h : certificates.length ≤ 16)
    (options : XboxTlsOptions) : NativeServerAuthVerifier :=
  ⟨certificates, h, options.certificateSha256Pin.getD (.zero 32),
    options.certificateSha256Pin.isSome⟩

/-- The certificate was valid at some moment of the clock. -/
def DatedBy (X : XboxEnv V) (view : X509CertificateView) : Prop :=
  ∃ v : V, InDate (some (X.unixTimeSeconds v).1) view

/-- The verifier vouches for the server of an authentication: its certificate met the conditions
on a leaf and ended a trusted path, each certificate of which was valid at some moment of the
clock, and its key signed the message. -/
structure Vouches (P : Crypto) (X : XboxEnv V) (verifier : NativeServerAuthVerifier)
    (a : Authentication) : Prop where
  leaf : LeafConditions P verifier (DatedBy X) a.hostname a.chain.leafDer a.leaf
  trusted : Trusted P (DatedBy X) verifier.anchors
    (a.chain.entries.map CertificateChainEntry.der)
  signature : NativeServerAuthVerifier.verifySignature P a.scheme a.leaf a.message
    a.certificateVerify.signature = .ok ()

/-- The handshake authenticated its server against the store that the client holds. -/
def StoreAuthenticated (X : XboxEnv V) (s : XboxSystem P V) (hostname : CString)
    (options : XboxTlsOptions) (log : List Event) : Prop :=
  ∃ (certificates : List Bytes) (h : HoldsStore s certificates) (a : Authentication),
    IsAuthentication P (acceptedBy (tlsEnv P X)) (options.clientConfig hostname) log a ∧
      Vouches P X (verifierOf certificates h.storable.count options) a

end XboxTls.Interface
