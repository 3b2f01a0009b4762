import XboxTls.Model.NativeVerifier

/-!
# Certification paths

What a valid server certificate is, in terms of whole paths and without the loops of
`verify_chain`: one rule for every adjacent pair of a path (`ValidLink`), the conditions
on the leaf (`LeafConditions`) and a trust anchor that ends the path (`Trusted`).  Which
certificates are in date is a parameter: those that are valid at one time (`InDate`), or at
some moment of a clock.
-/

set_option autoImplicit false

namespace XboxTls.Interface

open XboxTls.Model

/-- The certificate is within its validity, when a clock is given. -/
def InDate (now : Option UInt64) (v : X509CertificateView) : Prop :=
  ∀ t, now = some t → v.notBefore ≤ t.toNat ∧ t.toNat ≤ v.notAfter

/-- A clock that stands still. -/
def stillClock {V : Type} (t : UInt64) (v : V) : UInt64 × V := (t, v)

/-- A CA that is allowed to sign certificates and is in date. -/
structure IsIssuer (dated : X509CertificateView → Prop) (v : X509CertificateView) : Prop where
  constraints : v.basicConstraintsPresent = true
  ca : v.isCa = true
  maySign : v.keyUsagePresent = true → v.keyUsageKeyCertSign = true
  inDate : dated v

/-- The bytes are those of a CA certificate. -/
def isCaCertificate (der : Bytes) : Bool :=
  match x509ParseCertificate der with
  | .error _ => false
  | .ok v => v.basicConstraintsPresent && v.isCa

/-- The rule for a child and its issuer, with the certificates that stand strictly between
the issuer and the leaf. -/
def ValidLink (P : Crypto) (dated : X509CertificateView → Prop)
    (between : List Bytes) (child issuer : Bytes) : Prop :=
  ∃ cv iv, x509ParseCertificate child = .ok cv ∧ x509ParseCertificate issuer = .ok iv ∧
    cv.issuerName = iv.subjectName ∧
    IsIssuer dated iv ∧
    (iv.pathLenPresent = true → between.countP isCaCertificate ≤ iv.pathLenConstraint) ∧
    verifyCertSignedBy P child issuer = .ok ()

/-- Every adjacent pair of a path obeys the rule; `between` are the certificates between
the leaf and the issuer of the path's first certificate. -/
inductive ValidFrom (P : Crypto) (dated : X509CertificateView → Prop) :
    List Bytes → List Bytes → Prop where
  | top (between : List Bytes) (c : Bytes) : ValidFrom P dated between [c]
  | link {between : List Bytes} {child issuer : Bytes} {rest : List Bytes} :
      ValidLink P dated between child issuer →
      ValidFrom P dated (between ++ [issuer]) (issuer :: rest) →
      ValidFrom P dated between (child :: issuer :: rest)

/-- A path from a leaf up. -/
def ValidPath (P : Crypto) (dated : X509CertificateView → Prop) (path : List Bytes) : Prop :=
  ValidFrom P dated [] path

/-- The conditions on the leaf. -/
structure LeafConditions (P : Crypto) (v : NativeServerAuthVerifier)
    (dated : X509CertificateView → Prop) (hostname : CString) (leafDer : Bytes)
    (leaf : X509CertificateView) : Prop where
  parses : x509ParseCertificate leafDer = .ok leaf
  pinned : v.leafCertificateSha256PinEnabled = true →
    P.sha256 leafDer = v.leafCertificateSha256Pin
  notCa : ¬ (leaf.basicConstraintsPresent = true ∧ leaf.isCa = true)
  maySign : leaf.keyUsagePresent = true → leaf.keyUsageDigitalSignature = true
  serverAuth : leaf.extendedKeyUsagePresent = true → leaf.ekuServerAuth = true
  inDate : dated leaf
  hostname : x509VerifyHostname leaf hostname = .ok ()

/-- The path that a chain forms with an anchor. -/
def pathTo (chain : List Bytes) (anchor : Bytes) : List Bytes :=
  if chain.getLast? = some anchor then chain else chain ++ [anchor]

/-- Some anchor is an issuer that ends a valid path. -/
def Trusted (P : Crypto) (dated : X509CertificateView → Prop) (anchors chain : List Bytes) :
    Prop :=
  ∃ anchor ∈ anchors, ∃ av, x509ParseCertificate anchor = .ok av ∧ IsIssuer dated av ∧
    ValidPath P dated (pathTo chain anchor)

end XboxTls.Interface
