import XboxTls.Interface.CertificateParts
import XboxTls.Model.DerReaders

/-!
# The bytes that are signed

A certificate is walked over twice: by the parser that fills the view, and by the verifier
that finds the signed bytes.  `SignedIsParsed` says that both walks see the same parts.
-/

set_option autoImplicit false

namespace XboxTls.Interface

open XboxTls.Model

/-- The element that these spans are of. -/
def readSpans (input : Bytes) (t : TlvSpans) : DerTlv :=
  ⟨t.tag, t.full.bytes input, t.value.bytes input, t.next⟩

/-- The three readers do the same on every input and at every offset, and `derTlv` and `tlv` are
what they read. -/
structure ReadersAgree : Prop where
  native : ∀ input off, nativeTlv input off = x509DerTlv input off
  rsa : ∀ input off, rsaTlv input off =
    (x509DerTlv input off).map fun t => ⟨t.tag, t.value, t.next⟩
  derTlv : ∀ input off, derTlv input off = (x509DerTlv input off).map (readSpans input)
  tlv : ∀ input off, tlv input off = (nativeTlv input off).map (readSpans input)

/-- The element is read from inside the value of another one. -/
def ReadInside (outer t : DerTlv) : Prop := ∃ off, derTlv outer.value off = .ok t

/-- The signed bytes are those of the TBSCertificate, all of the view is read from inside them,
and the two signature algorithms that are compared are the field behind the serial number and
the field behind the TBSCertificate. -/
structure SignedIsParsed (der : Bytes) (v : X509CertificateView) (cs : CertSig)
    (parts : CertificateParts) (blocks : List (List CertExtension)) (times : ℕ × ℕ)
    (key : PublicKeyKind × Bytes) (outer : DerTlv) : Prop where
  accepted : AcceptedAs der v parts blocks times key
  cert : derTlv der 0 = .ok parts.cert
  tbs : derTlv parts.cert.value 0 = .ok parts.tbs
  signed : cs.tbs = parts.tbs.full
  viewed : v.tbsCertificate = parts.tbs.full
  content : parts.tbs.value <:+ parts.tbs.full
  inside : ∀ t ∈ [parts.serial, parts.signature, parts.issuer, parts.validity, parts.subject,
    parts.spki] ++ parts.trailing, ReadInside parts.tbs t
  issuer : v.issuerName = parts.issuer.full
  subject : v.subjectName = parts.subject.full
  notBefore : v.notBefore = times.1
  notAfter : v.notAfter = times.2
  publicKeyInfo : v.subjectPublicKeyInfo = parts.spki.full
  publicKeyKind : v.publicKeyKind = key.1
  publicKeyBits : v.subjectPublicKeyBits = key.2
  innerAlgorithm : derTlv parts.tbs.value parts.serial.next = .ok parts.signature
  outerAlgorithm : derTlv parts.cert.value parts.tbs.next = .ok outer
  sameAlgorithm : parts.signature.full = outer.full

end XboxTls.Interface
