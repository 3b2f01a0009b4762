import XboxTls.Model.X509Memory

/-!
# Certificate parsers that stay within their bounds

What the parsers of certificates must never do, whatever bytes a server sends: run on for ever,
read outside of what they are given, wrap a size, or return a span that leaves the certificate.
-/

set_option autoImplicit false

namespace XboxTls.Interface

open Programs.Guarded XboxTls.Model

/-- All spans of a view lie in `s`. -/
structure ViewWithin (s : ByteSpan) (v : X509CertificateSpans) : Prop where
  der : v.der.Within s
  tbsCertificate : v.tbsCertificate.Within s
  issuerName : v.issuerName.Within s
  subjectName : v.subjectName.Within s
  subjectPublicKeyInfo : v.subjectPublicKeyInfo.Within s
  subjectPublicKeyBits : v.subjectPublicKeyBits.Within s
  subjectAltName : v.subjectAltName.Within s

/-- Every certificate parser on the span `s`: it comes to an end without a fault, and the spans
that it returns lie in `s`.  The check of a host name is made on the view that was parsed, or on
any view whose names are `s`, if four can still be added to an offset in `s`. -/
structure CertificateParsersSafe (m : Memory) (s : ByteSpan) : Prop where
  certificate : Safe
    (fun v => ViewWithin s v ∧
      ∀ hostname, Safe (fun _ => True) (m.x509VerifyHostname v hostname))
    (m.x509ParseCertificate s)
  signature : Safe (fun r => r.tbs.Within s ∧ r.sig.Within s) (m.certSignature s)
  pssParams : Safe (fun _ => True) (m.parsePssSha256Params s)
  hostname : s.size + 4 < m.limit → ∀ v : X509CertificateSpans, v.subjectAltName = s →
    ∀ hostname, Safe (fun _ => True) (m.x509VerifyHostname v hostname)

end XboxTls.Interface
