import XboxTls.Model.HandshakeMemory

/-!
# Handshake parsers that stay within their bounds

What the parsers of the server's messages must never do, whatever bytes they are given: run on
for ever, read outside of the message, write past the end of an array, or return a span that
leaves the message.
-/

set_option autoImplicit false

namespace XboxTls.Interface

open Programs.Guarded XboxTls.Model

/-- Every handshake parser on the span `s`: it comes to an end without a fault, and the spans
that it returns lie in `s`. -/
structure HandshakeParsersSafe (m : Memory) (s : ByteSpan) : Prop where
  message : Safe (fun r => r.1.body.Within s ∧ r.1.encoded.Within s ∧ r.2 ≤ s.size)
    (m.parseHandshakeMessage s)
  serverHello : Safe
    (fun r => r.sessionIdLength ≤ 32 ∧ r.keyShareLength ≤ 65 ∧ r.cookieLength ≤ 512)
    (m.parseServerHello s)
  encryptedExtensions : ∀ type encoded, Safe (fun r => r.alpn.Within s)
    (m.parseEncryptedExtensions ⟨type, s, encoded⟩)
  certificate : ∀ type encoded,
    Safe (fun r => r.requestContext.Within s ∧ r.certificateList.Within s)
      (m.parseCertificate ⟨type, s, encoded⟩)
  certificateVerify : ∀ type encoded, Safe (fun r => r.signature.Within s)
    (m.parseCertificateVerify ⟨type, s, encoded⟩)
  certificateChain : ∀ context, Safe
    (fun r => r.count ≤ 8 ∧ ∀ e ∈ r.entries.val, e.der.Within s ∧ e.extensions.Within s)
    (m.parseCertificateChain ⟨context, s⟩)

end XboxTls.Interface
