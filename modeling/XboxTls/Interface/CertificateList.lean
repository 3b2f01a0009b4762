import XboxTls.Model.Authentication

/-!
# Certificate lists

The `certificate_list` of a TLS 1.3 Certificate message: the entries one after the other, each
of them a certificate with a length of 24 bits and a block of extensions with a length of 16.
-/

set_option autoImplicit false

namespace XboxTls.Interface

open XboxTls.Model

/-- An entry that can be encoded: a certificate that is not empty, and lengths that fit. -/
structure EncodableEntry (e : CertificateChainEntry) : Prop where
  nonempty : 0 < e.der.length
  derBound : e.der.length < 2 ^ 24
  extensionsBound : e.extensions.length < 2 ^ 16

/-- The encoding of an entry. -/
def encodeEntry (e : CertificateChainEntry) : Bytes :=
  storeBe24 e.der.length ++ e.der ++ (storeBe16 e.extensions.length ++ e.extensions)

/-- The encoding of a list. -/
def encodeEntries (es : List CertificateChainEntry) : Bytes := es.flatMap encodeEntry

end XboxTls.Interface
