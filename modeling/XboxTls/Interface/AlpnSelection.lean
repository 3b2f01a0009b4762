import XboxTls.Interface.ClientHelloGrammar
import XboxTls.Interface.HandshakeLog

/-!
# The protocol that the server selects

A client that is connected speaks no protocol, or one that it offered.
-/

set_option autoImplicit false

namespace XboxTls.Interface

open XboxTls.Model

variable {P : Crypto}

/-- The protocols in an extension. -/
def HelloExtension.protocols : HelloExtension → List Bytes
  | .alpn names => names
  | _ => []

end XboxTls.Interface
