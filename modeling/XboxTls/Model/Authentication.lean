import XboxTls.Model.Handshake
import XboxTls.Model.X509

/-!
# Server authentication (`authentication.cpp`)

The certificate chain of a Certificate message, the message that a CertificateVerify
signs, and the checks on the signature scheme.  The calls to the verifier object are in
`XboxTls.Model.Connection`, beside the function that makes them.
-/

set_option autoImplicit false

namespace XboxTls.Model

/-! ## Chains -/

/-- `CertificateChainEntry`. -/
structure CertificateChainEntry where
  der : Bytes
  extensions : Bytes
  deriving DecidableEq, Repr

/-- `CertificateChainView`: the entries in use of its array of eight. -/
structure CertificateChainView where
  entries : List CertificateChainEntry
  bound : entries.length ≤ 8
  deriving DecidableEq, Repr

/-- The view after construction. -/
def CertificateChainView.empty : CertificateChainView := ⟨[], Nat.zero_le 8⟩

/-- `entries[0].der`. -/
def CertificateChainView.leafDer (chain : CertificateChainView) : Bytes :=
  (chain.entries.map CertificateChainEntry.der).headD []

/-- The loop of `parse_certificate_chain`; `s` is what `s.data + p` still holds, and every
round takes at least six bytes.
SOURCE: src/tls/authentication.cpp:19-38 -/
def parseCertificateChainLoop :
    ℕ → Bytes → CertificateChainView → Except Error CertificateChainView
  | 0, _, out => .ok out
  | fuel + 1, s, out =>
    if s.length = 0 then .ok out
    else if h : out.entries.length ≥ 8 ∨ s.length < 3 then .error .badHandshake
    else
      let certLen := loadBe24 s 0
      let p := s.drop 3
      if certLen = 0 ∨ certLen > p.length then .error .badHandshake
      else
        let q := p.drop certLen
        if q.length < 2 then .error .badHandshake
        else
          let extLen := loadBe16 q 0
          let r := q.drop 2
          if extLen > r.length then .error .badHandshake
          else
            parseCertificateChainLoop fuel (r.drop extLen)
              ⟨out.entries ++ [⟨p.take certLen, r.take extLen⟩], by
                rw [List.length_append, List.length_singleton]
                omega⟩

/-- `parse_certificate_chain`.
SOURCE: src/tls/authentication.cpp:13-40 -/
def parseCertificateChain (info : CertificateInfo) : Except Error CertificateChainView := do
  let s := info.certificateList
  let out ← parseCertificateChainLoop s.length s .empty
  if out.entries.length ≠ 0 then .ok out else .error .verify

/-! ## CertificateVerify -/

/-- `SignatureScheme`. -/
inductive SignatureScheme where
  | ecdsaSecp256r1Sha256
  | rsaPssRsaeSha256
  | rsaPssPssSha256
  deriving DecidableEq, Repr

/-- The scheme that a CertificateVerify names.
SOURCE: src/tls/authentication.cpp:79-87 -/
def signatureScheme (algorithm : ℕ) : Except Error SignatureScheme :=
  if algorithm = 0x0403 then .ok .ecdsaSecp256r1Sha256
  else if algorithm = 0x0804 then .ok .rsaPssRsaeSha256
  else if algorithm = 0x0809 then .ok .rsaPssPssSha256
  else .error .unsupported

/-- The scheme fits the kind of the leaf's key.
SOURCE: src/tls/authentication.cpp:88-91 -/
def checkSchemeKind (scheme : SignatureScheme) (kind : PublicKeyKind) : Except Error Unit :=
  if (scheme = .ecdsaSecp256r1Sha256 ∧ kind ≠ .ecP256) ∨
      ((scheme = .rsaPssRsaeSha256 ∨ scheme = .rsaPssPssSha256) ∧ kind ≠ .rsa) then
    .error .verify
  else .ok ()

/-- The context string of a server CertificateVerify. -/
def serverCertificateVerifyContext : Bytes :=
  ascii ['T', 'L', 'S', ' ', '1', '.', '3', ',', ' ', 's', 'e', 'r', 'v', 'e', 'r', ' ',
    'C', 'e', 'r', 't', 'i', 'f', 'i', 'c', 'a', 't', 'e', 'V', 'e', 'r', 'i', 'f', 'y']

/-- `build_server_certificate_verify_message` into a buffer of `capacity` bytes.
SOURCE: src/tls/authentication.cpp:42-56 -/
def buildServerCertificateVerifyMessage (transcriptHash : FixedBytes 32) (capacity : ℕ) :
    Except Error Bytes :=
  if capacity < 64 + serverCertificateVerifyContext.length + 1 + 32 then .error .bufferTooSmall
  else .ok (List.replicate 64 0x20 ++ serverCertificateVerifyContext ++ [0] ++ transcriptHash.val)

end XboxTls.Model
