import XboxTls.Model.NativeVerifier

/-!
# The parts of a certificate

A certificate as DER describes it: the fields of the TBSCertificate in their order, and the
extensions with what each of the four that matter encodes.  Nothing here keeps state from
one extension to the next.
-/

set_option autoImplicit false

namespace XboxTls.Interface

open XboxTls.Model

/-! ## Elements -/

/-- The elements from `off` to the end of `b`; each one takes at least two bytes. -/
def elementsFrom (b : Bytes) : ℕ → ℕ → Except Error (List DerTlv)
  | 0, _ => .ok []
  | fuel + 1, off =>
    if off < b.length then do
      let t ← derTlv b off
      let rest ← elementsFrom b fuel t.next
      pure (t :: rest)
    else .ok []

/-- The elements of `b`. -/
def elements (b : Bytes) : Except Error (List DerTlv) := elementsFrom b b.length 0

/-- A SEQUENCE and nothing more: what it contains. -/
def sequenceContent (b : Bytes) : Except Error Bytes := do
  let seq ← derTlv b 0
  if seq.tag = 0x30 ∧ seq.next = b.length then .ok seq.value else .error .badHandshake

/-! ## The fields -/

/-- A certificate and the fields of its TBSCertificate; `trailing` is what follows the
public key. -/
structure CertificateParts where
  cert : DerTlv
  tbs : DerTlv
  serial : DerTlv
  signature : DerTlv
  issuer : DerTlv
  validity : DerTlv
  subject : DerTlv
  spki : DerTlv
  trailing : List DerTlv
  deriving DecidableEq, Repr

/-- The parts of a certificate; a version field comes before the serial number. -/
def certificateParts (der : Bytes) : Except Error CertificateParts := do
  let cert ← derTlv der 0
  let tbs ← derTlv cert.value 0
  let first ← derTlv tbs.value 0
  let serial ← derTlv tbs.value (if first.tag = 0xA0 then first.next else 0)
  let signature ← derTlv tbs.value serial.next
  let issuer ← derTlv tbs.value signature.next
  let validity ← derTlv tbs.value issuer.next
  let subject ← derTlv tbs.value validity.next
  let spki ← derTlv tbs.value subject.next
  let trailing ← elementsFrom tbs.value tbs.value.length spki.next
  pure ⟨cert, tbs, serial, signature, issuer, validity, subject, spki, trailing⟩

/-! ## Extensions -/

/-- `Extension`. -/
structure CertExtension where
  oid : Bytes
  critical : Bool
  value : Bytes
  deriving DecidableEq, Repr

/-- A SEQUENCE of an OBJECT IDENTIFIER, a BOOLEAN that may be left out, and an OCTET STRING. -/
def certExtension (e : DerTlv) : Except Error CertExtension :=
  if e.tag ≠ 0x30 then .error .badHandshake
  else do
    match ← elements e.value with
    | [oid, v] =>
      if oid.tag = 0x06 ∧ v.tag = 0x04 then .ok ⟨oid.value, false, v.value⟩
      else .error .badHandshake
    | [oid, c, v] =>
      if oid.tag = 0x06 ∧ c.tag = 0x01 ∧ c.value.length = 1 ∧ v.tag = 0x04 then
        .ok ⟨oid.value, byteAt c.value 0 ≠ 0, v.value⟩
      else .error .badHandshake
    | _ => .error .badHandshake

/-- The extensions of a [3] block: a SEQUENCE of them. -/
def blockExtensions (block : DerTlv) : Except Error (List CertExtension) := do
  let list ← sequenceContent block.value
  let es ← elements list
  es.mapM certExtension

/-- The [3] blocks of a certificate. -/
def extensionBlocks (parts : CertificateParts) : Except Error (List (List CertExtension)) :=
  (parts.trailing.filter fun f => f.tag = 0xA3).mapM blockExtensions

/-- The extensions that the client understands. -/
def knownOids : List Bytes := [oidSan, oidBc, oidKu, oidEku]

/-! ## What an extension encodes -/

/-- A `pathLenConstraint` of at most four bytes. -/
def isPathLen (t : DerTlv) : Bool :=
  t.tag = 0x02 ∧ 1 ≤ t.value.length ∧ t.value.length ≤ 4 ∧ (byteAt t.value 0).toNat < 0x80

/-- A BOOLEAN. -/
def isBoolean (t : DerTlv) : Bool := t.tag = 0x01 ∧ t.value.length = 1

/-- `BasicConstraints`: the `cA` flag and the path length, if there is one. -/
def basicConstraintsOf (value : Bytes) : Except Error (Bool × Option ℕ) := do
  let content ← sequenceContent value
  match ← elements content with
  | [] => .ok (false, none)
  | [a] =>
    if isBoolean a then .ok (byteAt a.value 0 ≠ 0, none)
    else if isPathLen a then .ok (false, some (beNat a.value))
    else .error .badHandshake
  | [a, b] =>
    if isBoolean a ∧ isPathLen b then .ok (byteAt a.value 0 ≠ 0, some (beNat b.value))
    else .error .badHandshake
  | _ => .error .badHandshake

/-- `KeyUsage`, a BIT STRING: digitalSignature is its first bit and keyCertSign its sixth. -/
def keyUsageOf (value : Bytes) : Except Error (Bool × Bool) := do
  let ku ← derTlv value 0
  if ku.tag = 0x03 ∧ ku.next = value.length ∧ 2 ≤ ku.value.length ∧
      (byteAt ku.value 0).toNat ≤ 7 then
    .ok (byteAt ku.value 1 &&& 0x80 ≠ 0, byteAt ku.value 1 &&& 0x04 ≠ 0)
  else .error .badHandshake

/-- `ExtKeyUsage`, a SEQUENCE of OBJECT IDENTIFIERs: whether serverAuth is one of them. -/
def serverAuthOf (value : Bytes) : Except Error Bool := do
  let content ← sequenceContent value
  let es ← elements content
  if es.all fun e => e.tag = 0x06 then .ok (es.any fun e => e.value = oidServerAuth)
  else .error .badHandshake

/-! ## How the view is filled -/

/-- The two times of a Validity field. -/
def validityOf (full : Bytes) : Except Error (ℕ × ℕ) :=
  (parseValidity full .empty).map fun v => (v.notBefore, v.notAfter)

/-- The kind and the bits of a public key. -/
def publicKeyOf (full : Bytes) : Except Error (PublicKeyKind × Bytes) :=
  (parseSpki full .empty).map fun v => (v.publicKeyKind, v.subjectPublicKeyBits)

/-- An extension with this OID changes the view as its value says. -/
inductive ReadOne (e : CertExtension) (out : X509CertificateView) : X509CertificateView → Prop where
  | subjectAltName {names : Bytes} (hoid : e.oid = oidSan)
      (hvalue : sequenceContent e.value = .ok names) :
      ReadOne e out { out with subjectAltName := some names }
  | basicConstraints {bc : Bool × Option ℕ} (hoid : e.oid = oidBc)
      (hvalue : basicConstraintsOf e.value = .ok bc) :
      ReadOne e out { out with
        basicConstraintsPresent := true
        isCa := bc.1
        pathLenPresent := bc.2.isSome || out.pathLenPresent
        pathLenConstraint := bc.2.getD out.pathLenConstraint }
  | keyUsage {ku : Bool × Bool} (hoid : e.oid = oidKu) (hvalue : keyUsageOf e.value = .ok ku) :
      ReadOne e out { out with
        keyUsagePresent := true
        keyUsageDigitalSignature := ku.1
        keyUsageKeyCertSign := ku.2 }
  | extendedKeyUsage {auth : Bool} (hoid : e.oid = oidEku)
      (hvalue : serverAuthOf e.value = .ok auth) :
      ReadOne e out { out with
        extendedKeyUsagePresent := true
        ekuServerAuth := out.ekuServerAuth || auth }
  | other (hoid : e.oid ∉ knownOids) (hcritical : e.critical = false) : ReadOne e out out

/-- Extensions that are read into the view one after the other. -/
inductive ReadAll : List CertExtension → X509CertificateView → X509CertificateView → Prop where
  | nil (out : X509CertificateView) : ReadAll [] out out
  | cons {e : CertExtension} {es : List CertExtension} {out out₁ out' : X509CertificateView}
      (hfirst : ReadOne e out out₁) (hrest : ReadAll es out₁ out') : ReadAll (e :: es) out out'

/-- The view of a certificate before its extensions are read. -/
def viewBefore (der : Bytes) (parts : CertificateParts) (times : ℕ × ℕ)
    (key : PublicKeyKind × Bytes) : X509CertificateView :=
  { X509CertificateView.empty with
    der := der
    tbsCertificate := parts.tbs.full
    issuerName := parts.issuer.full
    notBefore := times.1
    notAfter := times.2
    validityPresent := true
    subjectName := parts.subject.full
    publicKeyKind := key.1
    subjectPublicKeyInfo := parts.spki.full
    subjectPublicKeyBits := key.2 }

/-- What an accepted certificate is: its parts, the view that they give, and the extensions that
are read into it. -/
structure AcceptedAs (der : Bytes) (v : X509CertificateView) (parts : CertificateParts)
    (blocks : List (List CertExtension)) (times : ℕ × ℕ) (key : PublicKeyKind × Bytes) : Prop where
  hasParts : certificateParts der = .ok parts
  hasBlocks : extensionBlocks parts = .ok blocks
  hasTimes : validityOf parts.validity.full = .ok times
  hasKey : publicKeyOf parts.spki.full = .ok key
  readAll : ReadAll blocks.flatten (viewBefore der parts times key) v

/-! ## A view that says what the extensions say -/

/-- The view shows what the extension with this OID encodes, or that there is none. -/
structure Shows {α : Type} (es : List CertExtension) (oid : Bytes)
    (decode : Bytes → Except Error α) (present : α → Prop) (absent : Prop) : Prop where
  present : ∀ e ∈ es, e.oid = oid → ∃ a, decode e.value = .ok a ∧ present a
  absent : (∀ e ∈ es, e.oid ≠ oid) → absent

/-- A certificate with the four extensions, each one once. -/
def onceCertificate : Bytes :=
  [0x30, 0x81, 0xa2, 0x30, 0x81, 0x8e, 0x02, 0x01, 0x01, 0x30, 0x0b, 0x06, 0x09, 0x2a,
    0x86, 0x48, 0x86, 0xf7, 0x0d, 0x01, 0x01, 0x0b, 0x30, 0x00, 0x30, 0x1e, 0x17, 0x0d,
    0x32, 0x30, 0x30, 0x31, 0x30, 0x31, 0x30, 0x30, 0x30, 0x30, 0x30, 0x30, 0x5a, 0x17,
    0x0d, 0x33, 0x30, 0x30, 0x31, 0x30, 0x31, 0x30, 0x30, 0x30, 0x30, 0x30, 0x30, 0x5a,
    0x30, 0x00, 0x30, 0x11, 0x30, 0x0b, 0x06, 0x09, 0x2a, 0x86, 0x48, 0x86, 0xf7, 0x0d,
    0x01, 0x01, 0x01, 0x03, 0x02, 0x00, 0x01, 0xa3, 0x45, 0x30, 0x43, 0x30, 0x0e, 0x06,
    0x03, 0x55, 0x1d, 0x11, 0x04, 0x07, 0x30, 0x05, 0x82, 0x03, 0x78, 0x2e, 0x79, 0x30,
    0x0f, 0x06, 0x03, 0x55, 0x1d, 0x13, 0x01, 0x01, 0xff, 0x04, 0x05, 0x30, 0x03, 0x01,
    0x01, 0xff, 0x30, 0x0b, 0x06, 0x03, 0x55, 0x1d, 0x0f, 0x04, 0x04, 0x03, 0x02, 0x00,
    0x84, 0x30, 0x13, 0x06, 0x03, 0x55, 0x1d, 0x25, 0x04, 0x0c, 0x30, 0x0a, 0x06, 0x08,
    0x2b, 0x06, 0x01, 0x05, 0x05, 0x07, 0x03, 0x01, 0x30, 0x0b, 0x06, 0x09, 0x2a, 0x86,
    0x48, 0x86, 0xf7, 0x0d, 0x01, 0x01, 0x0b, 0x03, 0x02, 0x00, 0x01]

end XboxTls.Interface
