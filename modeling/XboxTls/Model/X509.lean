import XboxTls.Model.Bytes

/-!
# Certificates (`x509.cpp`)

The DER reader, the certificate parser that fills an `X509CertificateView` and the
hostname check.  A span is the list of its bytes.  The DER reader fails with
`XT_ERR_BAD_HANDSHAKE` only (`readTlv_error`), so a caller that returns its code and a
caller that returns `XT_ERR_BAD_HANDSHAKE` in its place do the same.
-/

set_option autoImplicit false

namespace XboxTls.Model

/-! ## DER elements -/

/-- `DerTlv` and `Tlv`: one element and the offset of what follows it. -/
structure DerTlv where
  tag : UInt8
  full : Bytes
  value : Bytes
  next : ℕ
  deriving DecidableEq, Repr

/-- The number with these bytes, most significant first. -/
def beNat (b : Bytes) : ℕ := b.foldl (fun acc x => acc * 256 + x.toNat) 0

/-- The end of the reader: an element from `off` with its value at `p`. -/
def sliceTlv (input : Bytes) (off p len : ℕ) : Except Error DerTlv :=
  if len > input.length - p then .error .badHandshake
  else .ok ⟨byteAt input off, slice input off (p - off + len), slice input p len, p + len⟩

/-- The reader that `x509.cpp` and `native_verifier.cpp` each have a copy of. -/
def readTlv (input : Bytes) (off : ℕ) : Except Error DerTlv :=
  if off ≥ input.length then .error .badHandshake
  else if off + 1 ≥ input.length then .error .badHandshake
  else
    let lb := (byteAt input (off + 1)).toNat
    if lb < 0x80 then sliceTlv input off (off + 2) lb
    else
      let n := lb - 0x80
      if n = 0 ∨ n > 4 ∨ off + 2 + n > input.length then .error .badHandshake
      else if byteAt input (off + 2) = 0 then .error .badHandshake
      else
        let len := beNat (slice input (off + 2) n)
        if len < 128 then .error .badHandshake
        else sliceTlv input off (off + 2 + n) len

/-- `der_tlv`.
SOURCE: src/x509/x509.cpp:18-47 -/
def derTlv (input : Bytes) (off : ℕ) : Except Error DerTlv := readTlv input off

/-- A value that does not fit is `badHandshake`. -/
theorem sliceTlv_error {input : Bytes} {off p len : ℕ} {e : Error}
    (h : sliceTlv input off p len = .error e) : e = .badHandshake := by
  unfold sliceTlv at h
  split at h <;> simp_all

/-- An element that cannot be read is `badHandshake`. -/
theorem readTlv_error {input : Bytes} {off : ℕ} {e : Error}
    (h : readTlv input off = .error e) : e = .badHandshake := by
  unfold readTlv at h
  dsimp only at h
  repeat' split at h
  all_goals first
    | exact sliceTlv_error h
    | simp_all

/-- `oid_eq`, in both files. -/
def oidEq (oid expected : Bytes) : Bool := oid = expected

/-! ## Times -/

/-- `dec2` at `b + i`.
SOURCE: src/x509/x509.cpp:49-54 -/
def dec2 (b : Bytes) (i : ℕ) : Option ℕ :=
  let p0 := (byteAt b i).toNat
  let p1 := (byteAt b (i + 1)).toNat
  if p0 < 48 ∨ p0 > 57 ∨ p1 < 48 ∨ p1 > 57 then none
  else some ((p0 - 48) * 10 + (p1 - 48))

/-- `dec4` at `b + i`.
SOURCE: src/x509/x509.cpp:55-61 -/
def dec4 (b : Bytes) (i : ℕ) : Option ℕ := do
  let a ← dec2 b i
  let c ← dec2 b (i + 2)
  pure (a * 100 + c)

/-- `days_before_year`.
SOURCE: src/x509/x509.cpp:62-65 -/
def daysBeforeYear (y : ℕ) : ℕ :=
  let ym1 := y - 1
  365 * ym1 + ym1 / 4 - ym1 / 100 + ym1 / 400

/-- `days_before_month`.
SOURCE: src/x509/x509.cpp:66-72 -/
def daysBeforeMonth (y m : ℕ) : ℕ :=
  let d := [0, 0, 31, 59, 90, 120, 151, 181, 212, 243, 273, 304, 334].getD m 0
  if m > 2 ∧ ((y % 4 = 0 ∧ y % 100 ≠ 0) ∨ y % 400 = 0) then d + 1 else d

/-- The year of a time value and the offset of what follows it. -/
def parseAsn1Year (t : DerTlv) : Option (ℕ × ℕ) :=
  if t.tag = 0x17 then
    if t.value.length ≠ 13 then none
    else do
      let y ← dec2 t.value 0
      pure (if y ≥ 50 then 1900 + y else 2000 + y, 2)
  else
    if t.value.length ≠ 15 then none
    else do
      let y ← dec4 t.value 0
      pure (y, 4)

/-- `parse_asn1_time`.
SOURCE: src/x509/x509.cpp:73-99 -/
def parseAsn1Time (t : DerTlv) : Option ℕ :=
  if t.tag ≠ 0x17 ∧ t.tag ≠ 0x18 then none
  else do
    let (y, off) ← parseAsn1Year t
    let mo ← dec2 t.value off
    let d ← dec2 t.value (off + 2)
    let h ← dec2 t.value (off + 4)
    let mi ← dec2 t.value (off + 6)
    let se ← dec2 t.value (off + 8)
    if byteAt t.value (off + 10) ≠ UInt8.ofNat 90 then none
    else if y < 1970 ∨ mo < 1 ∨ mo > 12 ∨ d < 1 ∨ d > 31 ∨ h > 23 ∨ mi > 59 ∨ se > 60 then none
    else
      let days := (daysBeforeYear y - daysBeforeYear 1970) + daysBeforeMonth y mo + (d - 1)
      some (days * 86400 + h * 3600 + mi * 60 + se)

/-! ## The view -/

/-- `PublicKeyKind`. -/
inductive PublicKeyKind where
  | unknown
  | rsa
  | ecP256
  deriving DecidableEq, Repr

/-- `X509CertificateView`; `subjectAltName` is `none` while its data pointer is null. -/
structure X509CertificateView where
  der : Bytes
  tbsCertificate : Bytes
  issuerName : Bytes
  subjectName : Bytes
  subjectPublicKeyInfo : Bytes
  subjectPublicKeyBits : Bytes
  subjectAltName : Option Bytes
  publicKeyKind : PublicKeyKind
  validityPresent : Bool
  notBefore : ℕ
  notAfter : ℕ
  basicConstraintsPresent : Bool
  isCa : Bool
  pathLenPresent : Bool
  pathLenConstraint : ℕ
  keyUsagePresent : Bool
  keyUsageDigitalSignature : Bool
  keyUsageKeyCertSign : Bool
  extendedKeyUsagePresent : Bool
  ekuServerAuth : Bool
  deriving DecidableEq, Repr

/-- The view after construction. -/
def X509CertificateView.empty : X509CertificateView where
  der := []
  tbsCertificate := []
  issuerName := []
  subjectName := []
  subjectPublicKeyInfo := []
  subjectPublicKeyBits := []
  subjectAltName := none
  publicKeyKind := .unknown
  validityPresent := false
  notBefore := 0
  notAfter := 0
  basicConstraintsPresent := false
  isCa := false
  pathLenPresent := false
  pathLenConstraint := 0
  keyUsagePresent := false
  keyUsageDigitalSignature := false
  keyUsageKeyCertSign := false
  extendedKeyUsagePresent := false
  ekuServerAuth := false

/-- `parse_validity`.
SOURCE: src/x509/x509.cpp:100-120 -/
def parseValidity (full : Bytes) (out : X509CertificateView) :
    Except Error X509CertificateView := do
  let seq ← derTlv full 0
  if seq.tag ≠ 0x30 ∨ seq.next ≠ full.length then .error .badHandshake
  else do
    let a ← derTlv seq.value 0
    let b ← derTlv seq.value a.next
    if b.next ≠ seq.value.length then .error .badHandshake
    else
      match parseAsn1Time a, parseAsn1Time b with
      | some notBefore, some notAfter =>
        if notBefore > notAfter then .error .badHandshake
        else .ok { out with
          notBefore := notBefore, notAfter := notAfter, validityPresent := true }
      | _, _ => .error .badHandshake

/-! ## The public key -/

def oidRsa : Bytes := [0x2A, 0x86, 0x48, 0x86, 0xF7, 0x0D, 0x01, 0x01, 0x01]
def oidEc : Bytes := [0x2A, 0x86, 0x48, 0xCE, 0x3D, 0x02, 0x01]
def oidP256 : Bytes := [0x2A, 0x86, 0x48, 0xCE, 0x3D, 0x03, 0x01, 0x07]

/-- The kind of key that an AlgorithmIdentifier names; `oid` is its first element.
SOURCE: src/x509/x509.cpp:142-155 -/
def spkiKind (alg oid : DerTlv) : Except Error PublicKeyKind :=
  if oidEq oid.value oidRsa then .ok .rsa
  else if oidEq oid.value oidEc then
    if oid.next ≥ alg.value.length then .error .unsupported
    else
      match derTlv alg.value oid.next with
      | .error _ => .error .unsupported
      | .ok param =>
        if param.tag ≠ 0x06 ∨ oidEq param.value oidP256 = false then .error .unsupported
        else .ok .ecP256
  else .error .unsupported

/-- `parse_spki`.
SOURCE: src/x509/x509.cpp:126-165 -/
def parseSpki (spkiFull : Bytes) (out : X509CertificateView) :
    Except Error X509CertificateView := do
  let seq ← derTlv spkiFull 0
  if seq.tag ≠ 0x30 ∨ seq.next ≠ spkiFull.length then .error .badHandshake
  else do
    let alg ← derTlv seq.value 0
    if alg.tag ≠ 0x30 then .error .badHandshake
    else do
      let oid ← derTlv alg.value 0
      if oid.tag ≠ 0x06 then .error .badHandshake
      else do
        let kind ← spkiKind alg oid
        let bits ← derTlv seq.value alg.next
        if bits.tag ≠ 0x03 ∨ bits.value.length < 1 ∨ byteAt bits.value 0 ≠ 0 ∨
            bits.next ≠ seq.value.length then .error .badHandshake
        else .ok { out with
          publicKeyKind := kind
          subjectPublicKeyInfo := spkiFull
          subjectPublicKeyBits := bits.value.drop 1 }

/-! ## Extensions -/

def oidSan : Bytes := [0x55, 0x1D, 0x11]
def oidBc : Bytes := [0x55, 0x1D, 0x13]
def oidKu : Bytes := [0x55, 0x1D, 0x0F]
def oidEku : Bytes := [0x55, 0x1D, 0x25]
def oidServerAuth : Bytes := [0x2B, 0x06, 0x01, 0x05, 0x05, 0x07, 0x03, 0x01]

/-- A value that is one SEQUENCE and nothing more. -/
def wholeSequence (v : Bytes) : Except Error DerTlv := do
  let seq ← derTlv v 0
  if seq.tag ≠ 0x30 ∨ seq.next ≠ v.length then .error .badHandshake else .ok seq

/-- The optional `cA` of a BasicConstraints value: the flag and where the rest starts.
SOURCE: src/x509/x509.cpp:229-242 -/
def parseCaFlag (bc : Bytes) : Except Error (Bool × ℕ) :=
  if 0 < bc.length then do
    let ca ← derTlv bc 0
    if ca.tag = 0x01 then
      if ca.value.length ≠ 1 then .error .badHandshake
      else .ok (byteAt ca.value 0 ≠ 0, ca.next)
    else .ok (false, 0)
  else .ok (false, 0)

/-- The BasicConstraints branch of `parse_extensions`.
SOURCE: src/x509/x509.cpp:220-255 -/
def parseBasicConstraints (v : Bytes) (out : X509CertificateView) :
    Except Error X509CertificateView := do
  let bc ← wholeSequence v
  let (isCa, bp) ← parseCaFlag bc.value
  let out := { out with basicConstraintsPresent := true, isCa := isCa }
  if bp < bc.value.length then do
    let pl ← derTlv bc.value bp
    if pl.tag ≠ 0x02 ∨ pl.value.length = 0 ∨ pl.value.length > 4 ∨
        pl.next ≠ bc.value.length ∨ (byteAt pl.value 0).toNat ≥ 0x80 then .error .badHandshake
    else .ok { out with pathLenPresent := true, pathLenConstraint := beNat pl.value }
  else .ok out

/-- The KeyUsage branch of `parse_extensions`.
SOURCE: src/x509/x509.cpp:256-267 -/
def parseKeyUsage (v : Bytes) (out : X509CertificateView) : Except Error X509CertificateView := do
  let ku ← derTlv v 0
  if ku.tag ≠ 0x03 ∨ ku.next ≠ v.length ∨ ku.value.length < 2 ∨
      (byteAt ku.value 0).toNat > 7 then .error .badHandshake
  else
    let b0 := byteAt ku.value 1
    .ok { out with
      keyUsagePresent := true
      keyUsageDigitalSignature := b0 &&& 0x80 ≠ 0
      keyUsageKeyCertSign := b0 &&& 0x04 ≠ 0 }

/-- The loop over the purposes of an ExtendedKeyUsage value; every round takes at least
two bytes.
SOURCE: src/x509/x509.cpp:276-286 -/
def parsePurposes (es : Bytes) :
    ℕ → ℕ → X509CertificateView → Except Error X509CertificateView
  | 0, _, out => .ok out
  | fuel + 1, ep, out =>
    if ep < es.length then do
      let eo ← derTlv es ep
      if eo.tag ≠ 0x06 then .error .badHandshake
      else
        parsePurposes es fuel eo.next
          (if oidEq eo.value oidServerAuth then { out with ekuServerAuth := true } else out)
    else .ok out

/-- The branches of `parse_extensions` on the OID: whether it is known, and the view with
the value read into it.
SOURCE: src/x509/x509.cpp:211-287 -/
def parseExtensionValue (oid v : Bytes) (out : X509CertificateView) :
    Except Error (Bool × X509CertificateView) :=
  if oidEq oid oidSan then do
    let names ← wholeSequence v
    pure (true, { out with subjectAltName := some names.value })
  else if oidEq oid oidBc then do
    let out ← parseBasicConstraints v out
    pure (true, out)
  else if oidEq oid oidKu then do
    let out ← parseKeyUsage v out
    pure (true, out)
  else if oidEq oid oidEku then do
    let es ← wholeSequence v
    let out ← parsePurposes es.value es.value.length 0 { out with extendedKeyUsagePresent := true }
    pure (true, out)
  else pure (false, out)

/-- The optional `critical` flag of an extension and the element after it; `q` is the
offset behind the OID.
SOURCE: src/x509/x509.cpp:194-208 -/
def parseCritical (ext : Bytes) (q : ℕ) : Except Error (Bool × DerTlv) := do
  let v ← derTlv ext q
  if v.tag = 0x01 then
    if v.value.length ≠ 1 then .error .badHandshake
    else do
      let w ← derTlv ext v.next
      pure (byteAt v.value 0 ≠ 0, w)
  else pure (false, v)

/-- The extension loop of `parse_extensions`; every round takes at least two bytes.
SOURCE: src/x509/x509.cpp:181-291 -/
def parseExtensionsLoop (seq : Bytes) :
    ℕ → ℕ → X509CertificateView → Except Error X509CertificateView
  | 0, _, out => .ok out
  | fuel + 1, p, out =>
    if p < seq.length then do
      let ext ← derTlv seq p
      if ext.tag ≠ 0x30 then .error .badHandshake
      else do
        let oid ← derTlv ext.value 0
        if oid.tag ≠ 0x06 then .error .badHandshake
        else do
          let (critical, v) ← parseCritical ext.value oid.next
          if v.tag ≠ 0x04 ∨ v.next ≠ ext.value.length then .error .badHandshake
          else do
            let (known, out) ← parseExtensionValue oid.value v.value out
            if critical ∧ known = false then .error .unsupported
            else parseExtensionsLoop seq fuel ext.next out
    else .ok out

/-- `parse_extensions`.
SOURCE: src/x509/x509.cpp:167-293 -/
def parseExtensions (extensionsExplicit : Bytes) (out : X509CertificateView) :
    Except Error X509CertificateView := do
  let exwrap ← derTlv extensionsExplicit 0
  if exwrap.tag ≠ 0xA3 ∨ exwrap.next ≠ extensionsExplicit.length then .error .badHandshake
  else do
    let seq ← wholeSequence exwrap.value
    parseExtensionsLoop seq.value seq.value.length 0 out

/-! ## The certificate -/

/-- The loop over the optional fields after the public key; every round takes at least
two bytes.
SOURCE: src/x509/x509.cpp:344-354 -/
def parseOptionalFields (tbs : Bytes) :
    ℕ → ℕ → X509CertificateView → Except Error X509CertificateView
  | 0, _, out => .ok out
  | fuel + 1, q, out =>
    if q < tbs.length then do
      let f ← derTlv tbs q
      if f.tag = 0xA3 then do
        let out ← parseExtensions f.full out
        parseOptionalFields tbs fuel f.next out
      else parseOptionalFields tbs fuel f.next out
    else .ok out

/-- The fields of a TBSCertificate: the optional version, the loop of five fields written
out (serial number, signature, issuer, validity, subject), the key and the rest.
SOURCE: src/x509/x509.cpp:313-355 -/
def parseTbs (tbs : Bytes) (out : X509CertificateView) : Except Error X509CertificateView := do
  let f ← derTlv tbs 0
  let serial ← derTlv tbs (if f.tag = 0xA0 then f.next else 0)
  let signature ← derTlv tbs serial.next
  let issuer ← derTlv tbs signature.next
  let validity ← derTlv tbs issuer.next
  let out ← parseValidity validity.full { out with issuerName := issuer.full }
  let subject ← derTlv tbs validity.next
  let spki ← derTlv tbs subject.next
  if spki.tag ≠ 0x30 then .error .badHandshake
  else do
    let out ← parseSpki spki.full { out with subjectName := subject.full }
    parseOptionalFields tbs tbs.length spki.next out

/-- `x509_parse_certificate`.
SOURCE: src/x509/x509.cpp:295-356 -/
def x509ParseCertificate (der : Bytes) : Except Error X509CertificateView :=
  if der.length = 0 then .error .invalidArgument
  else do
    let cert ← derTlv der 0
    if cert.tag ≠ 0x30 ∨ cert.next ≠ der.length then .error .badHandshake
    else do
      let tbs ← derTlv cert.value 0
      if tbs.tag ≠ 0x30 then .error .badHandshake
      else
        parseTbs tbs.value
          { X509CertificateView.empty with der := der, tbsCertificate := tbs.full }

/-! ## Host names -/

/-- `ascii_lower`.
SOURCE: src/x509/x509.cpp:358-360 -/
def asciiLower (c : UInt8) : UInt8 := if 65 ≤ c ∧ c ≤ 90 then c + 32 else c

/-- Two byte strings that a loop over `ascii_lower` finds equal. -/
def equalIgnoreCase (a b : Bytes) : Bool := a.map asciiLower = b.map asciiLower

/-- `dns_equal`.
SOURCE: src/x509/x509.cpp:361-388 -/
def dnsEqual (pat : Bytes) (host : CString) : Bool :=
  if pat.length = host.val.length ∧ equalIgnoreCase pat host.val then true
  else if pat.length > 2 ∧ byteAt pat 0 = 42 ∧ byteAt pat 1 = 46 then
    -- strchr(host, '.')
    let label := host.val.takeWhile (· ≠ 46)
    if label.length = host.val.length ∨ label.length = 0 then false
    else
      let suffix := host.val.drop (label.length + 1)
      if suffix.length ≠ pat.length - 2 then false
      else equalIgnoreCase (pat.drop 2) suffix
  else false

/-- The loop of `x509_verify_hostname`; every round takes at least two bytes.
SOURCE: src/x509/x509.cpp:395-406 -/
def verifyHostnameLoop (san : Bytes) (hostname : CString) : ℕ → ℕ → Except Error Unit
  | 0, _ => .error .verify
  | fuel + 1, p =>
    if p < san.length then do
      let gn ← derTlv san p
      if gn.tag = 0x82 ∧ dnsEqual gn.value hostname then pure ()
      else verifyHostnameLoop san hostname fuel gn.next
    else .error .verify

/-- `x509_verify_hostname` for a host name that is not null.
SOURCE: src/x509/x509.cpp:390-407 -/
def x509VerifyHostname (cert : X509CertificateView) (hostname : CString) : Except Error Unit :=
  if hostname.val.length = 0 then .error .invalidArgument
  else
    match cert.subjectAltName with
    | none => .error .verify
    | some san => verifyHostnameLoop san hostname san.length 0

end XboxTls.Model
