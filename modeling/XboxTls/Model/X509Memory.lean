import XboxTls.Model.Memory
import XboxTls.Model.NativeVerifier

/-!
# The certificate parsers and their memory

The DER readers, `x509_parse_certificate`, `x509_verify_hostname` and `cert_signature` of the
native verifier, with spans into the certificate, every `size_t` sum checked and every byte
read through the span that the source reads it through.
-/

set_option autoImplicit false

namespace XboxTls.Model

open Programs Programs.Guarded

/-! ## What the parsers fill in -/

/-- `DerTlv` with `*next`, and `Tlv`. -/
structure DerTlvSpans where
  tag : UInt8
  full : ByteSpan
  value : ByteSpan
  next : ℕ
  deriving DecidableEq, Repr

/-- `X509CertificateView`. -/
structure X509CertificateSpans where
  der : ByteSpan
  tbsCertificate : ByteSpan
  issuerName : ByteSpan
  subjectName : ByteSpan
  subjectPublicKeyInfo : ByteSpan
  subjectPublicKeyBits : ByteSpan
  subjectAltName : ByteSpan
  publicKeyKind : PublicKeyKind
  validityPresent : Bool
  notBefore : ℕ
  notAfter : ℕ
  basicConstraintsPresent : Bool
  isCa : Bool
  pathLenPresent : Bool
  pathLenConstraint : ℕ
  keyUsagePresent : Bool
  keyUsageDigitalSignature : Bool
  keyUsageKeyCertSign : Bool
  extendedKeyUsagePresent : Bool
  ekuServerAuth : Bool
  deriving DecidableEq, Repr

/-- `X509CertificateView::X509CertificateView`. -/
def X509CertificateSpans.empty : X509CertificateSpans where
  der := .null
  tbsCertificate := .null
  issuerName := .null
  subjectName := .null
  subjectPublicKeyInfo := .null
  subjectPublicKeyBits := .null
  subjectAltName := .null
  publicKeyKind := .unknown
  validityPresent := false
  notBefore := 0
  notAfter := 0
  basicConstraintsPresent := false
  isCa := false
  pathLenPresent := false
  pathLenConstraint := 0
  keyUsagePresent := false
  keyUsageDigitalSignature := false
  keyUsageKeyCertSign := false
  extendedKeyUsagePresent := false
  ekuServerAuth := false

/-- `CertSig`. -/
structure CertSigSpans where
  tbs : ByteSpan
  sig : ByteSpan
  kind : CertSigKind
  deriving DecidableEq, Repr

namespace Memory

variable (m : Memory) {ε : Type}

/-! ## DER elements -/

/-- `for (i < n) len = (len << 8) | in.data[p++]`: the length and where it ends. -/
def lengthLoop (input : ByteSpan) : ℕ → ℕ → ℕ → Guarded Error (ℕ × ℕ)
  | 0, len, p => pure (len, p)
  | n + 1, len, p => do
    let byte ← m.readAt input p
    let len ← m.plus (len * 256) byte.toNat
    let p ← m.plus p 1
    lengthLoop input n len p

/-- The length behind the byte `lb`, and where it ends; `p` is the offset behind `lb`.
SOURCE: src/x509/x509.cpp:27-40 -/
def readLength (input : ByteSpan) (lb : UInt8) (p : ℕ) : Guarded Error (ℕ × ℕ) :=
  if lb &&& 0x80 = 0 then pure (lb.toNat, p)
  else do
    let n := (lb &&& 0x7F).toNat
    refuseIf (n = 0 ∨ n > 4) .badHandshake
    let lengthEnd ← m.plus p n
    refuseIf (lengthEnd > input.size) .badHandshake
    let first ← m.readAt input p
    refuseIf (first = 0) .badHandshake
    let (len, p) ← m.lengthLoop input n 0 p
    refuseIf (len < 128) .badHandshake
    pure (len, p)

/-- The reader that `x509.cpp` and `native_verifier.cpp` each have a copy of. -/
def readTlv (input : ByteSpan) (off : ℕ) : Guarded Error DerTlvSpans := do
  refuseIf (input.data = none ∨ off ≥ input.size) .badHandshake
  let tag ← m.readAt input off
  let p ← m.plus off 1
  refuseIf (p ≥ input.size) .badHandshake
  let lb ← m.readAt input p
  let p ← m.plus p 1
  let (len, p) ← m.readLength input lb p
  let left ← minus input.size p
  refuseIf (len > left) .badHandshake
  let header ← minus p off
  let full ← m.plus header len
  let next ← m.plus p len
  pure ⟨tag, input.sub off full, input.sub p len, next⟩

/-- `der_tlv`.
SOURCE: src/x509/x509.cpp:18-47 -/
def derTlv (input : ByteSpan) (off : ℕ) : Guarded Error DerTlvSpans := m.readTlv input off

/-- `tlv` of the native verifier.
SOURCE: src/verifier/native/native_verifier.cpp:13-39 -/
def tlv (input : ByteSpan) (off : ℕ) : Guarded Error DerTlvSpans := m.readTlv input off

/-- `oid_eq`, in both files. -/
def oidEq (oid : ByteSpan) (expected : Bytes) : Guarded ε Bool :=
  if oid.size = expected.length then do
    let bytes ← m.readBytes oid 0 expected.length
    pure (bytes = expected)
  else pure false

/-! ## Times -/

/-- `dec2` at `t.value.data + i`.
SOURCE: src/x509/x509.cpp:49-54 -/
def dec2 (value : ByteSpan) (i : ℕ) : Guarded Unit ℕ := do
  let p0 ← m.readAt value i
  refuseIf (p0.toNat < 48 ∨ p0.toNat > 57) ()
  let p1 ← m.readAt value (i + 1)
  refuseIf (p1.toNat < 48 ∨ p1.toNat > 57) ()
  pure ((p0.toNat - 48) * 10 + (p1.toNat - 48))

/-- `dec4`.
SOURCE: src/x509/x509.cpp:55-61 -/
def dec4 (value : ByteSpan) (i : ℕ) : Guarded Unit ℕ := do
  let a ← m.dec2 value i
  let c ← m.dec2 value (i + 2)
  pure (a * 100 + c)

/-- `days_before_month`, with its table.
SOURCE: src/x509/x509.cpp:66-72 -/
def daysBeforeMonth (y mo : ℕ) : Guarded Unit ℕ := do
  let d ← getAt [0, 0, 31, 59, 90, 120, 151, 181, 212, 243, 273, 304, 334] mo
  pure (if mo > 2 ∧ ((y % 4 = 0 ∧ y % 100 ≠ 0) ∨ y % 400 = 0) then d + 1 else d)

/-- The year of a time value and the offset of what follows it.
SOURCE: src/x509/x509.cpp:80-89 -/
def parseAsn1Year (t : DerTlvSpans) : Guarded Unit (ℕ × ℕ) :=
  if t.tag = 0x17 then do
    refuseIf (t.value.size ≠ 13) ()
    let y ← m.dec2 t.value 0
    pure (if y ≥ 50 then 1900 + y else 2000 + y, 2)
  else do
    refuseIf (t.value.size ≠ 15) ()
    let y ← m.dec4 t.value 0
    pure (y, 4)

/-- `parse_asn1_time`.
SOURCE: src/x509/x509.cpp:73-99 -/
def parseAsn1Time (t : DerTlvSpans) : Guarded Unit ℕ := do
  refuseIf (t.tag ≠ 0x17 ∧ t.tag ≠ 0x18) ()
  let (y, off) ← m.parseAsn1Year t
  let mo ← m.dec2 t.value off
  let d ← m.dec2 t.value (off + 2)
  let h ← m.dec2 t.value (off + 4)
  let mi ← m.dec2 t.value (off + 6)
  let se ← m.dec2 t.value (off + 8)
  let z ← m.readAt t.value (off + 10)
  refuseIf (z ≠ UInt8.ofNat 90) ()
  refuseIf (y < 1970 ∨ mo < 1 ∨ mo > 12 ∨ d < 1 ∨ d > 31 ∨ h > 23 ∨ mi > 59 ∨ se > 60) ()
  let before ← daysBeforeMonth y mo
  let days := (daysBeforeYear y - daysBeforeYear 1970) + before + (d - 1)
  pure (days * 86400 + h * 3600 + mi * 60 + se)

/-- `parse_validity`.
SOURCE: src/x509/x509.cpp:100-120 -/
def parseValidity (full : ByteSpan) (out : X509CertificateSpans) :
    Guarded Error X509CertificateSpans := do
  let seq ← orRefuse (m.derTlv full 0) .badHandshake
  refuseIf (seq.tag ≠ 0x30 ∨ seq.next ≠ full.size) .badHandshake
  let a ← m.derTlv seq.value 0
  let b ← orRefuse (m.derTlv seq.value a.next) .badHandshake
  refuseIf (b.next ≠ seq.value.size) .badHandshake
  let notBefore ← orRefuse (m.parseAsn1Time a) .badHandshake
  let notAfter ← orRefuse (m.parseAsn1Time b) .badHandshake
  refuseIf (notBefore > notAfter) .badHandshake
  pure { out with notBefore := notBefore, notAfter := notAfter, validityPresent := true }

/-! ## The public key -/

/-- The kind of key that an AlgorithmIdentifier names; `oid` is its first element.
SOURCE: src/x509/x509.cpp:142-155 -/
def spkiKind (alg oid : DerTlvSpans) : Guarded Error PublicKeyKind := do
  let rsa ← m.oidEq oid.value oidRsa
  if rsa then pure .rsa
  else do
    let ec ← m.oidEq oid.value oidEc
    if ec then do
      refuseIf (oid.next ≥ alg.value.size) .unsupported
      let param ← orRefuse (m.derTlv alg.value oid.next) .unsupported
      refuseIf (param.tag ≠ 0x06) .unsupported
      let p256 ← m.oidEq param.value oidP256
      refuseIf (p256 = false) .unsupported
      pure .ecP256
    else refuse .unsupported

/-- `parse_spki`.
SOURCE: src/x509/x509.cpp:126-165 -/
def parseSpki (spkiFull : ByteSpan) (out : X509CertificateSpans) :
    Guarded Error X509CertificateSpans := do
  let seq ← orRefuse (m.derTlv spkiFull 0) .badHandshake
  refuseIf (seq.tag ≠ 0x30 ∨ seq.next ≠ spkiFull.size) .badHandshake
  let alg ← orRefuse (m.derTlv seq.value 0) .badHandshake
  refuseIf (alg.tag ≠ 0x30) .badHandshake
  let oid ← orRefuse (m.derTlv alg.value 0) .badHandshake
  refuseIf (oid.tag ≠ 0x06) .badHandshake
  let kind ← m.spkiKind alg oid
  let bits ← orRefuse (m.derTlv seq.value alg.next) .badHandshake
  refuseIf (bits.tag ≠ 0x03 ∨ bits.value.size < 1) .badHandshake
  let unused ← m.readAt bits.value 0
  refuseIf (unused ≠ 0 ∨ bits.next ≠ seq.value.size) .badHandshake
  let size ← minus bits.value.size 1
  pure { out with
    publicKeyKind := kind
    subjectPublicKeyInfo := spkiFull
    subjectPublicKeyBits := bits.value.sub 1 size }

/-! ## Extensions -/

/-- A value that is one SEQUENCE and nothing more. -/
def wholeSequence (v : ByteSpan) : Guarded Error DerTlvSpans := do
  let seq ← orRefuse (m.derTlv v 0) .badHandshake
  refuseIf (seq.tag ≠ 0x30 ∨ seq.next ≠ v.size) .badHandshake
  pure seq

/-- The optional `cA` of a BasicConstraints value: the flag and where the rest starts.
SOURCE: src/x509/x509.cpp:229-242 -/
def parseCaFlag (bc : ByteSpan) : Guarded Error (Bool × ℕ) :=
  if 0 < bc.size then do
    let ca ← m.derTlv bc 0
    if ca.tag = 0x01 then do
      refuseIf (ca.value.size ≠ 1) .badHandshake
      let flag ← m.readAt ca.value 0
      pure (flag ≠ 0, ca.next)
    else pure (false, 0)
  else pure (false, 0)

/-- `for (pi < pl.value.size) vlen = (vlen << 8) | pl.value.data[pi]` in `xt_u32`. -/
def pathLenLoop (value : ByteSpan) : ℕ → ℕ → ℕ → Guarded Error ℕ
  | 0, _, vlen => pure vlen
  | n + 1, i, vlen => do
    let byte ← m.readAt value i
    let vlen ← Guarded.plus (2 ^ 32) (vlen * 256) byte.toNat
    pathLenLoop value n (i + 1) vlen

/-- The BasicConstraints branch of `parse_extensions`.
SOURCE: src/x509/x509.cpp:220-255 -/
def parseBasicConstraints (v : ByteSpan) (out : X509CertificateSpans) :
    Guarded Error X509CertificateSpans := do
  let bc ← m.wholeSequence v
  let (isCa, bp) ← m.parseCaFlag bc.value
  let out := { out with basicConstraintsPresent := true, isCa := isCa }
  if bp < bc.value.size then do
    let pl ← orRefuse (m.derTlv bc.value bp) .badHandshake
    refuseIf (pl.tag ≠ 0x02 ∨ pl.value.size = 0 ∨ pl.value.size > 4 ∨ pl.next ≠ bc.value.size)
      .badHandshake
    let first ← m.readAt pl.value 0
    refuseIf (first &&& 0x80 ≠ 0) .badHandshake
    let vlen ← m.pathLenLoop pl.value pl.value.size 0 0
    pure { out with pathLenPresent := true, pathLenConstraint := vlen }
  else pure out

/-- The KeyUsage branch of `parse_extensions`.
SOURCE: src/x509/x509.cpp:256-267 -/
def parseKeyUsage (v : ByteSpan) (out : X509CertificateSpans) :
    Guarded Error X509CertificateSpans := do
  let ku ← orRefuse (m.derTlv v 0) .badHandshake
  refuseIf (ku.tag ≠ 0x03 ∨ ku.next ≠ v.size ∨ ku.value.size < 2) .badHandshake
  let unused ← m.readAt ku.value 0
  refuseIf (unused.toNat > 7) .badHandshake
  let b0 ← m.readAt ku.value 1
  pure { out with
    keyUsagePresent := true
    keyUsageDigitalSignature := b0 &&& 0x80 ≠ 0
    keyUsageKeyCertSign := b0 &&& 0x04 ≠ 0 }

/-- The loop over the purposes of an ExtendedKeyUsage value.
SOURCE: src/x509/x509.cpp:276-286 -/
def parsePurposes (es : ByteSpan) :
    ℕ → ℕ → X509CertificateSpans → Guarded Error X509CertificateSpans
  | 0, _, _ => fault
  | fuel + 1, ep, out =>
    if ep < es.size then do
      let eo ← orRefuse (m.derTlv es ep) .badHandshake
      refuseIf (eo.tag ≠ 0x06) .badHandshake
      let serverAuth ← m.oidEq eo.value oidServerAuth
      parsePurposes es fuel eo.next
        (if serverAuth then { out with ekuServerAuth := true } else out)
    else pure out

/-- The branches of `parse_extensions` on the OID: whether it is known, and the view with the
value read into it.
SOURCE: src/x509/x509.cpp:211-287 -/
def parseExtensionValue (oid v : ByteSpan) (out : X509CertificateSpans) :
    Guarded Error (Bool × X509CertificateSpans) := do
  let san ← m.oidEq oid oidSan
  if san then do
    let names ← m.wholeSequence v
    pure (true, { out with subjectAltName := names.value })
  else do
    let bc ← m.oidEq oid oidBc
    if bc then do
      let out ← m.parseBasicConstraints v out
      pure (true, out)
    else do
      let ku ← m.oidEq oid oidKu
      if ku then do
        let out ← m.parseKeyUsage v out
        pure (true, out)
      else do
        let eku ← m.oidEq oid oidEku
        if eku then do
          let es ← m.wholeSequence v
          let out ← m.parsePurposes es.value (es.value.size + 1) 0
            { out with extendedKeyUsagePresent := true }
          pure (true, out)
        else pure (false, out)

/-- The optional `critical` flag of an extension and the element after it; `q` is the offset
behind the OID.
SOURCE: src/x509/x509.cpp:194-208 -/
def parseCritical (ext : ByteSpan) (q : ℕ) : Guarded Error (Bool × DerTlvSpans) := do
  let v ← m.derTlv ext q
  if v.tag = 0x01 then do
    refuseIf (v.value.size ≠ 1) .badHandshake
    let flag ← m.readAt v.value 0
    let w ← m.derTlv ext v.next
    pure (flag ≠ 0, w)
  else pure (false, v)

/-- The extension loop of `parse_extensions`.
SOURCE: src/x509/x509.cpp:181-291 -/
def parseExtensionsLoop (seq : ByteSpan) :
    ℕ → ℕ → X509CertificateSpans → Guarded Error X509CertificateSpans
  | 0, _, _ => fault
  | fuel + 1, p, out =>
    if p < seq.size then do
      let ext ← orRefuse (m.derTlv seq p) .badHandshake
      refuseIf (ext.tag ≠ 0x30) .badHandshake
      let oid ← orRefuse (m.derTlv ext.value 0) .badHandshake
      refuseIf (oid.tag ≠ 0x06) .badHandshake
      let (critical, v) ← m.parseCritical ext.value oid.next
      refuseIf (v.tag ≠ 0x04 ∨ v.next ≠ ext.value.size) .badHandshake
      let (known, out) ← m.parseExtensionValue oid.value v.value out
      refuseIf (critical ∧ known = false) .unsupported
      parseExtensionsLoop seq fuel ext.next out
    else pure out

/-- `parse_extensions`.
SOURCE: src/x509/x509.cpp:167-293 -/
def parseExtensions (extensionsExplicit : ByteSpan) (out : X509CertificateSpans) :
    Guarded Error X509CertificateSpans := do
  let exwrap ← orRefuse (m.derTlv extensionsExplicit 0) .badHandshake
  refuseIf (exwrap.tag ≠ 0xA3 ∨ exwrap.next ≠ extensionsExplicit.size) .badHandshake
  let seq ← m.wholeSequence exwrap.value
  m.parseExtensionsLoop seq.value (seq.value.size + 1) 0 out

/-! ## The certificate -/

/-- The loop over the optional fields after the public key.
SOURCE: src/x509/x509.cpp:344-354 -/
def parseOptionalFields (tbs : ByteSpan) :
    ℕ → ℕ → X509CertificateSpans → Guarded Error X509CertificateSpans
  | 0, _, _ => fault
  | fuel + 1, q, out =>
    if q < tbs.size then do
      let f ← m.derTlv tbs q
      if f.tag = 0xA3 then do
        let out ← m.parseExtensions f.full out
        parseOptionalFields tbs fuel f.next out
      else parseOptionalFields tbs fuel f.next out
    else pure out

/-- The fields of a TBSCertificate, with the loop of five fields written out.
SOURCE: src/x509/x509.cpp:313-355 -/
def parseTbs (tbs : ByteSpan) (out : X509CertificateSpans) :
    Guarded Error X509CertificateSpans := do
  let f ← m.derTlv tbs 0
  let serial ← m.derTlv tbs (if f.tag = 0xA0 then f.next else 0)
  let signature ← m.derTlv tbs serial.next
  let issuer ← m.derTlv tbs signature.next
  let validity ← m.derTlv tbs issuer.next
  let out ← m.parseValidity validity.full { out with issuerName := issuer.full }
  let subject ← m.derTlv tbs validity.next
  let spki ← orRefuse (m.derTlv tbs subject.next) .badHandshake
  refuseIf (spki.tag ≠ 0x30) .badHandshake
  let out ← m.parseSpki spki.full { out with subjectName := subject.full }
  m.parseOptionalFields tbs (tbs.size + 1) spki.next out

/-- `x509_parse_certificate`.
SOURCE: src/x509/x509.cpp:295-356 -/
def x509ParseCertificate (der : ByteSpan) : Guarded Error X509CertificateSpans := do
  refuseIf (der.data = none ∨ der.size = 0) .invalidArgument
  let cert ← orRefuse (m.derTlv der 0) .badHandshake
  refuseIf (cert.tag ≠ 0x30 ∨ cert.next ≠ der.size) .badHandshake
  let tbs ← orRefuse (m.derTlv cert.value 0) .badHandshake
  refuseIf (tbs.tag ≠ 0x30) .badHandshake
  m.parseTbs tbs.value { X509CertificateSpans.empty with der := der, tbsCertificate := tbs.full }

/-! ## Host names -/

/-- `host[i]` of a C string, whose terminating zero can be read. -/
def hostAt (host : CString) (i : ℕ) : Guarded ε UInt8 := getAt (host.val ++ [0]) i

/-- The loop of `dns_equal` that compares `n` characters: those of the pattern from `i` on and
those of the host name from `j` on.
SOURCE: src/x509/x509.cpp:367-371 and 382-384 -/
def equalIgnoreCase (pat : ByteSpan) (host : CString) : ℕ → ℕ → ℕ → Guarded Error Bool
  | 0, _, _ => pure true
  | n + 1, i, j => do
    let c ← m.readAt pat i
    let d ← hostAt host j
    if asciiLower c ≠ asciiLower d then pure false
    else equalIgnoreCase pat host n (i + 1) (j + 1)

/-- `pat.size > 2 && pat.data[0] == '*' && pat.data[1] == '.'`. -/
def isWildcard (pat : ByteSpan) : Guarded Error Bool :=
  if pat.size > 2 then do
    let c0 ← m.readAt pat 0
    let c1 ← m.readAt pat 1
    pure (c0 = 42 ∧ c1 = 46)
  else pure false

/-- The wildcard branch of `dns_equal`.
SOURCE: src/x509/x509.cpp:375-386 -/
def wildcardEqual (pat : ByteSpan) (host : CString) : Guarded Error Bool := do
  -- `strchr(host, '.')`
  let dot := (host.val.takeWhile (· ≠ 46)).length
  if dot = host.val.length ∨ dot = 0 then pure false
  else do
    let suffix ← minus host.val.length (dot + 1)
    let rest ← minus pat.size 2
    if suffix ≠ rest then pure false
    else m.equalIgnoreCase pat host suffix 2 (dot + 1)

/-- The comparison of the whole name in `dns_equal`.
SOURCE: src/x509/x509.cpp:364-374 -/
def wholeEqual (pat : ByteSpan) (host : CString) : Guarded Error Bool :=
  if pat.size = host.val.length then m.equalIgnoreCase pat host host.val.length 0 0
  else pure false

/-- `dns_equal`.
SOURCE: src/x509/x509.cpp:361-388 -/
def dnsEqual (pat : ByteSpan) (host : CString) : Guarded Error Bool := do
  let same ← m.wholeEqual pat host
  if same then pure true
  else do
    let wildcard ← m.isWildcard pat
    if wildcard then m.wildcardEqual pat host else pure false

/-- `gn.tag == 0x82 && dns_equal(gn.value, hostname)`. -/
def dnsNameEqual (gn : DerTlvSpans) (hostname : CString) : Guarded Error Bool :=
  if gn.tag = 0x82 then m.dnsEqual gn.value hostname else pure false

/-- The loop of `x509_verify_hostname`.
SOURCE: src/x509/x509.cpp:395-406 -/
def verifyHostnameLoop (san : ByteSpan) (hostname : CString) : ℕ → ℕ → Guarded Error Unit
  | 0, _ => fault
  | fuel + 1, p =>
    if p < san.size then do
      let gn ← m.derTlv san p
      let same ← m.dnsNameEqual gn hostname
      if same then pure () else verifyHostnameLoop san hostname fuel gn.next
    else refuse .verify

/-- `x509_verify_hostname` for a host name that is not null.
SOURCE: src/x509/x509.cpp:390-407 -/
def x509VerifyHostname (cert : X509CertificateSpans) (hostname : CString) :
    Guarded Error Unit := do
  refuseIf (hostname.val.length = 0) .invalidArgument
  refuseIf (cert.subjectAltName.data = none) .verify
  m.verifyHostnameLoop cert.subjectAltName hostname (cert.subjectAltName.size + 1) 0

/-! ## Signatures of certificates -/

/-- `parse_alg_oid`: the OID and the parameters.
SOURCE: src/verifier/native/native_verifier.cpp:55-74 -/
def parseAlgOid (algFull : ByteSpan) : Guarded Unit (ByteSpan × ByteSpan) := do
  let alg ← orRefuse (m.tlv algFull 0) ()
  refuseIf (alg.tag ≠ 0x30 ∨ alg.next ≠ algFull.size) ()
  let oid ← orRefuse (m.tlv alg.value 0) ()
  refuseIf (oid.tag ≠ 0x06) ()
  if oid.next = alg.value.size then pure (oid.value, .null)
  else do
    let p ← orRefuse (m.tlv alg.value oid.next) ()
    refuseIf (p.next ≠ alg.value.size) ()
    pure (oid.value, p.full)

/-- `is_sha256_alg`.
SOURCE: src/verifier/native/native_verifier.cpp:75-85 -/
def isSha256Alg (algFull : ByteSpan) : Guarded Unit Unit := do
  let (oid, params) ← m.parseAlgOid algFull
  let sha256 ← m.oidEq oid oidSha256
  refuseIf (sha256 = false) ()
  if params.size = 0 then pure ()
  else do
    refuseIf (params.size ≠ 2) ()
    let p0 ← m.readAt params 0
    refuseIf (p0 ≠ 0x05) ()
    let p1 ← m.readAt params 1
    refuseIf (p1 ≠ 0x00) ()

/-- A context element that holds one INTEGER of one byte.
SOURCE: src/verifier/native/native_verifier.cpp:115-124 -/
def isOneByteInteger (f : DerTlvSpans) (v : UInt8) : Guarded Unit Unit := do
  let i ← orRefuse (m.tlv f.value 0) ()
  refuseIf (i.tag ≠ 0x02 ∨ i.next ≠ f.value.size ∨ i.value.size ≠ 1) ()
  let byte ← m.readAt i.value 0
  refuseIf (byte ≠ v) ()

/-- The mask generation field is MGF1 with SHA-256.
SOURCE: src/verifier/native/native_verifier.cpp:104-112 -/
def isMgf1Sha256 (f : DerTlvSpans) : Guarded Unit Unit := do
  let a ← orRefuse (m.tlv f.value 0) ()
  refuseIf (a.tag ≠ 0x30 ∨ a.next ≠ f.value.size) ()
  let (oid, par) ← m.parseAlgOid a.full
  let mgf1 ← m.oidEq oid oidMgf1
  refuseIf (mgf1 = false) ()
  m.isSha256Alg par

/-- One field of the RSASSA-PSS parameters.
SOURCE: src/verifier/native/native_verifier.cpp:98-126 -/
def pssField (f : DerTlvSpans) (seen : PssFields) : Guarded Unit PssFields :=
  if f.tag = 0xA0 then do
    let a ← orRefuse (m.tlv f.value 0) ()
    refuseIf (a.next ≠ f.value.size) ()
    m.isSha256Alg a.full
    pure { seen with hash := true }
  else if f.tag = 0xA1 then do
    m.isMgf1Sha256 f
    pure { seen with mgf := true }
  else if f.tag = 0xA2 then do
    m.isOneByteInteger f 32
    pure { seen with salt := true }
  else if f.tag = 0xA3 then do
    m.isOneByteInteger f 1
    pure seen
  else refuse ()

/-- The loop of `parse_pss_sha256_params`.
SOURCE: src/verifier/native/native_verifier.cpp:93-128 -/
def pssFieldsLoop (seq : ByteSpan) : ℕ → ℕ → PssFields → Guarded Unit PssFields
  | 0, _, _ => fault
  | fuel + 1, p, seen =>
    if p < seq.size then do
      let f ← orRefuse (m.tlv seq p) ()
      let seen ← m.pssField f seen
      pssFieldsLoop seq fuel f.next seen
    else pure seen

/-- `parse_pss_sha256_params`.
SOURCE: src/verifier/native/native_verifier.cpp:86-130 -/
def parsePssSha256Params (paramsFull : ByteSpan) : Guarded Unit Unit := do
  refuseIf (paramsFull.data = none ∨ paramsFull.size = 0) ()
  let seq ← orRefuse (m.tlv paramsFull 0) ()
  refuseIf (seq.tag ≠ 0x30 ∨ seq.next ≠ paramsFull.size) ()
  let seen ← m.pssFieldsLoop seq.value (seq.value.size + 1) 0 ⟨false, false, false⟩
  refuseIf ((seen.hash && seen.mgf && seen.salt) = false) ()

/-- `oid_eq(oidv, RSA_PSS, sizeof(RSA_PSS)) && parse_pss_sha256_params(params)`. -/
def isRsaPssSha256 (oid params : ByteSpan) : Guarded Error Bool := do
  let pss ← m.oidEq oid oidRsaPss
  if pss then succeeds (m.parsePssSha256Params params) else pure false

/-- The kind of signature that an algorithm names.
SOURCE: src/verifier/native/native_verifier.cpp:178-184 -/
def certSigKind (oid params : ByteSpan) : Guarded Error CertSigKind := do
  let rsa ← m.oidEq oid oidSha256Rsa
  if rsa then pure .rsaSha256
  else do
    let ecdsa ← m.oidEq oid oidSha256Ecdsa
    if ecdsa then pure .ecdsaSha256
    else do
      let sha256 ← m.isRsaPssSha256 oid params
      if sha256 then pure .rsaPssSha256 else pure .unknown

/-- `cert_signature`.
SOURCE: src/verifier/native/native_verifier.cpp:131-186 -/
def certSignature (der : ByteSpan) : Guarded Error CertSigSpans := do
  let cert ← orRefuse (m.tlv der 0) .badHandshake
  refuseIf (cert.tag ≠ 0x30 ∨ cert.next ≠ der.size) .badHandshake
  let tbs ← orRefuse (m.tlv cert.value 0) .badHandshake
  refuseIf (tbs.tag ≠ 0x30) .badHandshake
  let alg ← orRefuse (m.tlv cert.value tbs.next) .badHandshake
  refuseIf (alg.tag ≠ 0x30) .badHandshake
  let f ← m.tlv tbs.value 0
  let serial ← orRefuse (m.tlv tbs.value (if f.tag = 0xA0 then f.next else 0)) .badHandshake
  refuseIf (serial.tag ≠ 0x02) .badHandshake
  let tbsAlg ← orRefuse (m.tlv tbs.value serial.next) .badHandshake
  refuseIf (tbsAlg.tag ≠ 0x30) .badHandshake
  refuseIf (tbsAlg.full.size ≠ alg.full.size) .verify
  let inner ← m.readBytes tbsAlg.full 0 alg.full.size
  let outer ← m.readBytes alg.full 0 alg.full.size
  refuseIf (inner ≠ outer) .verify
  let (oid, params) ← orRefuse (m.parseAlgOid alg.full) .badHandshake
  let sig ← orRefuse (m.tlv cert.value alg.next) .badHandshake
  refuseIf (sig.tag ≠ 0x03 ∨ sig.next ≠ cert.value.size ∨ sig.value.size < 1) .badHandshake
  let unused ← m.readAt sig.value 0
  refuseIf (unused ≠ 0) .badHandshake
  let size ← minus sig.value.size 1
  let kind ← m.certSigKind oid params
  pure ⟨tbs.full, sig.value.sub 1 size, kind⟩

end Memory

end XboxTls.Model
