import XboxTls.Programs.Prog
import XboxTls.Model.Authentication

/-!
# The native verifier (`native_verifier.cpp`)

`NativeServerAuthVerifier` with its trust anchors and its pin, the reader of a
certificate's signature and the path check `verify_chain`.  The array of sixteen
anchors is a list that carries its bound.  The clock is `unix_time_seconds` of the platform, a
function of a state that may change with every reading, or `none` for a verifier without a
platform; it is read anew for the leaf, for every link and for every anchor.
-/

set_option autoImplicit false

namespace XboxTls.Model

open Programs

/-! ## Signatures of certificates -/

/-- `tlv`, this file's copy of the reader.
SOURCE: src/verifier/native/native_verifier.cpp:13-39 -/
def tlv (input : Bytes) (off : ℕ) : Except Error DerTlv := readTlv input off

/-- `CertSigKind`. -/
inductive CertSigKind where
  | unknown
  | rsaSha256
  | ecdsaSha256
  | rsaPssSha256
  deriving DecidableEq, Repr

/-- `CertSig`. -/
structure CertSig where
  tbs : Bytes
  sig : Bytes
  kind : CertSigKind
  deriving DecidableEq, Repr

/-- `parse_alg_oid`: the OID and the parameters, empty when there are none.
SOURCE: src/verifier/native/native_verifier.cpp:55-74 -/
def parseAlgOid (algFull : Bytes) : Option (Bytes × Bytes) := do
  let alg ← (tlv algFull 0).toOption
  if alg.tag ≠ 0x30 ∨ alg.next ≠ algFull.length then none
  else do
    let oid ← (tlv alg.value 0).toOption
    if oid.tag ≠ 0x06 then none
    else if oid.next = alg.value.length then some (oid.value, [])
    else do
      let p ← (tlv alg.value oid.next).toOption
      if p.next ≠ alg.value.length then none else some (oid.value, p.full)

def oidSha256 : Bytes := [0x60, 0x86, 0x48, 0x01, 0x65, 0x03, 0x04, 0x02, 0x01]
def oidMgf1 : Bytes := [0x2A, 0x86, 0x48, 0x86, 0xF7, 0x0D, 0x01, 0x01, 0x08]
def oidSha256Rsa : Bytes := [0x2A, 0x86, 0x48, 0x86, 0xF7, 0x0D, 0x01, 0x01, 0x0B]
def oidSha256Ecdsa : Bytes := [0x2A, 0x86, 0x48, 0xCE, 0x3D, 0x04, 0x03, 0x02]
def oidRsaPss : Bytes := [0x2A, 0x86, 0x48, 0x86, 0xF7, 0x0D, 0x01, 0x01, 0x0A]

/-- `is_sha256_alg`.
SOURCE: src/verifier/native/native_verifier.cpp:75-85 -/
def isSha256Alg (algFull : Bytes) : Bool :=
  match parseAlgOid algFull with
  | none => false
  | some (oid, params) =>
    if oidEq oid oidSha256 = false then false
    else if params.length = 0 then true
    else params = [0x05, 0x00]

/-- Which of the three mandatory fields `parse_pss_sha256_params` has seen. -/
structure PssFields where
  hash : Bool
  mgf : Bool
  salt : Bool
  deriving DecidableEq, Repr

/-- A context element that holds one INTEGER of one byte. -/
def isOneByteInteger (f : DerTlv) (v : UInt8) : Bool :=
  match tlv f.value 0 with
  | .error _ => false
  | .ok i => i.tag = 0x02 ∧ i.next = f.value.length ∧ i.value = [v]

/-- The mask generation field is MGF1 with SHA-256.
SOURCE: src/verifier/native/native_verifier.cpp:104-112 -/
def isMgf1Sha256 (f : DerTlv) : Bool :=
  match tlv f.value 0 with
  | .error _ => false
  | .ok a =>
    if a.tag ≠ 0x30 ∨ a.next ≠ f.value.length then false
    else
      match parseAlgOid a.full with
      | none => false
      | some (oid, par) => oidEq oid oidMgf1 && isSha256Alg par

/-- One field of the RSASSA-PSS parameters.
SOURCE: src/verifier/native/native_verifier.cpp:98-126 -/
def pssField (f : DerTlv) (seen : PssFields) : Option PssFields :=
  if f.tag = 0xA0 then
    match tlv f.value 0 with
    | .error _ => none
    | .ok a =>
      if a.next ≠ f.value.length ∨ isSha256Alg a.full = false then none
      else some { seen with hash := true }
  else if f.tag = 0xA1 then
    if isMgf1Sha256 f then some { seen with mgf := true } else none
  else if f.tag = 0xA2 then
    if isOneByteInteger f 32 then some { seen with salt := true } else none
  else if f.tag = 0xA3 then
    if isOneByteInteger f 1 then some seen else none
  else none

/-- The loop of `parse_pss_sha256_params`; every round takes at least two bytes.
SOURCE: src/verifier/native/native_verifier.cpp:93-128 -/
def pssFieldsLoop (seq : Bytes) : ℕ → ℕ → PssFields → Option PssFields
  | 0, _, seen => some seen
  | fuel + 1, p, seen =>
    if p < seq.length then do
      let f ← (tlv seq p).toOption
      let seen ← pssField f seen
      pssFieldsLoop seq fuel f.next seen
    else some seen

/-- `parse_pss_sha256_params`.
SOURCE: src/verifier/native/native_verifier.cpp:86-130 -/
def parsePssSha256Params (paramsFull : Bytes) : Bool :=
  if paramsFull.length = 0 then false
  else
    match tlv paramsFull 0 with
    | .error _ => false
    | .ok seq =>
      if seq.tag ≠ 0x30 ∨ seq.next ≠ paramsFull.length then false
      else
        match pssFieldsLoop seq.value seq.value.length 0 ⟨false, false, false⟩ with
        | none => false
        | some seen => seen.hash && seen.mgf && seen.salt

/-- The kind of signature that an algorithm names.
SOURCE: src/verifier/native/native_verifier.cpp:178-184 -/
def certSigKind (oid params : Bytes) : CertSigKind :=
  if oidEq oid oidSha256Rsa then .rsaSha256
  else if oidEq oid oidSha256Ecdsa then .ecdsaSha256
  else if oidEq oid oidRsaPss && parsePssSha256Params params then .rsaPssSha256
  else .unknown

/-- `cert_signature`.
SOURCE: src/verifier/native/native_verifier.cpp:131-186 -/
def certSignature (der : Bytes) : Except Error CertSig := do
  let cert ← tlv der 0
  if cert.tag ≠ 0x30 ∨ cert.next ≠ der.length then .error .badHandshake
  else do
    let tbs ← tlv cert.value 0
    if tbs.tag ≠ 0x30 then .error .badHandshake
    else do
      let alg ← tlv cert.value tbs.next
      if alg.tag ≠ 0x30 then .error .badHandshake
      else do
        let f ← tlv tbs.value 0
        let serial ← tlv tbs.value (if f.tag = 0xA0 then f.next else 0)
        if serial.tag ≠ 0x02 then .error .badHandshake
        else do
          let tbsAlg ← tlv tbs.value serial.next
          if tbsAlg.tag ≠ 0x30 then .error .badHandshake
          else if tbsAlg.full ≠ alg.full then .error .verify
          else
            match parseAlgOid alg.full with
            | none => .error .badHandshake
            | some (oid, params) => do
              let sig ← tlv cert.value alg.next
              if sig.tag ≠ 0x03 ∨ sig.next ≠ cert.value.length ∨ sig.value.length < 1 ∨
                  byteAt sig.value 0 ≠ 0 then .error .badHandshake
              else .ok ⟨tbs.full, sig.value.drop 1, certSigKind oid params⟩

/-! ## The verifier object -/

/-- `NativeServerAuthVerifier`: the anchors in use of its array of sixteen, and the pin
with its flag. -/
structure NativeServerAuthVerifier where
  anchors : List Bytes
  bound : anchors.length ≤ 16
  leafCertificateSha256Pin : FixedBytes 32
  leafCertificateSha256PinEnabled : Bool
  deriving DecidableEq, Repr

variable (P : Crypto)

/-- `verify_cert_signed_by`.
SOURCE: src/verifier/native/native_verifier.cpp:229-245 -/
def verifyCertSignedBy (child issuer : Bytes) : Except Error Unit := do
  let iv ← x509ParseCertificate issuer
  let cs ← certSignature child
  if cs.kind = .rsaSha256 ∧ iv.publicKeyKind = .rsa then
    P.nativeRsaPkcs1Sha256Verify iv.subjectPublicKeyBits cs.tbs cs.sig
  else if cs.kind = .rsaPssSha256 ∧ iv.publicKeyKind = .rsa then
    P.nativeRsaPssSha256Verify iv.subjectPublicKeyBits cs.tbs cs.sig
  else if cs.kind = .ecdsaSha256 ∧ iv.publicKeyKind = .ecP256 then
    P.nativeP256EcdsaSha256Verify iv.subjectPublicKeyBits cs.tbs cs.sig
  else .error .unsupported

/-! ## Dates -/

section Dates

variable {V : Type}

/-- `platform_->unix_time_seconds()`, for a verifier with a platform. -/
def readTime (clock : Option (V → UInt64 × V)) : Prog V Error (Option UInt64) :=
  match clock with
  | none => pure none
  | some unixTimeSeconds => fun v =>
    some (.ok (some (unixTimeSeconds v).1), (unixTimeSeconds v).2)

/-- The time, when there is one, lies outside the certificate's validity. -/
def outsideValidity (now : Option UInt64) (v : X509CertificateView) : Bool :=
  match now with
  | none => false
  | some t => t.toNat < v.notBefore ∨ v.notAfter < t.toNat

/-- The checks on an issuer's dates: its validity must have been read.
SOURCE: src/verifier/native/native_verifier.cpp:298-302 and 318-322 -/
def issuerOutOfDate (now : Option UInt64) (v : X509CertificateView) : Bool :=
  now.isSome && (!v.validityPresent || outsideValidity now v)

end Dates

/-! ## The path check -/

/-- An issuer that is not a CA or may not sign certificates. -/
def notAnIssuer (v : X509CertificateView) : Bool :=
  v.basicConstraintsPresent = false ∨ v.isCa = false ∨
    (v.keyUsagePresent = true ∧ v.keyUsageKeyCertSign = false)

/-- The pin check: the differing bits of the leaf's digest and the pin, collected.
SOURCE: src/verifier/native/native_verifier.cpp:256-268 -/
def pinDifference (v : NativeServerAuthVerifier) (leafDer : Bytes) : UInt8 :=
  (List.zipWith (· ^^^ ·) (P.sha256 leafDer).val v.leafCertificateSha256Pin.val).foldl (· ||| ·) 0

/-- The checks of `verify_chain` on the leaf that need no clock.
SOURCE: src/verifier/native/native_verifier.cpp:251-274 -/
def checkLeaf (v : NativeServerAuthVerifier) (leafDer : Bytes) :
    Except Error X509CertificateView := do
  let leaf ← x509ParseCertificate leafDer
  if v.leafCertificateSha256PinEnabled ∧ pinDifference P v leafDer ≠ 0 then .error .verify
  else if leaf.validityPresent = false ∨ (leaf.basicConstraintsPresent ∧ leaf.isCa) then
    .error .verify
  else if leaf.keyUsagePresent ∧ leaf.keyUsageDigitalSignature = false then .error .verify
  else if leaf.extendedKeyUsagePresent ∧ leaf.ekuServerAuth = false then .error .verify
  else .ok leaf

/-- The checks on a child and its issuer that need neither clock nor key: `issuer` stands `i`
places above the leaf's own issuer.
SOURCE: src/verifier/native/native_verifier.cpp:285-297 -/
def checkLink (i : ℕ) (child issuer : Bytes) : Except Error X509CertificateView :=
  match x509ParseCertificate child, x509ParseCertificate issuer with
  | .ok cv, .ok iv =>
    if cv.issuerName ≠ iv.subjectName then .error .verify
    else if notAnIssuer iv then .error .verify
    else if iv.pathLenPresent ∧ iv.pathLenConstraint < i then .error .verify
    else .ok iv
  | _, _ => .error .verify

/-- An anchor that parses and may sign certificates.
SOURCE: src/verifier/native/native_verifier.cpp:312-317 -/
def checkAnchor (anchor : Bytes) : Option X509CertificateView :=
  match x509ParseCertificate anchor with
  | .error _ => none
  | .ok av => if notAnIssuer av then none else some av

/-- Does an anchor end a chain of `count` entries with `top` as the last.
SOURCE: src/verifier/native/native_verifier.cpp:323-336 -/
def anchorEnds (count : ℕ) (top : Bytes) (topv : X509CertificateView) (anchor : Bytes)
    (av : X509CertificateView) : Bool :=
  if top = anchor then
    let caBelow := if count ≥ 2 then count - 2 else 0
    if av.pathLenPresent ∧ av.pathLenConstraint < caBelow then false else true
  else if topv.issuerName ≠ av.subjectName then false
  else
    let caBelow := if count ≥ 1 then count - 1 else 0
    if av.pathLenPresent ∧ av.pathLenConstraint < caBelow then false
    else
      match verifyCertSignedBy P top anchor with
      | .error _ => false
      | .ok () => true

section VerifyChain

variable {V : Type} (clock : Option (V → UInt64 × V))

/-- The part of `verify_chain` on the leaf.
SOURCE: src/verifier/native/native_verifier.cpp:251-282 -/
def verifyLeaf (v : NativeServerAuthVerifier) (leafDer : Bytes) (hostname : CString) :
    Prog V Error Unit := do
  let leaf ← Prog.lift (checkLeaf P v leafDer)
  let now ← readTime clock
  if outsideValidity now leaf then Prog.throw .verify
  else
    match x509VerifyHostname leaf hostname with
    | .error _ => Prog.throw .verify
    | .ok () => pure ()

/-- One round of the loop over the chain.
SOURCE: src/verifier/native/native_verifier.cpp:284-306 -/
def verifyChainLink (i : ℕ) (child issuer : Bytes) : Prog V Error Unit := do
  let iv ← Prog.lift (checkLink i child issuer)
  let now ← readTime clock
  if issuerOutOfDate now iv then Prog.throw .verify
  else
    match verifyCertSignedBy P child issuer with
    | .error _ => Prog.throw .verify
    | .ok () => pure ()

/-- The loop over the chain.
SOURCE: src/verifier/native/native_verifier.cpp:283-306 -/
def verifyChainLinks : ℕ → List Bytes → Prog V Error Unit
  | i, child :: issuer :: rest => do
    verifyChainLink P clock i child issuer
    verifyChainLinks (i + 1) (issuer :: rest)
  | _, _ => pure ()

/-- One round of the anchor loop: does it return `XT_OK`.
SOURCE: src/verifier/native/native_verifier.cpp:311-337 -/
def anchorAccepts (count : ℕ) (top : Bytes) (topv : X509CertificateView) (anchor : Bytes) :
    Prog V Error Bool :=
  match checkAnchor anchor with
  | none => pure false
  | some av => do
    let now ← readTime clock
    pure (!issuerOutOfDate now av && anchorEnds P count top topv anchor av)

/-- The anchor loop.
SOURCE: src/verifier/native/native_verifier.cpp:311-338 -/
def findAnchor (count : ℕ) (top : Bytes) (topv : X509CertificateView) :
    List Bytes → Prog V Error Unit
  | [] => Prog.throw .verify
  | anchor :: rest => do
    let accepts ← anchorAccepts P clock count top topv anchor
    if accepts then pure () else findAnchor count top topv rest

/-- `NativeServerAuthVerifier::verify_chain`.
SOURCE: src/verifier/native/native_verifier.cpp:247-339 -/
def NativeServerAuthVerifier.verifyChain (v : NativeServerAuthVerifier)
    (chain : CertificateChainView) (hostname : CString) : Prog V Error Unit :=
  if hostname.val.length = 0 ∨ chain.entries.length = 0 ∨ v.anchors.length = 0 then
    Prog.throw .verify
  else do
    let ders := chain.entries.map CertificateChainEntry.der
    verifyLeaf P clock v chain.leafDer hostname
    verifyChainLinks P clock 0 ders
    let top := ders.getLastD []
    match x509ParseCertificate top with
    | .error _ => Prog.throw .verify
    | .ok topv => findAnchor P clock ders.length top topv v.anchors

end VerifyChain

end XboxTls.Model
