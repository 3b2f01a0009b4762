import XboxTls.Analysis.TlvMemory
import XboxTls.Interface.X509Memory

/-!
# The certificate parser stays within its bounds

Function by function, the parser with memory answers as the one that works on byte strings does,
and the spans of its view hold the bytes of the other's.
-/

set_option autoImplicit false

namespace XboxTls.Analysis

open Programs Programs.Guarded XboxTls.Model XboxTls.Interface

variable {m : Memory} {h s : ByteSpan} {b : Bytes}

/-! ## Views -/

/-- The span of the names, which is null in a certificate without them. -/
def NamesHold (m : Memory) (h s : ByteSpan) (names : Option Bytes) : Prop :=
  (s = .null ∧ names = none) ∨
    ∃ b, names = some b ∧ Part m h s b ∧ s.data ≠ none ∧ b.length + 4 < m.limit

/-- The spans of a view hold the bytes of the view without memory. -/
structure ViewHolds (m : Memory) (h : ByteSpan) (r : X509CertificateSpans)
    (r' : X509CertificateView) : Prop where
  der : Part m h r.der r'.der
  tbsCertificate : Part m h r.tbsCertificate r'.tbsCertificate
  issuerName : Part m h r.issuerName r'.issuerName
  subjectName : Part m h r.subjectName r'.subjectName
  subjectPublicKeyInfo : Part m h r.subjectPublicKeyInfo r'.subjectPublicKeyInfo
  subjectPublicKeyBits : Part m h r.subjectPublicKeyBits r'.subjectPublicKeyBits
  subjectAltName : NamesHold m h r.subjectAltName r'.subjectAltName
  publicKeyKind : r.publicKeyKind = r'.publicKeyKind
  validityPresent : r.validityPresent = r'.validityPresent
  notBefore : r.notBefore = r'.notBefore
  notAfter : r.notAfter = r'.notAfter
  basicConstraintsPresent : r.basicConstraintsPresent = r'.basicConstraintsPresent
  isCa : r.isCa = r'.isCa
  pathLenPresent : r.pathLenPresent = r'.pathLenPresent
  pathLenConstraint : r.pathLenConstraint = r'.pathLenConstraint
  keyUsagePresent : r.keyUsagePresent = r'.keyUsagePresent
  keyUsageDigitalSignature : r.keyUsageDigitalSignature = r'.keyUsageDigitalSignature
  keyUsageKeyCertSign : r.keyUsageKeyCertSign = r'.keyUsageKeyCertSign
  extendedKeyUsagePresent : r.extendedKeyUsagePresent = r'.extendedKeyUsagePresent
  ekuServerAuth : r.ekuServerAuth = r'.ekuServerAuth

/-- The empty view holds the empty view. -/
theorem viewHolds_empty (hroot : h.Inside m) : ViewHolds m h .empty .empty where
  der := .null hroot
  tbsCertificate := .null hroot
  issuerName := .null hroot
  subjectName := .null hroot
  subjectPublicKeyInfo := .null hroot
  subjectPublicKeyBits := .null hroot
  subjectAltName := .inl ⟨rfl, rfl⟩
  publicKeyKind := rfl
  validityPresent := rfl
  notBefore := rfl
  notAfter := rfl
  basicConstraintsPresent := rfl
  isCa := rfl
  pathLenPresent := rfl
  pathLenConstraint := rfl
  keyUsagePresent := rfl
  keyUsageDigitalSignature := rfl
  keyUsageKeyCertSign := rfl
  extendedKeyUsagePresent := rfl
  ekuServerAuth := rfl

/-! ## Times -/

/-- Two digits inside the input are read. -/
theorem dec2_agrees (hs : Part m h s b) {i : ℕ} (hin : i + 2 ≤ b.length) :
    Agrees Eq (m.dec2 s i) (asAnswer (dec2 b i)) := by
  unfold Memory.dec2 Model.dec2
  dsimp only
  rw [readAt_eq hs (by omega), pure_bind, asAnswer_ite]
  refine agrees_refuseIf_or or_assoc.symm fun _ => ?_
  rw [readAt_eq hs (by omega), pure_bind]
  exact agrees_refuseIf Iff.rfl fun _ => agrees_pure rfl

/-- Four digits inside the input are read. -/
theorem dec4_agrees (hs : Part m h s b) {i : ℕ} (hin : i + 4 ≤ b.length) :
    Agrees Eq (m.dec4 s i) (asAnswer (dec4 b i)) := by
  unfold Memory.dec4 Model.dec4
  rw [asAnswer_bind]
  refine agrees_bind (dec2_agrees hs (by omega)) ?_
  rintro a _ rfl
  rw [asAnswer_bind]
  refine agrees_bind (dec2_agrees hs (by omega)) ?_
  rintro c _ rfl
  exact agrees_pure rfl

/-- The table has a place for every month. -/
theorem daysBeforeMonth_eq_pure {y mo : ℕ} (hmo : mo ≤ 12) :
    Memory.daysBeforeMonth y mo = pure (daysBeforeMonth y mo) := by
  unfold Memory.daysBeforeMonth
  rw [getAt_eq (by simp only [List.length_cons, List.length_nil]; omega), pure_bind]
  unfold Model.daysBeforeMonth
  rw [List.getD_eq_getElem?_getD, List.getElem?_eq_getElem, Option.getD_some]

/-- The year of either form is read inside the time. -/
theorem parseAsn1Year_agrees {t : DerTlvSpans} {t' : DerTlv} (ht : TlvHolds m h t t') :
    Agrees (fun y y' => y = y' ∧ y.2 + 11 = t'.value.length) (m.parseAsn1Year t)
      (asAnswer (parseAsn1Year t')) := by
  have hsize := ht.value.size_eq
  unfold Memory.parseAsn1Year Model.parseAsn1Year
  rw [asAnswer_ite]
  refine agrees_ite (by rw [ht.tag]) (fun _ => ?_) fun _ => ?_
  · rw [asAnswer_ite]
    refine agrees_refuseIf (by rw [hsize]) fun hlen => ?_
    rw [asAnswer_bind]
    refine agrees_bind (dec2_agrees ht.value (by omega)) ?_
    rintro y _ rfl
    exact agrees_pure ⟨rfl, by dsimp only; omega⟩
  · rw [asAnswer_ite]
    refine agrees_refuseIf (by rw [hsize]) fun hlen => ?_
    rw [asAnswer_bind]
    refine agrees_bind (dec4_agrees ht.value (by omega)) ?_
    rintro y _ rfl
    exact agrees_pure ⟨rfl, by dsimp only; omega⟩

/-- `parse_asn1_time` reads inside the time and agrees. -/
theorem parseAsn1Time_agrees {t : DerTlvSpans} {t' : DerTlv} (ht : TlvHolds m h t t') :
    Agrees Eq (m.parseAsn1Time t) (asAnswer (parseAsn1Time t')) := by
  unfold Memory.parseAsn1Time Model.parseAsn1Time
  rw [asAnswer_ite]
  refine agrees_refuseIf (by rw [ht.tag]) fun _ => ?_
  rw [asAnswer_bind]
  refine agrees_bind (parseAsn1Year_agrees ht) ?_
  rintro ⟨y, off⟩ _ ⟨rfl, hlen⟩
  dsimp only at hlen ⊢
  have hdec : ∀ i, i + 2 ≤ 10 → Agrees Eq (m.dec2 t.value (off + i))
      (asAnswer (dec2 t'.value (off + i))) := fun i hi => dec2_agrees ht.value (by omega)
  simp only [asAnswer_bind]
  refine agrees_bind (hdec 0 (by decide)) ?_
  rintro mo _ rfl
  refine agrees_bind (hdec 2 (by decide)) ?_
  rintro d _ rfl
  refine agrees_bind (hdec 4 (by decide)) ?_
  rintro hh _ rfl
  refine agrees_bind (hdec 6 (by decide)) ?_
  rintro mi _ rfl
  refine agrees_bind (hdec 8 (by decide)) ?_
  rintro se _ rfl
  rw [readAt_eq ht.value (by omega), pure_bind, asAnswer_ite]
  refine agrees_refuseIf Iff.rfl fun _ => ?_
  rw [asAnswer_ite]
  refine agrees_refuseIf Iff.rfl fun hrange => ?_
  rw [daysBeforeMonth_eq_pure (by omega), pure_bind]
  exact agrees_pure rfl

/-- `parse_validity` reads inside the input and agrees. -/
theorem parseValidity_agrees (hs : Part m h s b) {out : X509CertificateSpans}
    {out' : X509CertificateView} (hout : ViewHolds m h out out') :
    Agrees (ViewHolds m h) (m.parseValidity s out) (parseValidity b out') := by
  unfold Memory.parseValidity Model.parseValidity
  refine agrees_bind (readTlv_orRefuse_agrees hs (.inl rfl)) fun seq seq' ⟨hseq, _⟩ => ?_
  refine agrees_refuseIf (by rw [hseq.tag, hseq.next, hs.size_eq]) fun _ => ?_
  refine agrees_bind (readTlv_agrees hseq.value _ (.inl rfl)) fun a a' ⟨ha, _⟩ => ?_
  rw [ha.next]
  refine agrees_bind (readTlv_orRefuse_agrees hseq.value (.inr hseq.room)) fun c c' ⟨hc, _⟩ => ?_
  refine agrees_refuseIf (by rw [hc.next, hseq.value.size_eq]) fun _ => ?_
  obtain ⟨hx, hy⟩ | ⟨notBefore, _, hx, hy, rfl⟩ := agrees_asAnswer_iff.1 (parseAsn1Time_agrees ha)
  · rw [hx, hy]
    exact agrees_refuse _
  obtain ⟨hx', hy'⟩ | ⟨notAfter, _, hx', hy', rfl⟩ :=
    agrees_asAnswer_iff.1 (parseAsn1Time_agrees hc)
  · rw [hx, hy, hx', hy']
    exact agrees_refuse _
  rw [hx, hy, hx', hy', orRefuse_pure, orRefuse_pure, pure_bind, pure_bind]
  exact agrees_refuseIf Iff.rfl fun _ => agrees_pure
    { hout with notBefore := rfl, notAfter := rfl, validityPresent := rfl }

/-! ## The public key -/

/-- The kind of a key is read inside the algorithm. -/
theorem spkiKind_agrees {alg oid : DerTlvSpans} {alg' oid' : DerTlv} (halg : TlvHolds m h alg alg')
    (hoid : TlvHolds m h oid oid') :
    Agrees Eq (m.spkiKind alg oid) (spkiKind alg' oid') := by
  unfold Memory.spkiKind Model.spkiKind
  rw [oidEq_eq hoid.value (by decide), pure_bind]
  refine agrees_ite Iff.rfl (fun _ => agrees_pure rfl) fun _ => ?_
  rw [oidEq_eq hoid.value (by decide), pure_bind]
  refine agrees_ite Iff.rfl (fun _ => ?_) fun _ => agrees_refuse _
  refine agrees_refuseIf (by rw [hoid.next, halg.value.size_eq]) fun _ => ?_
  rw [hoid.next]
  obtain ⟨e, hx, hy⟩ | ⟨param, param', hx, hy, hparam, _⟩ :=
    readTlv_agrees halg.value oid'.next (.inr halg.room)
  · rw [Memory.derTlv, hx, derTlv, hy]
    exact agrees_refuse _
  rw [Memory.derTlv, hx, derTlv, hy, orRefuse_pure, pure_bind]
  refine agrees_refuseIf_or (by rw [hparam.tag]) fun _ => ?_
  rw [oidEq_eq hparam.value (by decide), pure_bind]
  exact agrees_refuseIf Iff.rfl fun _ => agrees_pure rfl

/-- `parse_spki` reads inside the input and agrees. -/
theorem parseSpki_agrees (hs : Part m h s b) {out : X509CertificateSpans}
    {out' : X509CertificateView} (hout : ViewHolds m h out out') :
    Agrees (ViewHolds m h) (m.parseSpki s out) (parseSpki b out') := by
  unfold Memory.parseSpki Model.parseSpki
  refine agrees_bind (readTlv_orRefuse_agrees hs (.inl rfl)) fun seq seq' ⟨hseq, _⟩ => ?_
  refine agrees_refuseIf (by rw [hseq.tag, hseq.next, hs.size_eq]) fun _ => ?_
  refine agrees_bind (readTlv_orRefuse_agrees hseq.value (.inl rfl)) fun alg alg' ⟨halg, _⟩ => ?_
  refine agrees_refuseIf (by rw [halg.tag]) fun _ => ?_
  refine agrees_bind (readTlv_orRefuse_agrees halg.value (.inl rfl)) fun oid oid' ⟨hoid, _⟩ => ?_
  refine agrees_refuseIf (by rw [hoid.tag]) fun _ => ?_
  refine agrees_bind (spkiKind_agrees halg hoid) ?_
  rintro kind _ rfl
  rw [halg.next]
  refine agrees_bind (readTlv_orRefuse_agrees hseq.value (.inr hseq.room))
    fun bits bits' ⟨hbits, _⟩ => ?_
  have hsize := hbits.value.size_eq
  refine agrees_refuseIf_or (by rw [hbits.tag, hsize, or_assoc]) fun hbit => ?_
  rw [readAt_eq hbits.value (by omega), pure_bind]
  refine agrees_refuseIf (by rw [hbits.next, hseq.value.size_eq]) fun _ => ?_
  rw [minus_eq (by omega), pure_bind, hsize]
  have hdrop := hbits.value.sub (i := 1) (n := bits'.value.length - 1) (by omega)
  rw [slice, List.take_of_length_le (by rw [List.length_drop])] at hdrop
  exact agrees_pure { hout with
    publicKeyKind := rfl, subjectPublicKeyInfo := hs, subjectPublicKeyBits := hdrop }

/-! ## Extensions -/

/-- A whole sequence is read inside the input. -/
theorem wholeSequence_agrees (hs : Part m h s b) :
    Agrees (TlvHolds m h) (m.wholeSequence s) (wholeSequence b) := by
  unfold Memory.wholeSequence Model.wholeSequence
  refine agrees_bind (readTlv_orRefuse_agrees hs (.inl rfl)) fun seq seq' ⟨hseq, _⟩ => ?_
  exact agrees_refuseIf (by rw [hseq.tag, hseq.next, hs.size_eq]) fun _ => agrees_pure hseq

/-- An element that holds one byte, read as a flag. -/
theorem parseCaFlag_agrees (hs : Part m h s b) :
    Agrees Eq (m.parseCaFlag s) (parseCaFlag b) := by
  unfold Memory.parseCaFlag Model.parseCaFlag
  refine agrees_ite (by rw [hs.size_eq]) (fun _ => ?_) fun _ => agrees_pure rfl
  refine agrees_bind (readTlv_agrees hs _ (.inl rfl)) fun ca ca' ⟨hca, _⟩ => ?_
  have hsize := hca.value.size_eq
  refine agrees_ite (by rw [hca.tag]) (fun _ => ?_) fun _ => agrees_pure rfl
  refine agrees_refuseIf (by rw [hsize]) fun hone => ?_
  rw [readAt_eq hca.value (by omega), pure_bind, hca.next]
  exact agrees_pure rfl

/-- The loop reads the number in the bytes, which fits into 32 bits. -/
theorem pathLenLoop_eq (hs : Part m h s b) (n : ℕ) {i vlen : ℕ} (hin : i + n ≤ b.length)
    (hvlen : (vlen + 1) * 256 ^ n ≤ 2 ^ 32) :
    m.pathLenLoop s n i vlen =
      pure ((slice b i n).foldl (fun acc x => acc * 256 + x.toNat) vlen) := by
  induction n generalizing i vlen with
  | zero => rfl
  | succ n ih =>
    obtain ⟨hfits, hnext⟩ := horner_step (byteAt b i) hvlen
    unfold Memory.pathLenLoop
    rw [readAt_eq hs (by omega), pure_bind, plus_eq hfits, pure_bind, ih (by omega) hnext,
      slice_succ (by omega), List.foldl_cons]

/-- BasicConstraints are read inside the value. -/
theorem parseBasicConstraints_agrees (hs : Part m h s b) {out : X509CertificateSpans}
    {out' : X509CertificateView} (hout : ViewHolds m h out out') :
    Agrees (ViewHolds m h) (m.parseBasicConstraints s out) (parseBasicConstraints b out') := by
  unfold Memory.parseBasicConstraints Model.parseBasicConstraints
  refine agrees_bind (wholeSequence_agrees hs) fun bc bc' hbc => ?_
  refine agrees_bind (parseCaFlag_agrees hbc.value) ?_
  rintro ⟨isCa, bp⟩ _ rfl
  dsimp only
  refine agrees_ite (by rw [hbc.value.size_eq]) (fun _ => ?_) fun _ => agrees_pure
    { hout with basicConstraintsPresent := rfl, isCa := rfl }
  refine agrees_bind (readTlv_orRefuse_agrees hbc.value (.inr hbc.room))
    fun pl pl' ⟨hpl, _⟩ => ?_
  have hsize := hpl.value.size_eq
  have hchecks : (pl.tag ≠ 0x02 ∨ pl.value.size = 0 ∨ pl.value.size > 4 ∨
      pl.next ≠ bc.value.size) ↔ (pl'.tag ≠ 0x02 ∨ pl'.value.length = 0 ∨ pl'.value.length > 4 ∨
        pl'.next ≠ bc'.value.length) := by
    rw [hpl.tag, hpl.next, hsize, hbc.value.size_eq]
  refine agrees_refuseIf_or (q := (byteAt pl'.value 0).toNat ≥ 0x80)
    (by simp only [hchecks, or_assoc]) fun hplain => ?_
  rw [readAt_eq hpl.value (by omega), pure_bind]
  have hsign : byteAt pl'.value 0 &&& 0x80 ≠ 0 ↔ (byteAt pl'.value 0).toNat ≥ 0x80 := by
    rw [ne_eq, and_topBit]
    exact Nat.not_lt
  refine agrees_refuseIf hsign fun _ => ?_
  have hpow : (0 + 1) * 256 ^ pl'.value.length ≤ 2 ^ 32 := by
    rw [Nat.zero_add, Nat.one_mul]
    exact Nat.pow_le_pow_right (n := 256) (by decide) (show pl'.value.length ≤ 4 by omega)
  rw [hsize, pathLenLoop_eq hpl.value _ (by omega) hpow, pure_bind, slice, List.drop_zero,
    List.take_length]
  exact agrees_pure { hout with
    basicConstraintsPresent := rfl, isCa := rfl, pathLenPresent := rfl, pathLenConstraint := rfl }

/-- KeyUsage is read inside the value. -/
theorem parseKeyUsage_agrees (hs : Part m h s b) {out : X509CertificateSpans}
    {out' : X509CertificateView} (hout : ViewHolds m h out out') :
    Agrees (ViewHolds m h) (m.parseKeyUsage s out) (parseKeyUsage b out') := by
  unfold Memory.parseKeyUsage Model.parseKeyUsage
  refine agrees_bind (readTlv_orRefuse_agrees hs (.inl rfl)) fun ku ku' ⟨hku, _⟩ => ?_
  have hsize := hku.value.size_eq
  refine agrees_refuseIf_or (q := (byteAt ku'.value 0).toNat > 7)
    (by simp only [hku.tag, hku.next, hsize, hs.size_eq, or_assoc]) fun hplain => ?_
  rw [readAt_eq hku.value (by omega), pure_bind]
  refine agrees_refuseIf Iff.rfl fun _ => ?_
  rw [readAt_eq hku.value (by omega), pure_bind]
  exact agrees_pure { hout with
    keyUsagePresent := rfl, keyUsageDigitalSignature := rfl, keyUsageKeyCertSign := rfl }

/-- The loop over the purposes comes to its end: each round takes two bytes at least. -/
theorem parsePurposes_agrees (hs : Part m h s b) (hroom : b.length + 4 < m.limit) (fuel ep : ℕ)
    {out : X509CertificateSpans} {out' : X509CertificateView} (hep : ep ≤ b.length)
    (hfuel : b.length - ep ≤ fuel) (hout : ViewHolds m h out out') :
    Agrees (ViewHolds m h) (m.parsePurposes s (fuel + 1) ep out)
      (parsePurposes b fuel ep out') := by
  induction fuel generalizing ep out out' with
  | zero =>
    unfold Memory.parsePurposes
    rw [if_neg (by rw [hs.size_eq]; omega)]
    exact agrees_pure hout
  | succ fuel ih =>
    unfold Memory.parsePurposes Model.parsePurposes
    refine agrees_ite (by rw [hs.size_eq]) (fun _ => ?_) fun _ => agrees_pure hout
    refine agrees_bind (readTlv_orRefuse_agrees hs (.inr hroom))
      fun eo eo' ⟨heo, hlow, hhigh⟩ => ?_
    refine agrees_refuseIf (by rw [heo.tag]) fun _ => ?_
    rw [oidEq_eq heo.value (by decide), pure_bind, heo.next]
    refine ih _ hhigh (by omega) ?_
    split
    · exact { hout with ekuServerAuth := rfl }
    · exact hout

/-- A flag and a view. -/
def KnownHolds (m : Memory) (h : ByteSpan) (r : Bool × X509CertificateSpans)
    (r' : Bool × X509CertificateView) : Prop :=
  r.1 = r'.1 ∧ ViewHolds m h r.2 r'.2

/-- The value of an extension is read inside it. -/
theorem parseExtensionValue_agrees {o v : ByteSpan} {oid value : Bytes} (ho : Part m h o oid)
    (hv : Part m h v value) {out : X509CertificateSpans} {out' : X509CertificateView}
    (hout : ViewHolds m h out out') :
    Agrees (KnownHolds m h) (m.parseExtensionValue o v out)
      (parseExtensionValue oid value out') := by
  unfold Memory.parseExtensionValue Model.parseExtensionValue
  rw [oidEq_eq ho (by decide), pure_bind]
  refine agrees_ite Iff.rfl (fun _ => ?_) fun _ => ?_
  · refine agrees_bind (wholeSequence_agrees hv) fun names names' hnames => ?_
    have hsan : NamesHold m h names.value (some names'.value) :=
      .inr ⟨_, rfl, hnames.value, hnames.pointer, hnames.room⟩
    exact agrees_pure ⟨rfl, { hout with subjectAltName := hsan }⟩
  rw [oidEq_eq ho (by decide), pure_bind]
  refine agrees_ite Iff.rfl (fun _ => ?_) fun _ => ?_
  · exact agrees_bind (parseBasicConstraints_agrees hv hout)
      fun r r' hr => agrees_pure ⟨rfl, hr⟩
  rw [oidEq_eq ho (by decide), pure_bind]
  refine agrees_ite Iff.rfl (fun _ => ?_) fun _ => ?_
  · exact agrees_bind (parseKeyUsage_agrees hv hout) fun r r' hr => agrees_pure ⟨rfl, hr⟩
  rw [oidEq_eq ho (by decide), pure_bind]
  refine agrees_ite Iff.rfl (fun _ => ?_) fun _ => agrees_pure ⟨rfl, hout⟩
  refine agrees_bind (wholeSequence_agrees hv) fun es es' hes => ?_
  rw [hes.value.size_eq]
  exact agrees_bind (parsePurposes_agrees hes.value hes.room _ 0 (Nat.zero_le _) (by omega)
    { hout with extendedKeyUsagePresent := rfl }) fun r r' hr => agrees_pure ⟨rfl, hr⟩

/-- The flag of an extension is read inside it. -/
theorem parseCritical_agrees {ext : DerTlvSpans} {ext' : DerTlv} (hext : TlvHolds m h ext ext')
    (q : ℕ) :
    Agrees (fun r r' => r.1 = r'.1 ∧ TlvHolds m h r.2 r'.2) (m.parseCritical ext.value q)
      (parseCritical ext'.value q) := by
  unfold Memory.parseCritical Model.parseCritical
  refine agrees_bind (readTlv_agrees hext.value _ (.inr hext.room)) fun v v' ⟨hv, _⟩ => ?_
  have hsize := hv.value.size_eq
  refine agrees_ite (by rw [hv.tag]) (fun _ => ?_) fun _ => agrees_pure ⟨rfl, hv⟩
  refine agrees_refuseIf (by rw [hsize]) fun hone => ?_
  rw [readAt_eq hv.value (by omega), pure_bind, hv.next]
  exact agrees_bind (readTlv_agrees hext.value _ (.inr hext.room))
    fun w w' ⟨hw, _⟩ => agrees_pure ⟨rfl, hw⟩

/-- The loop over the extensions reads inside the sequence and agrees. -/
theorem parseExtensionsLoop_agrees (hs : Part m h s b) (hroom : b.length + 4 < m.limit)
    (fuel p : ℕ) {out : X509CertificateSpans} {out' : X509CertificateView} (hp : p ≤ b.length)
    (hfuel : b.length - p ≤ fuel) (hout : ViewHolds m h out out') :
    Agrees (ViewHolds m h) (m.parseExtensionsLoop s (fuel + 1) p out)
      (parseExtensionsLoop b fuel p out') := by
  induction fuel generalizing p out out' with
  | zero =>
    unfold Memory.parseExtensionsLoop
    rw [if_neg (by rw [hs.size_eq]; omega)]
    exact agrees_pure hout
  | succ fuel ih =>
    unfold Memory.parseExtensionsLoop Model.parseExtensionsLoop
    refine agrees_ite (by rw [hs.size_eq]) (fun _ => ?_) fun _ => agrees_pure hout
    refine agrees_bind (readTlv_orRefuse_agrees hs (.inr hroom))
      fun ext ext' ⟨hext, hlow, hhigh⟩ => ?_
    refine agrees_refuseIf (by rw [hext.tag]) fun _ => ?_
    refine agrees_bind (readTlv_orRefuse_agrees hext.value (.inl rfl))
      fun oid oid' ⟨hoid, _⟩ => ?_
    refine agrees_refuseIf (by rw [hoid.tag]) fun _ => ?_
    rw [hoid.next]
    refine agrees_bind (parseCritical_agrees hext oid'.next) ?_
    rintro ⟨critical, v⟩ ⟨_, v'⟩ ⟨rfl, hv⟩
    refine agrees_refuseIf (by rw [hv.tag, hv.next, hext.value.size_eq]) fun _ => ?_
    refine agrees_bind (parseExtensionValue_agrees hoid.value hv.value hout) ?_
    rintro ⟨known, r⟩ ⟨_, r'⟩ ⟨rfl, hr⟩
    refine agrees_refuseIf Iff.rfl fun _ => ?_
    rw [hext.next]
    exact ih _ hhigh (by omega) hr

/-- `parse_extensions` reads inside the block and agrees. -/
theorem parseExtensions_agrees (hs : Part m h s b) {out : X509CertificateSpans}
    {out' : X509CertificateView} (hout : ViewHolds m h out out') :
    Agrees (ViewHolds m h) (m.parseExtensions s out) (parseExtensions b out') := by
  unfold Memory.parseExtensions Model.parseExtensions
  refine agrees_bind (readTlv_orRefuse_agrees hs (.inl rfl)) fun exwrap exwrap' ⟨hex, _⟩ => ?_
  refine agrees_refuseIf (by rw [hex.tag, hex.next, hs.size_eq]) fun _ => ?_
  refine agrees_bind (wholeSequence_agrees hex.value) fun seq seq' hseq => ?_
  rw [hseq.value.size_eq]
  exact parseExtensionsLoop_agrees hseq.value hseq.room _ 0 (Nat.zero_le _) (by omega) hout

/-! ## The certificate -/

/-- The optional fields are read inside the certificate. -/
theorem parseOptionalFields_agrees (hs : Part m h s b) (hroom : b.length + 4 < m.limit)
    (fuel q : ℕ) {out : X509CertificateSpans} {out' : X509CertificateView} (hq : q ≤ b.length)
    (hfuel : b.length - q ≤ fuel) (hout : ViewHolds m h out out') :
    Agrees (ViewHolds m h) (m.parseOptionalFields s (fuel + 1) q out)
      (parseOptionalFields b fuel q out') := by
  induction fuel generalizing q out out' with
  | zero =>
    unfold Memory.parseOptionalFields
    rw [if_neg (by rw [hs.size_eq]; omega)]
    exact agrees_pure hout
  | succ fuel ih =>
    unfold Memory.parseOptionalFields Model.parseOptionalFields
    refine agrees_ite (by rw [hs.size_eq]) (fun _ => ?_) fun _ => agrees_pure hout
    refine agrees_bind (readTlv_agrees hs _ (.inr hroom)) fun f f' ⟨hf, hlow, hhigh⟩ => ?_
    rw [hf.next]
    refine agrees_ite (by rw [hf.tag]) (fun _ => ?_) fun _ => ih _ hhigh (by omega) hout
    exact agrees_bind (parseExtensions_agrees hf.full hout)
      fun r r' hr => ih _ hhigh (by omega) hr

/-- The signed part is read inside the certificate. -/
theorem parseTbs_agrees {tbs : DerTlvSpans} {tbs' : DerTlv} (htbs : TlvHolds m h tbs tbs')
    {out : X509CertificateSpans} {out' : X509CertificateView} (hout : ViewHolds m h out out') :
    Agrees (ViewHolds m h) (m.parseTbs tbs.value out) (parseTbs tbs'.value out') := by
  have hread : ∀ off, Agrees (TlvRead m h tbs'.value off) (m.readTlv tbs.value off)
      (readTlv tbs'.value off) := fun off => readTlv_agrees htbs.value off (.inr htbs.room)
  unfold Memory.parseTbs Model.parseTbs
  refine agrees_bind (hread 0) fun f f' ⟨hf, _⟩ => ?_
  rw [hf.tag, hf.next]
  refine agrees_bind (hread _) fun serial serial' ⟨hserial, _⟩ => ?_
  rw [hserial.next]
  refine agrees_bind (hread _) fun signature signature' ⟨hsignature, _⟩ => ?_
  rw [hsignature.next]
  refine agrees_bind (hread _) fun issuer issuer' ⟨hissuer, _⟩ => ?_
  rw [hissuer.next]
  refine agrees_bind (hread _) fun validity validity' ⟨hvalidity, _⟩ => ?_
  refine agrees_bind (parseValidity_agrees hvalidity.full
    { hout with issuerName := hissuer.full }) fun r r' hr => ?_
  rw [hvalidity.next]
  refine agrees_bind (hread _) fun subject subject' ⟨hsubject, _⟩ => ?_
  rw [hsubject.next]
  refine agrees_bind (readTlv_orRefuse_agrees htbs.value (.inr htbs.room))
    fun spki spki' ⟨hspki, hlow, hhigh⟩ => ?_
  refine agrees_refuseIf (by rw [hspki.tag]) fun _ => ?_
  refine agrees_bind (parseSpki_agrees hspki.full
    { hr with subjectName := hsubject.full }) fun v v' hv => ?_
  rw [hspki.next, htbs.value.size_eq]
  exact parseOptionalFields_agrees htbs.value htbs.room _ _ hhigh (by omega) hv

/-- `x509_parse_certificate` reads inside the input and agrees. -/
theorem x509ParseCertificate_agrees (hs : Part m h s b) :
    Agrees (ViewHolds m h) (m.x509ParseCertificate s) (x509ParseCertificate b) := by
  have hsize := hs.size_eq
  have hempty : (s.data = none ∨ s.size = 0) ↔ b.length = 0 := by
    rw [← hsize]
    exact ⟨fun hor => hor.elim hs.size_of_null id, .inr⟩
  unfold Memory.x509ParseCertificate Model.x509ParseCertificate
  refine agrees_refuseIf hempty fun _ => ?_
  refine agrees_bind (readTlv_orRefuse_agrees hs (.inl rfl)) fun cert cert' ⟨hcert, _⟩ => ?_
  refine agrees_refuseIf (by rw [hcert.tag, hcert.next, hsize]) fun _ => ?_
  refine agrees_bind (readTlv_orRefuse_agrees hcert.value (.inl rfl))
    fun tbs tbs' ⟨htbs, _⟩ => ?_
  refine agrees_refuseIf (by rw [htbs.tag]) fun _ => ?_
  exact parseTbs_agrees htbs
    { viewHolds_empty hs.root with der := hs, tbsCertificate := htbs.full }

/-! ## Host names -/

/-- The loop over two strings compares the bytes that it was sent to. -/
theorem equalIgnoreCase_eq (hs : Part m h s b) (host : CString) (n : ℕ) {i j : ℕ}
    (hi : i + n ≤ b.length) (hj : j + n ≤ host.val.length) :
    m.equalIgnoreCase s host n i j =
      pure (equalIgnoreCase (slice b i n) (slice host.val j n)) := by
  induction n generalizing i j with
  | zero => rfl
  | succ n ih =>
    have hlen : j < (host.val ++ [0]).length := by
      rw [List.length_append]
      omega
    have hchar : (host.val ++ [0])[j] = byteAt host.val j := by
      rw [List.getElem_append_left (by omega), byteAt_eq_getElem (by omega)]
    unfold Memory.equalIgnoreCase Memory.hostAt
    rw [readAt_eq hs (by omega), pure_bind, getAt_eq hlen, pure_bind, hchar, ih (by omega)
      (by omega), slice_succ (by omega), slice_succ (by omega)]
    unfold Model.equalIgnoreCase
    simp only [List.map_cons, List.cons.injEq]
    split <;> simp_all

/-- The test for a wildcard reads inside the name. -/
theorem isWildcard_eq (hs : Part m h s b) :
    m.isWildcard s = pure (decide (b.length > 2 ∧ byteAt b 0 = 42 ∧ byteAt b 1 = 46)) := by
  unfold Memory.isWildcard
  rw [hs.size_eq]
  by_cases hlong : b.length > 2
  · rw [if_pos hlong, readAt_eq hs (by omega), pure_bind, readAt_eq hs (by omega), pure_bind]
    simp [hlong]
  · rw [if_neg hlong]
    simp [hlong]

/-- What is taken is not longer than the list. -/
theorem takeWhile_length_le (p : UInt8 → Bool) (l : Bytes) : (l.takeWhile p).length ≤ l.length :=
  (List.takeWhile_prefix p).length_le

/-- The comparison with a wildcard reads inside name and host. -/
theorem wildcardEqual_eq (hs : Part m h s b) (host : CString) (hlong : b.length > 2) :
    m.wildcardEqual s host = pure (
      let label := host.val.takeWhile (· ≠ 46)
      if label.length = host.val.length ∨ label.length = 0 then false
      else
        let suffix := host.val.drop (label.length + 1)
        if suffix.length ≠ b.length - 2 then false
        else equalIgnoreCase (b.drop 2) suffix) := by
  have hle := takeWhile_length_le (· ≠ 46) host.val
  unfold Memory.wildcardEqual
  dsimp only
  generalize (host.val.takeWhile (· ≠ 46)).length = dot at hle ⊢
  by_cases hdot : dot = host.val.length ∨ dot = 0
  · rw [if_pos hdot, if_pos hdot]
  rw [if_neg hdot, if_neg hdot, minus_eq (by omega), pure_bind, hs.size_eq, minus_eq (by omega),
    pure_bind, List.length_drop]
  by_cases hlen : host.val.length - (dot + 1) ≠ b.length - 2
  · rw [if_pos hlen, if_pos hlen]
  rw [if_neg hlen, if_neg hlen, equalIgnoreCase_eq hs host _ (by omega) (by omega)]
  unfold slice
  rw [List.take_of_length_le (by rw [List.length_drop]; omega),
    List.take_of_length_le (by rw [List.length_drop])]

/-- The comparison of whole names reads inside both. -/
theorem wholeEqual_eq (hs : Part m h s b) (host : CString) :
    m.wholeEqual s host =
      pure (decide (b.length = host.val.length ∧ equalIgnoreCase b host.val = true)) := by
  unfold Memory.wholeEqual
  rw [hs.size_eq]
  by_cases hlen : b.length = host.val.length
  · have hb : slice b 0 host.val.length = b := by
      rw [← hlen, slice, List.drop_zero, List.take_length]
    have hhost : slice host.val 0 host.val.length = host.val := by
      rw [slice, List.drop_zero, List.take_length]
    rw [if_pos hlen, equalIgnoreCase_eq hs host _ (by omega) (by omega), hb, hhost]
    simp [hlen]
  · rw [if_neg hlen]
    simp [hlen]

/-- `dns_equal` reads inside both names and agrees. -/
theorem dnsEqual_eq (hs : Part m h s b) (host : CString) :
    m.dnsEqual s host = pure (dnsEqual b host) := by
  unfold Memory.dnsEqual Model.dnsEqual
  dsimp only
  rw [wholeEqual_eq hs, pure_bind, isWildcard_eq hs]
  by_cases hequal : b.length = host.val.length ∧ equalIgnoreCase b host.val = true
  · rw [if_pos (decide_eq_true hequal), if_pos hequal]
  rw [if_neg (by simpa using hequal), if_neg hequal, pure_bind]
  by_cases hwild : b.length > 2 ∧ byteAt b 0 = 42 ∧ byteAt b 1 = 46
  · rw [if_pos (decide_eq_true hwild), if_pos hwild, wildcardEqual_eq hs host hwild.1]
  · rw [if_neg (by simpa using hwild), if_neg hwild]

/-- A name of another type is not compared. -/
theorem dnsNameEqual_eq {gn : DerTlvSpans} {gn' : DerTlv} (hgn : TlvHolds m h gn gn')
    (host : CString) :
    m.dnsNameEqual gn host = pure (decide (gn'.tag = 0x82 ∧ dnsEqual gn'.value host = true)) := by
  unfold Memory.dnsNameEqual
  rw [hgn.tag]
  by_cases htag : gn'.tag = 0x82
  · rw [if_pos htag, dnsEqual_eq hgn.value]
    simp [htag]
  · rw [if_neg htag]
    simp [htag]

/-- The loop over the names reads inside them and agrees. -/
theorem verifyHostnameLoop_agrees (hs : Part m h s b) (hroom : b.length + 4 < m.limit)
    (hostname : CString) (fuel p : ℕ) (hp : p ≤ b.length) (hfuel : b.length - p ≤ fuel) :
    Agrees Eq (m.verifyHostnameLoop s hostname (fuel + 1) p)
      (verifyHostnameLoop b hostname fuel p) := by
  induction fuel generalizing p with
  | zero =>
    unfold Memory.verifyHostnameLoop
    rw [if_neg (by rw [hs.size_eq]; omega)]
    exact agrees_refuse _
  | succ fuel ih =>
    unfold Memory.verifyHostnameLoop Model.verifyHostnameLoop
    refine agrees_ite (by rw [hs.size_eq]) (fun _ => ?_) fun _ => agrees_refuse _
    refine agrees_bind (readTlv_agrees hs _ (.inr hroom)) fun gn gn' ⟨hgn, hlow, hhigh⟩ => ?_
    rw [dnsNameEqual_eq hgn, pure_bind, hgn.next]
    exact agrees_ite (by rw [decide_eq_true_iff]) (fun _ => agrees_pure rfl)
      fun _ => ih _ hhigh (by omega)

/-- `x509_verify_hostname` reads inside the names and agrees. -/
theorem x509VerifyHostname_agrees {r : X509CertificateSpans} {r' : X509CertificateView}
    (hr : NamesHold m h r.subjectAltName r'.subjectAltName) (hostname : CString) :
    Agrees Eq (m.x509VerifyHostname r hostname) (x509VerifyHostname r' hostname) := by
  unfold Memory.x509VerifyHostname Model.x509VerifyHostname
  refine agrees_refuseIf Iff.rfl fun _ => ?_
  obtain ⟨hnull, hnone⟩ | ⟨san, hsome, hsan, hpointer, hroom⟩ := hr
  · have hdata : ByteSpan.null.data = none := rfl
    rw [hnull, hnone, refuseIf_pos _ hdata, refuse_bind]
    exact agrees_refuse _
  · rw [hsome, refuseIf_neg _ hpointer, pure_bind, hsan.size_eq]
    exact verifyHostnameLoop_agrees hsan hroom hostname _ 0 (Nat.zero_le _) (by omega)

end XboxTls.Analysis
