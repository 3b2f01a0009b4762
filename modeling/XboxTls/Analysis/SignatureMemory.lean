import XboxTls.Analysis.X509Memory

/-!
# The parsers of signatures stay within their bounds

The same for `cert_signature` and the parsers of AlgorithmIdentifiers and RSASSA-PSS parameters,
and from all of them the safety of the certificate parsers (`certificateParsers_safe`).
-/

set_option autoImplicit false

namespace XboxTls.Analysis

open Programs Programs.Guarded XboxTls.Model XboxTls.Interface

variable {m : Memory} {h s : ByteSpan} {b : Bytes}

/-! ## Algorithms -/

/-- The reader of `native_verifier.cpp` reads inside the input and agrees. -/
theorem tlv_agrees (hs : Part m h s b) {off : ℕ} (hroom : off = 0 ∨ b.length + 4 < m.limit) :
    Agrees (TlvRead m h b off) (orRefuse (m.tlv s off) ()) (asAnswer (tlv b off).toOption) :=
  (readTlv_agrees hs _ hroom).toOption

/-- The OID and the parameters of an algorithm. -/
def AlgHolds (m : Memory) (h : ByteSpan) (r : ByteSpan × ByteSpan) (r' : Bytes × Bytes) : Prop :=
  Part m h r.1 r'.1 ∧ Part m h r.2 r'.2

/-- `parse_alg_oid` reads inside the input and agrees. -/
theorem parseAlgOid_agrees (hs : Part m h s b) :
    Agrees (AlgHolds m h) (m.parseAlgOid s) (asAnswer (parseAlgOid b)) := by
  unfold Memory.parseAlgOid Model.parseAlgOid
  rw [asAnswer_bind]
  refine agrees_bind (tlv_agrees hs (.inl rfl)) fun alg alg' ⟨halg, _⟩ => ?_
  rw [asAnswer_ite]
  refine agrees_refuseIf (by rw [halg.tag, halg.next, hs.size_eq]) fun _ => ?_
  rw [asAnswer_bind]
  refine agrees_bind (tlv_agrees halg.value (.inl rfl)) fun oid oid' ⟨hoid, _⟩ => ?_
  rw [asAnswer_ite]
  refine agrees_refuseIf (by rw [hoid.tag]) fun _ => ?_
  rw [asAnswer_ite, hoid.next]
  refine agrees_ite (by rw [halg.value.size_eq])
    (fun _ => agrees_pure ⟨hoid.value, .null hs.root⟩) fun _ => ?_
  rw [asAnswer_bind]
  refine agrees_bind (tlv_agrees halg.value (.inr halg.room)) fun p p' ⟨hp, _⟩ => ?_
  rw [asAnswer_ite]
  exact agrees_refuseIf (by rw [hp.next, halg.value.size_eq])
    fun _ => agrees_pure ⟨hoid.value, hp.full⟩

/-- Parameters that are the element NULL. -/
theorem null_params_eq (hs : Part m h s b) :
    (do
      refuseIf (s.size ≠ 2) ()
      let p0 ← m.readAt s 0
      refuseIf (p0 ≠ 0x05) ()
      let p1 ← m.readAt s 1
      refuseIf (p1 ≠ 0x00) ()) = check (b = [0x05, 0x00]) := by
  rw [hs.size_eq]
  by_cases hlen : b.length = 2
  · obtain ⟨x, y, rfl⟩ := List.length_eq_two.1 hlen
    have hfirst : byteAt [x, y] 0 = x := rfl
    rw [refuseIf_neg _ (not_not.2 hlen), pure_bind, readAt_eq hs (by omega), pure_bind, hfirst]
    by_cases hx : x = 0x05
    · rw [refuseIf_neg _ (not_not.2 hx), pure_bind, readAt_eq hs (by omega), pure_bind]
      exact refuseIf_eq_check (by simp [byteAt, hx])
    · rw [refuseIf_pos _ hx, refuse_bind, decide_eq_false (by simp [hx]), check_false]
  · have hne : b ≠ [0x05, 0x00] := fun heq => hlen (by rw [heq]; rfl)
    rw [refuseIf_pos _ hlen, refuse_bind, decide_eq_false hne, check_false]

/-- `is_sha256_alg` reads inside the input and agrees. -/
theorem isSha256Alg_eq (hs : Part m h s b) : m.isSha256Alg s = check (isSha256Alg b) := by
  unfold Memory.isSha256Alg Model.isSha256Alg
  obtain ⟨hx, hy⟩ | ⟨⟨oid, params⟩, ⟨oid', params'⟩, hx, hy, hoid, hparams⟩ :=
    agrees_asAnswer_iff.1 (parseAlgOid_agrees hs)
  · rw [hx, hy]
    rfl
  rw [hx, hy, pure_bind]
  dsimp only at hoid hparams ⊢
  rw [oidEq_eq hoid (by decide), pure_bind]
  by_cases halg : oidEq oid' oidSha256 = false
  · rw [refuseIf_pos _ halg, refuse_bind, if_pos halg, check_false]
  rw [refuseIf_neg _ halg, pure_bind, if_neg halg, hparams.size_eq]
  by_cases hnone : params'.length = 0
  · rw [if_pos hnone, if_pos hnone, check_true]
  rw [if_neg hnone, if_neg hnone, ← hparams.size_eq, null_params_eq hparams]

/-! ## RSASSA-PSS parameters -/

/-- The check of a salt length or trailer reads inside the field. -/
theorem isOneByteInteger_eq {f : DerTlvSpans} {f' : DerTlv} (hf : TlvHolds m h f f') (v : UInt8) :
    m.isOneByteInteger f v = check (isOneByteInteger f' v) := by
  unfold Memory.isOneByteInteger Model.isOneByteInteger
  obtain ⟨e, hx, hy⟩ | ⟨i, i', hx, hy, hi, _⟩ := readTlv_agrees hf.value 0 (.inl rfl)
  · rw [Memory.tlv, hx, tlv, hy]
    rfl
  rw [Memory.tlv, hx, tlv, hy, orRefuse_pure, pure_bind, hi.tag, hi.next, hf.value.size_eq,
    hi.value.size_eq]
  dsimp only
  by_cases hshape : i'.tag ≠ 0x02 ∨ i'.next ≠ f'.value.length ∨ i'.value.length ≠ 1
  · have hno : ¬ (i'.tag = 0x02 ∧ i'.next = f'.value.length ∧ i'.value = [v]) := by
      rintro ⟨htag, hnext, hvalue⟩
      rw [hvalue] at hshape
      exact hshape.elim (· htag) fun hor => hor.elim (· hnext) fun hlen => hlen rfl
    rw [refuseIf_pos _ hshape, refuse_bind, decide_eq_false hno, check_false]
  · obtain ⟨htag, hnext, hlen⟩ : i'.tag = 0x02 ∧ i'.next = f'.value.length ∧
        i'.value.length = 1 := by tauto
    rw [refuseIf_neg _ hshape, pure_bind, readAt_eq hi.value (by omega), pure_bind]
    obtain ⟨x, hvalue⟩ := List.length_eq_one_iff.1 hlen
    exact refuseIf_eq_check (by simp [htag, hnext, hvalue, byteAt])

/-- The check of the mask function reads inside the field. -/
theorem isMgf1Sha256_eq {f : DerTlvSpans} {f' : DerTlv} (hf : TlvHolds m h f f') :
    m.isMgf1Sha256 f = check (isMgf1Sha256 f') := by
  unfold Memory.isMgf1Sha256 Model.isMgf1Sha256
  obtain ⟨e, hx, hy⟩ | ⟨a, a', hx, hy, ha, _⟩ := readTlv_agrees hf.value 0 (.inl rfl)
  · rw [Memory.tlv, hx, tlv, hy]
    rfl
  rw [Memory.tlv, hx, tlv, hy, orRefuse_pure, pure_bind, ha.tag, ha.next, hf.value.size_eq]
  dsimp only
  by_cases hshape : a'.tag ≠ 0x30 ∨ a'.next ≠ f'.value.length
  · rw [refuseIf_pos _ hshape, refuse_bind, if_pos hshape, check_false]
  rw [refuseIf_neg _ hshape, pure_bind, if_neg hshape]
  obtain ⟨hx', hy'⟩ | ⟨⟨oid, par⟩, ⟨oid', par'⟩, hx', hy', hoid, hpar⟩ :=
    agrees_asAnswer_iff.1 (parseAlgOid_agrees ha.full)
  · rw [hx', hy']
    rfl
  rw [hx', hy', pure_bind]
  dsimp only at hoid hpar ⊢
  rw [oidEq_eq hoid (by decide), pure_bind, isSha256Alg_eq hpar]
  cases oidEq oid' oidMgf1 <;> rfl

/-- A field of the PSS parameters is read inside. -/
theorem pssField_agrees {f : DerTlvSpans} {f' : DerTlv} (hf : TlvHolds m h f f')
    (seen : PssFields) : Agrees Eq (m.pssField f seen) (asAnswer (pssField f' seen)) := by
  unfold Memory.pssField Model.pssField
  rw [hf.tag, asAnswer_ite]
  refine agrees_ite Iff.rfl (fun _ => ?_) fun _ => ?_
  · obtain ⟨e, hx, hy⟩ | ⟨a, a', hx, hy, ha, _⟩ := readTlv_agrees hf.value 0 (.inl rfl)
    · rw [Memory.tlv, hx, tlv, hy]
      exact agrees_refuse _
    rw [Memory.tlv, hx, tlv, hy, orRefuse_pure, pure_bind, ha.next, hf.value.size_eq,
      isSha256Alg_eq ha.full]
    dsimp only
    rw [asAnswer_ite]
    refine agrees_refuseIf_or Iff.rfl fun _ => ?_
    cases isSha256Alg a'.full with
    | false => exact agrees_refuse _
    | true => exact agrees_pure rfl
  rw [asAnswer_ite]
  refine agrees_ite Iff.rfl (fun _ => ?_) fun _ => ?_
  · rw [isMgf1Sha256_eq hf]
    exact agrees_check_some rfl
  rw [asAnswer_ite]
  refine agrees_ite Iff.rfl (fun _ => ?_) fun _ => ?_
  · rw [isOneByteInteger_eq hf]
    exact agrees_check_some rfl
  rw [asAnswer_ite]
  refine agrees_ite Iff.rfl (fun _ => ?_) fun _ => agrees_refuse _
  rw [isOneByteInteger_eq hf]
  exact agrees_check_some rfl

/-- The loop over the fields reads inside the parameters and agrees. -/
theorem pssFieldsLoop_agrees (hs : Part m h s b) (hroom : b.length + 4 < m.limit) (fuel p : ℕ)
    (seen : PssFields) (hp : p ≤ b.length) (hfuel : b.length - p ≤ fuel) :
    Agrees Eq (m.pssFieldsLoop s (fuel + 1) p seen) (asAnswer (pssFieldsLoop b fuel p seen)) := by
  induction fuel generalizing p seen with
  | zero =>
    unfold Memory.pssFieldsLoop
    rw [if_neg (by rw [hs.size_eq]; omega)]
    exact agrees_pure rfl
  | succ fuel ih =>
    unfold Memory.pssFieldsLoop Model.pssFieldsLoop
    rw [asAnswer_ite]
    refine agrees_ite (by rw [hs.size_eq]) (fun _ => ?_) fun _ => agrees_pure rfl
    rw [asAnswer_bind]
    refine agrees_bind (tlv_agrees hs (.inr hroom)) fun f f' ⟨hf, hlow, hhigh⟩ => ?_
    rw [asAnswer_bind, hf.next]
    refine agrees_bind (pssField_agrees hf seen) ?_
    rintro seen' _ rfl
    exact ih _ seen' hhigh (by omega)

/-- `parse_pss_sha256_params` reads inside the parameters and agrees. -/
theorem parsePssSha256Params_eq (hs : Part m h s b) :
    m.parsePssSha256Params s = check (parsePssSha256Params b) := by
  have hempty : (s.data = none ∨ s.size = 0) ↔ b.length = 0 := by
    rw [← hs.size_eq]
    exact ⟨fun hor => hor.elim hs.size_of_null id, .inr⟩
  unfold Memory.parsePssSha256Params Model.parsePssSha256Params
  by_cases hzero : b.length = 0
  · rw [refuseIf_pos _ (hempty.2 hzero), refuse_bind, if_pos hzero, check_false]
  rw [refuseIf_neg _ (mt hempty.1 hzero), pure_bind, if_neg hzero]
  obtain ⟨e, hx, hy⟩ | ⟨seq, seq', hx, hy, hseq, _⟩ := readTlv_agrees hs 0 (.inl rfl)
  · rw [Memory.tlv, hx, tlv, hy]
    rfl
  rw [Memory.tlv, hx, tlv, hy, orRefuse_pure, pure_bind, hseq.tag, hseq.next, hs.size_eq,
    hseq.value.size_eq]
  dsimp only
  by_cases hshape : seq'.tag ≠ 0x30 ∨ seq'.next ≠ b.length
  · rw [refuseIf_pos _ hshape, refuse_bind, if_pos hshape, check_false]
  rw [refuseIf_neg _ hshape, pure_bind, if_neg hshape]
  obtain ⟨hx', hy'⟩ | ⟨seen, _, hx', hy', rfl⟩ := agrees_asAnswer_iff.1
    (pssFieldsLoop_agrees hseq.value hseq.room seq'.value.length 0 ⟨false, false, false⟩
      (Nat.zero_le _) (by omega))
  · rw [hx', hy']
    rfl
  rw [hx', hy', pure_bind]
  exact refuseIf_eq_check Iff.rfl

/-! ## Signatures -/

/-- The check for RSASSA-PSS reads inside the algorithm. -/
theorem isRsaPssSha256_eq {o p : ByteSpan} {oid params : Bytes} (ho : Part m h o oid)
    (hp : Part m h p params) :
    m.isRsaPssSha256 o p = pure (oidEq oid oidRsaPss && parsePssSha256Params params) := by
  unfold Memory.isRsaPssSha256
  rw [oidEq_eq ho (by decide), pure_bind, parsePssSha256Params_eq hp, succeeds_check]
  cases oidEq oid oidRsaPss <;> rfl

/-- The kind of a signature is read inside the algorithm. -/
theorem certSigKind_eq {o p : ByteSpan} {oid params : Bytes} (ho : Part m h o oid)
    (hp : Part m h p params) : m.certSigKind o p = pure (certSigKind oid params) := by
  unfold Memory.certSigKind Model.certSigKind
  rw [oidEq_eq ho (by decide), pure_bind, oidEq_eq ho (by decide), pure_bind,
    isRsaPssSha256_eq ho hp, pure_bind]
  cases oidEq oid oidSha256Rsa
  · cases oidEq oid oidSha256Ecdsa
    · cases oidEq oid oidRsaPss && parsePssSha256Params params <;> rfl
    · rfl
  · rfl

/-- The spans of a signature hold its bytes. -/
structure SignatureHolds (m : Memory) (h : ByteSpan) (r : CertSigSpans) (r' : CertSig) : Prop where
  tbs : Part m h r.tbs r'.tbs
  sig : Part m h r.sig r'.sig
  kind : r.kind = r'.kind

/-- The comparison of the two algorithms of a certificate, sizes first. -/
theorem algorithms_agree {α β : Type} {R : α → β → Prop} {s t : ByteSpan} {b c : Bytes}
    (hs : Part m h s b) (ht : Part m h t c) (hpointer : s.data ≠ none) (hpointer' : t.data ≠ none)
    {f : Guarded Error α} {y : Except Error β} (hrest : Agrees R f y) :
    Agrees R
      (do
        refuseIf (s.size ≠ t.size) .verify
        let inner ← m.readBytes s 0 t.size
        let outer ← m.readBytes t 0 t.size
        refuseIf (inner ≠ outer) .verify
        f)
      (if b ≠ c then .error .verify else y) := by
  rw [hs.size_eq, ht.size_eq]
  by_cases hlen : b.length = c.length
  · rw [refuseIf_neg _ (not_not.2 hlen), pure_bind, readBytes_eq hs hpointer (by omega), pure_bind,
      readBytes_eq ht hpointer' (by omega), pure_bind]
    have hb : slice b 0 c.length = b := by rw [← hlen, slice, List.drop_zero, List.take_length]
    have hc : slice c 0 c.length = c := by rw [slice, List.drop_zero, List.take_length]
    rw [hb, hc]
    exact agrees_refuseIf Iff.rfl fun _ => hrest
  · have hne : b ≠ c := fun heq => hlen (by rw [heq])
    rw [refuseIf_pos _ hlen, refuse_bind, if_pos hne]
    exact agrees_refuse _

/-- `cert_signature` reads inside the certificate and agrees. -/
theorem certSignature_agrees (hs : Part m h s b) :
    Agrees (SignatureHolds m h) (m.certSignature s) (certSignature b) := by
  unfold Memory.certSignature Model.certSignature
  refine agrees_bind (readTlv_orRefuse_agrees hs (.inl rfl)) fun cert cert' ⟨hcert, _⟩ => ?_
  refine agrees_refuseIf (by rw [hcert.tag, hcert.next, hs.size_eq]) fun _ => ?_
  have hread : ∀ off, Agrees (TlvRead m h cert'.value off)
      (orRefuse (m.readTlv cert.value off) Error.badHandshake) (readTlv cert'.value off) :=
    fun off => readTlv_orRefuse_agrees hcert.value (.inr hcert.room)
  refine agrees_bind (hread 0) fun tbs tbs' ⟨htbs, _⟩ => ?_
  refine agrees_refuseIf (by rw [htbs.tag]) fun _ => ?_
  rw [htbs.next]
  refine agrees_bind (hread _) fun alg alg' ⟨halg, _⟩ => ?_
  refine agrees_refuseIf (by rw [halg.tag]) fun _ => ?_
  refine agrees_bind (readTlv_agrees htbs.value _ (.inl rfl)) fun f f' ⟨hf, _⟩ => ?_
  rw [hf.tag, hf.next]
  refine agrees_bind (readTlv_orRefuse_agrees htbs.value (.inr htbs.room))
    fun serial serial' ⟨hserial, _⟩ => ?_
  refine agrees_refuseIf (by rw [hserial.tag]) fun _ => ?_
  rw [hserial.next]
  refine agrees_bind (readTlv_orRefuse_agrees htbs.value (.inr htbs.room))
    fun tbsAlg tbsAlg' ⟨htbsAlg, _⟩ => ?_
  refine agrees_refuseIf (by rw [htbsAlg.tag]) fun _ => ?_
  refine algorithms_agree htbsAlg.full halg.full htbsAlg.fullPointer halg.fullPointer ?_
  obtain ⟨hx, hy⟩ | ⟨⟨oid, params⟩, ⟨oid', params'⟩, hx, hy, hoid, hparams⟩ :=
    agrees_asAnswer_iff.1 (parseAlgOid_agrees halg.full)
  · rw [hx, hy]
    exact agrees_refuse _
  rw [hx, hy, orRefuse_pure, pure_bind, halg.next]
  dsimp only at hoid hparams ⊢
  refine agrees_bind (hread _) fun sig sig' ⟨hsig, _⟩ => ?_
  have hsize := hsig.value.size_eq
  refine agrees_refuseIf_or (q := byteAt sig'.value 0 ≠ 0)
    (by rw [hsig.tag, hsig.next, hsize, hcert.value.size_eq]; tauto) fun hbit => ?_
  rw [readAt_eq hsig.value (by omega), pure_bind]
  refine agrees_refuseIf Iff.rfl fun _ => ?_
  rw [minus_eq (by omega), pure_bind, certSigKind_eq hoid hparams, pure_bind, hsize]
  have hdrop := hsig.value.sub (i := 1) (n := sig'.value.length - 1) (by omega)
  rw [slice, List.take_of_length_le (by rw [List.length_drop])] at hdrop
  exact agrees_pure ⟨htbs.full, hdrop, rfl⟩

/-! ## All parsers -/

/-- The names lie in the certificate. -/
theorem NamesHold.within {names : Option Bytes} (hnames : NamesHold m h s names) : s.Within h := by
  obtain ⟨rfl, -⟩ | ⟨b, -, hpart, -⟩ := hnames
  · exact within_null h
  · exact hpart.within

/-- Every span of the view lies in the certificate. -/
theorem ViewHolds.viewWithin {r : X509CertificateSpans} {r' : X509CertificateView}
    (hr : ViewHolds m h r r') : ViewWithin h r where
  der := hr.der.within
  tbsCertificate := hr.tbsCertificate.within
  issuerName := hr.issuerName.within
  subjectName := hr.subjectName.within
  subjectPublicKeyInfo := hr.subjectPublicKeyInfo.within
  subjectPublicKeyBits := hr.subjectPublicKeyBits.within
  subjectAltName := hr.subjectAltName.within

/-- The comparison with the host name reads inside the names. -/
theorem x509VerifyHostname_safe {r : X509CertificateSpans} {names : Option Bytes}
    (hr : NamesHold m h r.subjectAltName names) (hostname : CString) :
    Safe (fun _ => True) (m.x509VerifyHostname r hostname) := by
  have hr' : NamesHold m h r.subjectAltName
      ({ X509CertificateView.empty with subjectAltName := names }).subjectAltName := hr
  exact (x509VerifyHostname_agrees hr' hostname).safe fun _ _ _ => trivial

/-- A check reads nothing. -/
theorem check_safe (ok : Bool) : Safe (fun _ => True) (check ok) := by
  cases ok with
  | false => exact ⟨.error (), rfl, fun _ _ => trivial⟩
  | true => exact ⟨.ok (), rfl, fun _ _ => trivial⟩

/-- **The certificate parsers are memory-safe**, on every span of every memory. -/
theorem certificateParsers_safe (m : Memory) (s : m.Span) : CertificateParsersSafe m s.val := by
  have hself := Part.self s.property
  constructor
  case certificate =>
    exact (x509ParseCertificate_agrees hself).safe fun r r' hr =>
      ⟨hr.viewWithin, x509VerifyHostname_safe hr.subjectAltName⟩
  case signature =>
    exact (certSignature_agrees hself).safe fun r r' hr => ⟨hr.tbs.within, hr.sig.within⟩
  case pssParams =>
    rw [parsePssSha256Params_eq hself]
    exact check_safe _
  case hostname =>
    intro hroom v hv hostname
    by_cases hnull : s.val.data = none
    · have hnames : NamesHold m s.val v.subjectAltName none := by
        have hzero := size_eq_zero_of_null s.property hnull
        refine .inl ⟨?_, rfl⟩
        rw [hv, ByteSpan.null, ← hnull, ← hzero]
      exact x509VerifyHostname_safe hnames hostname
    · have hnames : NamesHold m s.val v.subjectAltName (some (s.val.bytes m)) := by
        rw [hv]
        rw [hself.size_eq] at hroom
        exact .inr ⟨_, rfl, hself, hnull, hroom⟩
      exact x509VerifyHostname_safe hnames hostname

end XboxTls.Analysis
