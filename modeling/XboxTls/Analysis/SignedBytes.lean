import XboxTls.Analysis.CertificateExtensions
import XboxTls.Analysis.DerReaders

/-!
# Both walks over a certificate see the same bytes

Since the readers do the same (`readersAgree`), the walk of `cert_signature` passes through the
same elements as the one of `x509_parse_certificate`.
-/

set_option autoImplicit false

namespace XboxTls.Analysis

open Programs XboxTls.Model XboxTls.Interface

/-! ## The two walks -/

/-- A value ends its element. -/
theorem value_suffix {b : Bytes} {off : ℕ} {t : DerTlv} (h : derTlv b off = .ok t) :
    t.value <:+ t.full := by
  obtain ⟨n, len, hend, rfl, -⟩ := derTlv_ok h
  have hall : (slice b off (2 + n + len)).length = 2 + n + len := slice_length (by omega)
  have hvalue : slice b (off + 2 + n) len = (slice b off (2 + n + len)).drop (2 + n) := by
    have hpart := slice_slice (b := b) (i := off) (n := 2 + n + len) (j := 2 + n) (m := len)
      (le_refl _)
    rw [Nat.add_assoc off 2 n, ← hpart]
    unfold slice
    rw [List.take_of_length_le]
    rw [List.length_drop, List.length_take, List.length_drop]
    omega
  show slice b (off + 2 + n) len <:+ slice b off (2 + n + len)
  rw [hvalue]
  exact List.drop_suffix _ _

/-- Every element of a list of elements is read where the one before it ends. -/
theorem mem_elementsFrom {b : Bytes} {fuel off : ℕ} {ts : List DerTlv}
    (h : elementsFrom b fuel off = .ok ts) : ∀ t ∈ ts, ∃ q, derTlv b q = .ok t := by
  induction fuel generalizing off ts with
  | zero =>
    cases h
    intro t ht
    cases ht
  | succ fuel ih =>
    unfold elementsFrom at h
    split at h
    · simp only [except_bind_eq_ok] at h
      obtain ⟨u, hu, rest, hrest, h⟩ := h
      cases h
      intro t ht
      rcases List.mem_cons.mp ht with rfl | hrest'
      · exact ⟨off, hu⟩
      · exact ih hrest t hrest'
    · cases h
      intro t ht
      cases ht

/-- Where the fields of a TBSCertificate are read. -/
structure FieldsRead (parts : CertificateParts) : Prop where
  serial : ReadInside parts.tbs parts.serial
  signature : derTlv parts.tbs.value parts.serial.next = .ok parts.signature
  issuer : derTlv parts.tbs.value parts.signature.next = .ok parts.issuer
  validity : derTlv parts.tbs.value parts.issuer.next = .ok parts.validity
  subject : derTlv parts.tbs.value parts.validity.next = .ok parts.subject
  spki : derTlv parts.tbs.value parts.subject.next = .ok parts.spki
  trailing : ∀ t ∈ parts.trailing, ReadInside parts.tbs t

/-- The parser's walk. -/
theorem certificateParts_ok {der : Bytes} {parts : CertificateParts}
    (h : certificateParts der = .ok parts) :
    derTlv der 0 = .ok parts.cert ∧ derTlv parts.cert.value 0 = .ok parts.tbs ∧
      (∃ first, derTlv parts.tbs.value 0 = .ok first ∧
        derTlv parts.tbs.value (if first.tag = 0xA0 then first.next else 0) = .ok parts.serial) ∧
      FieldsRead parts := by
  unfold certificateParts at h
  simp only [except_bind_eq_ok] at h
  obtain ⟨cert, hcert, tbs, htbs, first, hfirst, serial, hserial, signature, hsignature, issuer,
    hissuer, validity, hvalidity, subject, hsubject, spki, hspki, trailing, htrailing, h⟩ := h
  cases h
  have hfields : FieldsRead
      ⟨cert, tbs, serial, signature, issuer, validity, subject, spki, trailing⟩ :=
    { serial := ⟨_, hserial⟩
      signature := hsignature
      issuer := hissuer
      validity := hvalidity
      subject := hsubject
      spki := hspki
      trailing := mem_elementsFrom htrailing }
  exact ⟨hcert, htbs, ⟨first, hfirst, hserial⟩, hfields⟩

/-- Every field is read from inside the TBSCertificate. -/
theorem FieldsRead.inside {parts : CertificateParts} (h : FieldsRead parts) :
    ∀ t ∈ [parts.serial, parts.signature, parts.issuer, parts.validity, parts.subject,
      parts.spki] ++ parts.trailing, ReadInside parts.tbs t := by
  intro t ht
  rcases List.mem_append.mp ht with hfield | htrailing
  · simp only [List.mem_cons, List.not_mem_nil, or_false] at hfield
    rcases hfield with rfl | rfl | rfl | rfl | rfl | rfl
    · exact h.serial
    · exact ⟨_, h.signature⟩
    · exact ⟨_, h.issuer⟩
    · exact ⟨_, h.validity⟩
    · exact ⟨_, h.subject⟩
    · exact ⟨_, h.spki⟩
  · exact h.trailing t htrailing

/-- The verifier's walk. -/
theorem certSignature_ok {der : Bytes} {cs : CertSig} (h : certSignature der = .ok cs) :
    ∃ cert tbs outer first serial signature,
      derTlv der 0 = .ok cert ∧ derTlv cert.value 0 = .ok tbs ∧
      derTlv cert.value tbs.next = .ok outer ∧ derTlv tbs.value 0 = .ok first ∧
      derTlv tbs.value (if first.tag = 0xA0 then first.next else 0) = .ok serial ∧
      derTlv tbs.value serial.next = .ok signature ∧ signature.full = outer.full ∧
      cs.tbs = tbs.full := by
  unfold certSignature at h
  simp only [except_bind_eq_ok] at h
  obtain ⟨cert, hcert, h⟩ := h
  split at h
  · cases h
  simp only [except_bind_eq_ok] at h
  obtain ⟨tbs, htbs, h⟩ := h
  split at h
  · cases h
  simp only [except_bind_eq_ok] at h
  obtain ⟨outer, houter, h⟩ := h
  split at h
  · cases h
  simp only [except_bind_eq_ok] at h
  obtain ⟨first, hfirst, serial, hserial, h⟩ := h
  split at h
  · cases h
  simp only [except_bind_eq_ok] at h
  obtain ⟨signature, hsignature, h⟩ := h
  split at h
  · cases h
  split at h
  · cases h
  rename_i hsame
  split at h
  · cases h
  simp only [except_bind_eq_ok] at h
  obtain ⟨sig, -, h⟩ := h
  split at h
  · cases h
  cases h
  exact ⟨cert, tbs, outer, first, serial, signature, hcert, htbs, houter, hfirst, hserial,
    hsignature, not_not.mp hsame, rfl⟩

/-- **The signed bytes are the parsed bytes.** -/
theorem signed_is_parsed {der : Bytes} {v : X509CertificateView} {cs : CertSig}
    (hparsed : x509ParseCertificate der = .ok v) (hsigned : certSignature der = .ok cs) :
    (∃ parts blocks times key outer, SignedIsParsed der v cs parts blocks times key outer) ∧
      ReadersAgree := by
  refine ⟨?_, readersAgree⟩
  obtain ⟨parts, blocks, times, key, haccepted⟩ := x509ParseCertificate_parts hparsed
  obtain ⟨hcert, htbs, ⟨first, hfirst, hserial⟩, hfields⟩ := certificateParts_ok haccepted.hasParts
  obtain ⟨cert', tbs', outer, first', serial', signature', hcert', htbs', houter, hfirst',
    hserial', hsignature', hsame, hcs⟩ := certSignature_ok hsigned
  -- Both walks read at the same offsets.
  obtain rfl := Except.ok.inj (hcert.symm.trans hcert')
  obtain rfl := Except.ok.inj (htbs.symm.trans htbs')
  obtain rfl := Except.ok.inj (hfirst.symm.trans hfirst')
  obtain rfl := Except.ok.inj (hserial.symm.trans hserial')
  obtain rfl := Except.ok.inj (hfields.signature.symm.trans hsignature')
  have hview := withoutExtensions_of_readAll haccepted.readAll
  exact ⟨parts, blocks, times, key, outer,
    { accepted := haccepted
      cert := hcert
      tbs := htbs
      signed := hcs
      viewed := congrArg X509CertificateView.tbsCertificate hview
      content := value_suffix htbs
      inside := hfields.inside
      issuer := congrArg X509CertificateView.issuerName hview
      subject := congrArg X509CertificateView.subjectName hview
      notBefore := congrArg X509CertificateView.notBefore hview
      notAfter := congrArg X509CertificateView.notAfter hview
      publicKeyInfo := congrArg X509CertificateView.subjectPublicKeyInfo hview
      publicKeyKind := congrArg X509CertificateView.publicKeyKind hview
      publicKeyBits := congrArg X509CertificateView.subjectPublicKeyBits hview
      innerAlgorithm := hfields.signature
      outerAlgorithm := houter
      sameAlgorithm := hsame }⟩

/-- A certificate that both walks accept. -/
theorem signed_is_parsed_once : ∃ v cs,
    x509ParseCertificate onceCertificate = .ok v ∧ certSignature onceCertificate = .ok cs ∧
    (∃ parts blocks times key outer,
      SignedIsParsed onceCertificate v cs parts blocks times key outer) := by
  obtain ⟨v, hv⟩ := exists_view onceCertificate (by decide +kernel)
  have hisOk : (certSignature onceCertificate).isOk = true := by decide +kernel
  obtain ⟨cs, hcs⟩ : ∃ cs, certSignature onceCertificate = .ok cs := by
    cases hrun : certSignature onceCertificate with
    | error e => rw [hrun] at hisOk; cases hisOk
    | ok cs => exact ⟨cs, rfl⟩
  exact ⟨v, cs, hv, hcs, (signed_is_parsed hv hcs).1⟩

end XboxTls.Analysis
