import XboxTls.Analysis.ByteStrings
import XboxTls.Programs.Prog
import XboxTls.Interface.CertificateParts

/-!
# What the certificate parser reads

`x509_parse_certificate` walks over the fields of the TBSCertificate and over the extensions
and changes its view as it goes.  An accepted certificate has the parts that DER gives it
(`x509ParseCertificate_parts`): the view has the fields before the extensions from them, and
the extensions are read into it one after the other (`ReadAll`).
-/

set_option autoImplicit false

namespace XboxTls.Analysis

open Programs XboxTls.Model XboxTls.Interface

/-! ## Validity and key -/

/-- Reading the Validity field sets the two times and the flag. -/
theorem parseValidity_ok {full : Bytes} {out out' : X509CertificateView}
    (h : parseValidity full out = .ok out') : ∃ times, validityOf full = .ok times ∧
      out' = { out with
        notBefore := times.1, notAfter := times.2, validityPresent := true } := by
  unfold validityOf
  unfold parseValidity at h ⊢
  simp only [except_bind_eq_ok] at h
  obtain ⟨seq, hseq, h⟩ := h
  rw [hseq, except_ok_bind]
  split at h
  · cases h
  · rename_i hwhole
    rw [if_neg hwhole]
    simp only [except_bind_eq_ok] at h
    obtain ⟨a, ha, b, hb, h⟩ := h
    rw [ha, except_ok_bind, hb, except_ok_bind]
    split at h
    · cases h
    · rename_i hend
      rw [if_neg hend]
      split at h
      · rename_i notBefore notAfter _ _
        split at h
        · cases h
        · rename_i horder
          cases h
          rw [if_neg horder]
          exact ⟨(notBefore, notAfter), rfl, rfl⟩
      · cases h

/-- Reading the public key sets its kind, its bytes and its bits. -/
theorem parseSpki_ok {full : Bytes} {out out' : X509CertificateView}
    (h : parseSpki full out = .ok out') : ∃ key, publicKeyOf full = .ok key ∧
      out' = { out with
        publicKeyKind := key.1, subjectPublicKeyInfo := full, subjectPublicKeyBits := key.2 } := by
  unfold publicKeyOf
  unfold parseSpki at h ⊢
  simp only [except_bind_eq_ok] at h
  obtain ⟨seq, hseq, h⟩ := h
  rw [hseq, except_ok_bind]
  split at h
  · cases h
  · rename_i hwhole
    rw [if_neg hwhole]
    simp only [except_bind_eq_ok] at h
    obtain ⟨alg, halg, h⟩ := h
    rw [halg, except_ok_bind]
    split at h
    · cases h
    · rename_i htag
      rw [if_neg htag]
      simp only [except_bind_eq_ok] at h
      obtain ⟨oid, hoid, h⟩ := h
      rw [hoid, except_ok_bind]
      split at h
      · cases h
      · rename_i hoidTag
        rw [if_neg hoidTag]
        simp only [except_bind_eq_ok] at h
        obtain ⟨kind, hkind, bits, hbits, h⟩ := h
        rw [hkind, except_ok_bind, hbits, except_ok_bind]
        split at h
        · cases h
        · rename_i hbitsOk
          cases h
          rw [if_neg hbitsOk]
          exact ⟨(kind, bits.value.drop 1), rfl, rfl⟩

/-! ## Elements -/

/-- An element that was read lies inside the string. -/
theorem sliceTlv_ok {b : Bytes} {off n len : ℕ} {t : DerTlv}
    (h : sliceTlv b off (off + 2 + n) len = .ok t) (hn : off + 2 + n ≤ b.length) :
    off + 2 + n + len ≤ b.length ∧
      t = ⟨byteAt b off, slice b off (2 + n + len), slice b (off + 2 + n) len,
        off + 2 + n + len⟩ := by
  unfold sliceTlv at h
  split at h
  · cases h
  · cases h
    have hhead : off + 2 + n - off = 2 + n := by omega
    rw [hhead]
    exact ⟨by omega, rfl⟩

/-- An element that lies inside the string is read. -/
theorem sliceTlv_of_le {b : Bytes} {off n len : ℕ} (h : off + 2 + n + len ≤ b.length) :
    sliceTlv b off (off + 2 + n) len = .ok ⟨byteAt b off, slice b off (2 + n + len),
      slice b (off + 2 + n) len, off + 2 + n + len⟩ := by
  have hhead : off + 2 + n - off = 2 + n := by omega
  unfold sliceTlv
  rw [if_neg (by omega), hhead]

/-- The form of an element: a tag, a length with `n` more bytes, and the value.  Reading looks
at nothing else, so the same bytes are read in the same way elsewhere. -/
theorem derTlv_ok {b : Bytes} {off : ℕ} {t : DerTlv} (h : derTlv b off = .ok t) :
    ∃ n len, off + 2 + n + len ≤ b.length ∧
      t = ⟨byteAt b off, slice b off (2 + n + len), slice b (off + 2 + n) len,
        off + 2 + n + len⟩ ∧
      ∀ (c : Bytes) (i : ℕ), i + 2 + n + len ≤ c.length →
        slice c i (2 + n + len) = slice b off (2 + n + len) →
        derTlv c i = .ok ⟨byteAt c i, slice c i (2 + n + len), slice c (i + 2 + n) len,
          i + 2 + n + len⟩ := by
  unfold derTlv readTlv at h
  split at h
  · cases h
  split at h
  · cases h
  rename_i hoff hoff'
  dsimp only at h
  by_cases hshort : (byteAt b (off + 1)).toNat < 0x80
  · rw [if_pos hshort] at h
    obtain ⟨hend, ht⟩ := sliceTlv_ok (n := 0) h (by omega)
    refine ⟨0, _, hend, ht, ?_⟩
    intro c i hc hsame
    have hbyte := congrArg (fun s => byteAt s 1) hsame
    rw [byteAt_slice (by omega), byteAt_slice (by omega)] at hbyte
    unfold derTlv readTlv
    rw [if_neg (by omega), if_neg (by omega), hbyte, if_pos hshort]
    exact sliceTlv_of_le hc
  · rw [if_neg hshort] at h
    split at h
    · cases h
    rename_i hn
    push Not at hn
    split at h
    · cases h
    rename_i hzero
    split at h
    · cases h
    rename_i hbig
    obtain ⟨hend, ht⟩ := sliceTlv_ok h (by omega)
    refine ⟨_, _, hend, ht, ?_⟩
    intro c i hc hsame
    have hbyte := congrArg (fun s => byteAt s 1) hsame
    have hfirst := congrArg (fun s => byteAt s 2) hsame
    have hlength := congrArg (fun s => slice s 2 ((byteAt b (off + 1)).toNat - 0x80)) hsame
    rw [byteAt_slice (by omega), byteAt_slice (by omega)] at hbyte hfirst
    rw [slice_slice (by omega), slice_slice (by omega)] at hlength
    unfold derTlv readTlv
    rw [if_neg (by omega), if_neg (by omega), hbyte, if_neg hshort, if_neg, hfirst, if_neg hzero,
      hlength, if_neg hbig]
    · exact sliceTlv_of_le hc
    · push Not
      exact ⟨hn.1, hn.2.1, by omega⟩

/-- An element that is read again, on its own. -/
theorem derTlv_full {b : Bytes} {off : ℕ} {t : DerTlv} (h : derTlv b off = .ok t) :
    derTlv t.full 0 = .ok ⟨t.tag, t.full, t.value, t.full.length⟩ := by
  obtain ⟨n, len, hend, rfl, hagain⟩ := derTlv_ok h
  dsimp only
  have hlen : (slice b off (2 + n + len)).length = 2 + n + len := slice_length (by omega)
  have hwhole : slice (slice b off (2 + n + len)) 0 (2 + n + len) = slice b off (2 + n + len) := by
    rw [slice_slice (by omega)]
    rfl
  have hread := hagain (slice b off (2 + n + len)) 0 (by omega) hwhole
  rw [hread, hwhole, byteAt_slice (by omega), slice_slice (by omega), hlen]
  have hzero : 0 + 2 + n + len = 2 + n + len := by omega
  have hvalue : off + (0 + 2 + n) = off + 2 + n := by omega
  rw [hzero, hvalue]
  rfl

/-- Where the reader goes on. -/
theorem derTlv_next {b : Bytes} {off : ℕ} {t : DerTlv} (h : derTlv b off = .ok t) :
    off + 2 ≤ t.next ∧ t.next ≤ b.length := by
  obtain ⟨n, len, hend, rfl, -⟩ := derTlv_ok h
  dsimp only
  omega

/-! ## One extension -/

/-- A whole sequence has a content. -/
theorem wholeSequence_ok {v : Bytes} {seq : DerTlv} (h : wholeSequence v = .ok seq) :
    sequenceContent v = .ok seq.value := by
  unfold wholeSequence at h
  unfold sequenceContent
  simp only [except_bind_eq_ok] at h
  obtain ⟨t, ht, h⟩ := h
  rw [ht, except_ok_bind]
  split at h
  · cases h
  · rename_i hwhole
    cases h
    push Not at hwhole
    rw [if_pos hwhole]

/-- The next element of a list of them. -/
theorem elementsFrom_step {b : Bytes} {fuel off : ℕ} {t : DerTlv} {rest : List DerTlv}
    (hoff : off < b.length) (ht : derTlv b off = .ok t)
    (hrest : elementsFrom b fuel t.next = .ok rest) :
    elementsFrom b (fuel + 1) off = .ok (t :: rest) := by
  unfold elementsFrom
  rw [if_pos hoff, ht, except_ok_bind, hrest, except_ok_bind]
  rfl

/-- There are no elements behind the end. -/
theorem elementsFrom_end (b : Bytes) (fuel : ℕ) {off : ℕ} (h : b.length ≤ off) :
    elementsFrom b fuel off = .ok [] := by
  cases fuel with
  | zero => rfl
  | succ fuel =>
    unfold elementsFrom
    rw [if_neg (by omega)]

/-- One element and nothing behind it. -/
theorem elements_one {b : Bytes} {t : DerTlv} (h : derTlv b 0 = .ok t) (hend : t.next = b.length) :
    elements b = .ok [t] := by
  have hnext := derTlv_next h
  obtain ⟨n, hn⟩ : ∃ n, b.length = n + 1 := ⟨b.length - 1, by omega⟩
  unfold elements
  rw [hn]
  exact elementsFrom_step (by omega) h (elementsFrom_end b n (by omega))

/-- Two elements and nothing behind them. -/
theorem elements_two {b : Bytes} {t u : DerTlv} (h : derTlv b 0 = .ok t)
    (hu : derTlv b t.next = .ok u) (hend : u.next = b.length) : elements b = .ok [t, u] := by
  have hnext := derTlv_next h
  have hnext' := derTlv_next hu
  obtain ⟨n, hn⟩ : ∃ n, b.length = n + 1 + 1 := ⟨b.length - 2, by omega⟩
  unfold elements
  rw [hn]
  exact elementsFrom_step (by omega) h
    (elementsFrom_step (by omega) hu (elementsFrom_end b n (by omega)))

/-- Three elements and nothing behind them. -/
theorem elements_three {b : Bytes} {t u v : DerTlv} (h : derTlv b 0 = .ok t)
    (hu : derTlv b t.next = .ok u) (hv : derTlv b u.next = .ok v) (hend : v.next = b.length) :
    elements b = .ok [t, u, v] := by
  have hnext := derTlv_next h
  have hnext' := derTlv_next hu
  have hnext'' := derTlv_next hv
  obtain ⟨n, hn⟩ : ∃ n, b.length = n + 1 + 1 + 1 := ⟨b.length - 3, by omega⟩
  unfold elements
  rw [hn]
  exact elementsFrom_step (by omega) h (elementsFrom_step (by omega) hu
    (elementsFrom_step (by omega) hv (elementsFrom_end b n (by omega))))

/-! ## The values -/

/-- A path length that passes the code's checks is one. -/
theorem isPathLen_of_not {pl : DerTlv} {n : ℕ} (h : ¬ (pl.tag ≠ 0x02 ∨ pl.value.length = 0 ∨
    pl.value.length > 4 ∨ pl.next ≠ n ∨ (byteAt pl.value 0).toNat ≥ 0x80)) :
    isPathLen pl = true ∧ pl.next = n := by
  push Not at h
  obtain ⟨htag, hpos, hfour, hend, hbyte⟩ := h
  unfold isPathLen
  rw [decide_eq_true_iff]
  exact ⟨⟨htag, by omega, by omega, by omega⟩, hend⟩

/-- BasicConstraints are read as they are encoded; the path length of an earlier reading
stays when there is none. -/
theorem parseBasicConstraints_ok {v : Bytes} {out out' : X509CertificateView}
    (h : parseBasicConstraints v out = .ok out') : ∃ bc, basicConstraintsOf v = .ok bc ∧
      out' = { out with
        basicConstraintsPresent := true
        isCa := bc.1
        pathLenPresent := bc.2.isSome || out.pathLenPresent
        pathLenConstraint := bc.2.getD out.pathLenConstraint } := by
  unfold parseBasicConstraints at h
  simp only [except_bind_eq_ok] at h
  obtain ⟨bc, hbc, ⟨isCa, bp⟩, hflag, h⟩ := h
  unfold basicConstraintsOf
  rw [wholeSequence_ok hbc, except_ok_bind]
  dsimp only at h
  unfold parseCaFlag at hflag
  by_cases hempty : 0 < bc.value.length
  · rw [if_pos hempty] at hflag
    simp only [except_bind_eq_ok] at hflag
    obtain ⟨ca, hca, hflag⟩ := hflag
    by_cases htag : ca.tag = 0x01
    · rw [if_pos htag] at hflag
      split at hflag
      · cases hflag
      · rename_i hone
        cases hflag
        have hbool : isBoolean ca = true := by
          unfold isBoolean
          rw [decide_eq_true_iff]
          exact ⟨htag, by omega⟩
        have hnext := derTlv_next hca
        by_cases hmore : ca.next < bc.value.length
        · rw [if_pos hmore] at h
          simp only [except_bind_eq_ok] at h
          obtain ⟨pl, hpl, h⟩ := h
          split at h
          · cases h
          · rename_i hnot
            obtain ⟨hpath, hend⟩ := isPathLen_of_not hnot
            cases h
            rw [elements_two hca hpl hend, except_ok_bind]
            dsimp only
            rw [if_pos ⟨hbool, hpath⟩]
            exact ⟨_, rfl, rfl⟩
        · rw [if_neg hmore] at h
          cases h
          rw [elements_one hca (by omega), except_ok_bind]
          dsimp only
          rw [if_pos hbool]
          exact ⟨_, rfl, rfl⟩
    · rw [if_neg htag] at hflag
      cases hflag
      rw [if_pos hempty] at h
      simp only [except_bind_eq_ok] at h
      obtain ⟨pl, hpl, h⟩ := h
      split at h
      · cases h
      · rename_i hnot
        obtain ⟨hpath, hend⟩ := isPathLen_of_not hnot
        have hnbool : isBoolean pl = false := by
          unfold isBoolean
          rw [hca] at hpl
          cases hpl
          simp [htag]
        cases h
        rw [elements_one hpl hend, except_ok_bind]
        dsimp only
        rw [hnbool, if_neg (by decide), if_pos hpath]
        exact ⟨_, rfl, rfl⟩
  · rw [if_neg hempty] at hflag
    cases hflag
    rw [if_neg hempty] at h
    cases h
    have hnil : elements bc.value = .ok [] := elementsFrom_end bc.value _ (by omega)
    rw [hnil, except_ok_bind]
    exact ⟨_, rfl, rfl⟩

/-- KeyUsage that is accepted sets the three fields. -/
theorem parseKeyUsage_ok {v : Bytes} {out out' : X509CertificateView}
    (h : parseKeyUsage v out = .ok out') : ∃ ku, keyUsageOf v = .ok ku ∧
      out' = { out with
        keyUsagePresent := true, keyUsageDigitalSignature := ku.1,
        keyUsageKeyCertSign := ku.2 } := by
  unfold parseKeyUsage at h
  unfold keyUsageOf
  simp only [except_bind_eq_ok] at h
  obtain ⟨ku, hku, h⟩ := h
  rw [hku, except_ok_bind]
  split at h
  · cases h
  · rename_i hnot
    push Not at hnot
    obtain ⟨htag, hend, hlen, hbits⟩ := hnot
    cases h
    rw [if_pos ⟨htag, hend, by omega, by omega⟩]
    exact ⟨_, rfl, rfl⟩

/-- The purposes that are read, one element each. -/
theorem parsePurposes_ok {es : Bytes} {fuel ep : ℕ} {out out' : X509CertificateView}
    (h : parsePurposes es fuel ep out = .ok out') : ∃ ts, elementsFrom es fuel ep = .ok ts ∧
      (∀ t ∈ ts, t.tag = 0x06) ∧
      out' = { out with
        ekuServerAuth := out.ekuServerAuth || ts.any fun t => t.value = oidServerAuth } := by
  induction fuel generalizing ep out with
  | zero =>
    cases h
    exact ⟨[], rfl, by simp, by simp⟩
  | succ fuel ih =>
    unfold parsePurposes at h
    by_cases hmore : ep < es.length
    · rw [if_pos hmore] at h
      simp only [except_bind_eq_ok] at h
      obtain ⟨eo, heo, h⟩ := h
      split at h
      · cases h
      · rename_i htag
        obtain ⟨ts, hts, htags, hout⟩ := ih h
        refine ⟨eo :: ts, elementsFrom_step hmore heo hts, ?_, ?_⟩
        · intro t ht
          rcases List.mem_cons.mp ht with rfl | ht
          · exact not_not.mp htag
          · exact htags t ht
        · rw [hout]
          unfold oidEq
          by_cases hauth : eo.value = oidServerAuth
          · simp [hauth]
          · simp [hauth]
    · rw [if_neg hmore] at h
      cases h
      exact ⟨[], elementsFrom_end es _ (by omega), by simp, by simp⟩

/-- **One extension.**  It changes the view as its value says, and is not a critical one that
the client does not understand. -/
theorem parseExtensionValue_ok {e : CertExtension} {out out' : X509CertificateView} {known : Bool}
    (h : parseExtensionValue e.oid e.value out = .ok (known, out'))
    (hcritical : ¬ (e.critical = true ∧ known = false)) : ReadOne e out out' := by
  unfold parseExtensionValue oidEq at h
  by_cases hsan : e.oid = oidSan
  · rw [if_pos (by simpa using hsan)] at h
    simp only [except_bind_eq_ok] at h
    obtain ⟨names, hnames, h⟩ := h
    cases h
    exact .subjectAltName hsan (wholeSequence_ok hnames)
  rw [if_neg (by simpa using hsan)] at h
  by_cases hbc : e.oid = oidBc
  · rw [if_pos (by simpa using hbc)] at h
    simp only [except_bind_eq_ok] at h
    obtain ⟨out₁, h₁, h⟩ := h
    cases h
    obtain ⟨bc, hvalue, rfl⟩ := parseBasicConstraints_ok h₁
    exact .basicConstraints hbc hvalue
  rw [if_neg (by simpa using hbc)] at h
  by_cases hku : e.oid = oidKu
  · rw [if_pos (by simpa using hku)] at h
    simp only [except_bind_eq_ok] at h
    obtain ⟨out₁, h₁, h⟩ := h
    cases h
    obtain ⟨ku, hvalue, rfl⟩ := parseKeyUsage_ok h₁
    exact .keyUsage hku hvalue
  rw [if_neg (by simpa using hku)] at h
  by_cases heku : e.oid = oidEku
  · rw [if_pos (by simpa using heku)] at h
    simp only [except_bind_eq_ok] at h
    obtain ⟨es, hes, out₁, h₁, h⟩ := h
    cases h
    obtain ⟨ts, hts, htags, rfl⟩ := parsePurposes_ok h₁
    have hvalue : serverAuthOf e.value = .ok (ts.any fun t => t.value = oidServerAuth) := by
      have hall : (ts.all fun t => t.tag = 0x06) = true := by
        rw [List.all_eq_true]
        intro t ht
        simpa using htags t ht
      have hts' : elements es.value = .ok ts := hts
      unfold serverAuthOf
      rw [wholeSequence_ok hes, except_ok_bind, hts', except_ok_bind, if_pos hall]
    exact .extendedKeyUsage heku hvalue
  rw [if_neg (by simpa using heku)] at h
  cases h
  refine .other ?_ ?_
  · unfold knownOids
    simp [hsan, hbc, hku, heku]
  · by_contra hcrit
    exact hcritical ⟨by simpa using hcrit, rfl⟩

/-- Extensions that are read one group after the other. -/
theorem readAll_append {es fs : List CertExtension} {out out₁ out' : X509CertificateView}
    (h : ReadAll es out out₁) (h' : ReadAll fs out₁ out') : ReadAll (es ++ fs) out out' := by
  induction h with
  | nil => exact h'
  | cons hfirst _ ih => exact .cons hfirst (ih h')

/-! ## The loops -/

/-- The optional flag and the value behind it. -/
theorem certExtension_of_critical {ext oid v : DerTlv} {critical : Bool}
    (htag : ext.tag = 0x30) (hoid : derTlv ext.value 0 = .ok oid) (hoidTag : oid.tag = 0x06)
    (hcritical : parseCritical ext.value oid.next = .ok (critical, v)) (hv : v.tag = 0x04)
    (hend : v.next = ext.value.length) :
    certExtension ext = .ok ⟨oid.value, critical, v.value⟩ := by
  unfold parseCritical at hcritical
  simp only [except_bind_eq_ok] at hcritical
  obtain ⟨c, hc, hcritical⟩ := hcritical
  unfold certExtension
  rw [if_neg (by rw [htag]; decide)]
  by_cases hbool : c.tag = 0x01
  · rw [if_pos hbool] at hcritical
    split at hcritical
    · cases hcritical
    · rename_i hone
      simp only [except_bind_eq_ok] at hcritical
      obtain ⟨w, hw, hcritical⟩ := hcritical
      cases hcritical
      rw [elements_three hoid hc hw hend, except_ok_bind]
      dsimp only
      rw [if_pos ⟨hoidTag, hbool, not_not.mp hone, hv⟩]
  · rw [if_neg hbool] at hcritical
    cases hcritical
    rw [elements_two hoid hc hend, except_ok_bind]
    dsimp only
    rw [if_pos ⟨hoidTag, hv⟩]

/-- The extensions of a list that was read to its end. -/
theorem parseExtensionsLoop_ok {seq : Bytes} {fuel p : ℕ} {out out' : X509CertificateView}
    (h : parseExtensionsLoop seq fuel p out = .ok out') :
    ∃ ts es, elementsFrom seq fuel p = .ok ts ∧ ts.mapM certExtension = .ok es ∧
      ReadAll es out out' := by
  induction fuel generalizing p out with
  | zero =>
    cases h
    exact ⟨[], [], rfl, rfl, .nil _⟩
  | succ fuel ih =>
    unfold parseExtensionsLoop at h
    by_cases hmore : p < seq.length
    · rw [if_pos hmore] at h
      simp only [except_bind_eq_ok] at h
      obtain ⟨ext, hext, h⟩ := h
      split at h
      · cases h
      rename_i htag
      simp only [except_bind_eq_ok] at h
      obtain ⟨oid, hoid, h⟩ := h
      split at h
      · cases h
      rename_i hoidTag
      simp only [except_bind_eq_ok] at h
      obtain ⟨⟨critical, v⟩, hcritical, h⟩ := h
      dsimp only at h
      split at h
      · cases h
      rename_i hvalue
      push Not at hvalue
      simp only [except_bind_eq_ok] at h
      obtain ⟨⟨known, out₁⟩, h₁, h⟩ := h
      dsimp only at h
      split at h
      · cases h
      rename_i hknown
      have hread := certExtension_of_critical (not_not.mp htag) hoid (not_not.mp hoidTag) hcritical
        hvalue.1 hvalue.2
      have hone : ReadOne ⟨oid.value, critical, v.value⟩ out out₁ :=
        parseExtensionValue_ok h₁ hknown
      obtain ⟨ts, es, hts, hes, hall⟩ := ih h
      refine ⟨ext :: ts, _ :: es, elementsFrom_step hmore hext hts, ?_, .cons hone hall⟩
      rw [List.mapM_cons, hread, except_ok_bind, hes, except_ok_bind]
      rfl
    · rw [if_neg hmore] at h
      cases h
      exact ⟨[], [], elementsFrom_end seq _ (by omega), rfl, .nil _⟩

/-- A [3] block that is read. -/
theorem parseExtensions_ok {b : Bytes} {off : ℕ} {f : DerTlv} {out out' : X509CertificateView}
    (hf : derTlv b off = .ok f) (h : parseExtensions f.full out = .ok out') :
    ∃ es, blockExtensions f = .ok es ∧ ReadAll es out out' := by
  unfold parseExtensions at h
  rw [derTlv_full hf, except_ok_bind] at h
  split at h
  · cases h
  simp only [except_bind_eq_ok] at h
  obtain ⟨seq, hseq, h⟩ := h
  obtain ⟨ts, es, hts, hes, hall⟩ := parseExtensionsLoop_ok h
  refine ⟨es, ?_, hall⟩
  have helements : elements seq.value = .ok ts := hts
  unfold blockExtensions
  rw [wholeSequence_ok hseq, except_ok_bind, helements, except_ok_bind, hes]

/-- The [3] blocks among the fields behind the public key. -/
theorem parseOptionalFields_ok {tbs : Bytes} {fuel q : ℕ} {out out' : X509CertificateView}
    (h : parseOptionalFields tbs fuel q out = .ok out') :
    ∃ ts blocks, elementsFrom tbs fuel q = .ok ts ∧
      (ts.filter fun f => f.tag = 0xA3).mapM blockExtensions = .ok blocks ∧
      ReadAll blocks.flatten out out' := by
  induction fuel generalizing q out with
  | zero =>
    cases h
    exact ⟨[], [], rfl, rfl, .nil _⟩
  | succ fuel ih =>
    unfold parseOptionalFields at h
    by_cases hmore : q < tbs.length
    · rw [if_pos hmore] at h
      simp only [except_bind_eq_ok] at h
      obtain ⟨f, hf, h⟩ := h
      by_cases htag : f.tag = 0xA3
      · rw [if_pos htag] at h
        simp only [except_bind_eq_ok] at h
        obtain ⟨out₁, h₁, h⟩ := h
        obtain ⟨es, hes, hfirst⟩ := parseExtensions_ok hf h₁
        obtain ⟨ts, blocks, hts, hblocks, hall⟩ := ih h
        refine ⟨f :: ts, es :: blocks, elementsFrom_step hmore hf hts, ?_, ?_⟩
        · rw [List.filter_cons_of_pos (by simpa using htag), List.mapM_cons, hes, except_ok_bind,
            hblocks, except_ok_bind]
          rfl
        · rw [List.flatten_cons]
          exact readAll_append hfirst hall
      · rw [if_neg htag] at h
        obtain ⟨ts, blocks, hts, hblocks, hall⟩ := ih h
        refine ⟨f :: ts, blocks, elementsFrom_step hmore hf hts, ?_, hall⟩
        rw [List.filter_cons_of_neg (by simpa using htag)]
        exact hblocks
    · rw [if_neg hmore] at h
      cases h
      exact ⟨[], [], elementsFrom_end tbs _ (by omega), rfl, .nil _⟩

/-! ## The whole certificate -/

/-- **Every accepted certificate has its parts.** -/
theorem x509ParseCertificate_parts {der : Bytes} {v : X509CertificateView}
    (h : x509ParseCertificate der = .ok v) :
    ∃ parts blocks times key, AcceptedAs der v parts blocks times key := by
  unfold x509ParseCertificate at h
  split at h
  · cases h
  simp only [except_bind_eq_ok] at h
  obtain ⟨cert, hcert, h⟩ := h
  split at h
  · cases h
  simp only [except_bind_eq_ok] at h
  obtain ⟨tbs, htbs, h⟩ := h
  split at h
  · cases h
  unfold parseTbs at h
  simp only [except_bind_eq_ok] at h
  obtain ⟨first, hfirst, serial, hserial, signature, hsignature, issuer, hissuer, validity,
    hvalidity, out, hout, subject, hsubject, spki, hspki, h⟩ := h
  split at h
  · cases h
  simp only [except_bind_eq_ok] at h
  obtain ⟨out₁, hout₁, h⟩ := h
  obtain ⟨times, htimes, rfl⟩ := parseValidity_ok hout
  obtain ⟨key, hkey, rfl⟩ := parseSpki_ok hout₁
  obtain ⟨ts, blocks, hts, hblocks, hall⟩ := parseOptionalFields_ok h
  refine ⟨⟨cert, tbs, serial, signature, issuer, validity, subject, spki, ts⟩, blocks, times, key,
    ?_, hblocks, htimes, hkey, hall⟩
  unfold certificateParts
  rw [hcert, except_ok_bind, htbs, except_ok_bind, hfirst, except_ok_bind, hserial, except_ok_bind,
    hsignature, except_ok_bind, hissuer, except_ok_bind, hvalidity, except_ok_bind, hsubject,
    except_ok_bind, hspki, except_ok_bind, hts, except_ok_bind]
  rfl

/-- The view without what extensions set. -/
def withoutExtensions (v : X509CertificateView) : X509CertificateView :=
  { v with
    subjectAltName := none
    basicConstraintsPresent := false
    isCa := false
    pathLenPresent := false
    pathLenConstraint := 0
    keyUsagePresent := false
    keyUsageDigitalSignature := false
    keyUsageKeyCertSign := false
    extendedKeyUsagePresent := false
    ekuServerAuth := false }

/-- Extensions change what they set, and nothing else. -/
theorem withoutExtensions_of_readAll {es : List CertExtension} {out out' : X509CertificateView}
    (h : ReadAll es out out') : withoutExtensions out' = withoutExtensions out := by
  induction h with
  | nil => rfl
  | cons hfirst _ ih =>
    rw [ih]
    cases hfirst <;> rfl

/-- Every accepted certificate has its validity read. -/
theorem x509ParseCertificate_validityPresent {der : Bytes} {v : X509CertificateView}
    (h : x509ParseCertificate der = .ok v) : v.validityPresent = true := by
  obtain ⟨parts, blocks, times, key, haccepted⟩ := x509ParseCertificate_parts h
  have hsame := withoutExtensions_of_readAll haccepted.readAll
  exact congrArg X509CertificateView.validityPresent hsame

end XboxTls.Analysis
