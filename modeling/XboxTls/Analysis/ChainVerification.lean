import XboxTls.Analysis.CertificateView
import XboxTls.Interface.PathValidation

/-!
# `verify_chain` decides the path rule

The three places where `verify_chain` checks a pair of certificates (the loop over the
chain, the anchor that is the chain's last entry, the anchor above it) agree with the one
rule of `XboxTls.Interface.PathValidation`.  The path lengths they compare are the three
forms of one count: under a valid path every certificate above the leaf is a CA
(`ValidFrom.countP_eq`), so the CA certificates between the leaf and an issuer are as many
as the places between them.
-/

set_option autoImplicit false

namespace XboxTls.Analysis

open Programs Programs.Prog XboxTls.Model XboxTls.Interface

variable {P : Crypto} {V : Type} {clock : Option (V → UInt64 × V)} {now : Option UInt64}
variable {dated : X509CertificateView → Prop}

/-! ## The clock -/

/-- The time that the clock shows. -/
def timeAt (clock : Option (V → UInt64 × V)) (w : V) : Option UInt64 :=
  clock.map fun unixTimeSeconds => (unixTimeSeconds w).1

/-- What is valid at any moment of the clock is in date. -/
def Dates (clock : Option (V → UInt64 × V)) (dated : X509CertificateView → Prop) : Prop :=
  ∀ w view, InDate (timeAt clock w) view → dated view

/-- A reading of the clock gives the time that it shows. -/
theorem wpOk_readTime {Q : Option UInt64 → V → Prop} {w : V} (h : ∀ w', Q (timeAt clock w) w') :
    wpOk (readTime clock) Q w := by
  intro time w' hrun
  unfold readTime at hrun
  cases clock with
  | none =>
    cases hrun
    exact h w
  | some unixTimeSeconds =>
    cases hrun
    exact h _

/-- A clock that stands still gives its time and changes nothing. -/
theorem readTime_still (now : Option UInt64) (w : V) :
    readTime (now.map stillClock) w = some (.ok now, w) := by
  cases now with
  | none => rfl
  | some t => rfl

/-- A certificate is within its validity exactly if the clock says so. -/
theorem outsideValidity_iff (v : X509CertificateView) :
    outsideValidity now v = false ↔ InDate now v := by
  unfold InDate outsideValidity
  cases now with
  | none => simp
  | some t => simp

/-- A certificate that the parser accepted has a validity. -/
theorem issuerOutOfDate_iff {der : Bytes} {v : X509CertificateView}
    (h : x509ParseCertificate der = .ok v) : issuerOutOfDate now v = false ↔ InDate now v := by
  have hv := x509ParseCertificate_validityPresent h
  unfold issuerOutOfDate
  rw [← outsideValidity_iff]
  cases now with
  | none => simp [outsideValidity]
  | some t => simp [hv]

/-! ## Issuers -/

/-- The source's tests on an issuer. -/
theorem notAnIssuer_iff (v : X509CertificateView) :
    notAnIssuer v = false ↔ v.basicConstraintsPresent = true ∧ v.isCa = true ∧
      (v.keyUsagePresent = true → v.keyUsageKeyCertSign = true) := by
  simp only [notAnIssuer, decide_eq_false_iff_not, not_or, not_and, Bool.not_eq_false]

/-- An issuer passes the tests and is in date. -/
theorem isIssuer_iff (v : X509CertificateView) :
    IsIssuer dated v ↔ notAnIssuer v = false ∧ dated v := by
  rw [notAnIssuer_iff]
  constructor
  · rintro ⟨hc, hca, hsign, hdate⟩
    exact ⟨⟨hc, hca, hsign⟩, hdate⟩
  · rintro ⟨⟨hc, hca, hsign⟩, hdate⟩
    exact ⟨hc, hca, hsign, hdate⟩

/-- An issuer is a CA certificate. -/
theorem isCaCertificate_of_isIssuer {der : Bytes} {v : X509CertificateView} (h : IsIssuer dated v)
    (hp : x509ParseCertificate der = .ok v) : isCaCertificate der = true := by
  unfold isCaCertificate
  rw [hp]
  simp [h.constraints, h.ca]

/-- The issuer of a valid link is a CA certificate. -/
theorem isCaCertificate_of_validLink {between : List Bytes} {child issuer : Bytes}
    (h : ValidLink P dated between child issuer) : isCaCertificate issuer = true := by
  obtain ⟨cv, iv, -, hiv, -, hi, -, -⟩ := h
  exact isCaCertificate_of_isIssuer hi hiv

/-! ## The leaf -/

/-- The pin check passes exactly when the digest is the pin. -/
theorem pinDifference_eq_zero_iff (v : NativeServerAuthVerifier) (leafDer : Bytes) :
    pinDifference P v leafDer = 0 ↔ P.sha256 leafDer = v.leafCertificateSha256Pin := by
  unfold pinDifference
  rw [foldl_or_xor_eq_zero_iff _ _ (by rw [(P.sha256 leafDer).property,
    v.leafCertificateSha256Pin.property]), Subtype.ext_iff]

/-- The checks on the leaf that need no clock. -/
theorem checkLeaf_ok_iff (v : NativeServerAuthVerifier) (leafDer : Bytes)
    (leaf : X509CertificateView) :
    checkLeaf P v leafDer = .ok leaf ↔
      x509ParseCertificate leafDer = .ok leaf ∧
        (v.leafCertificateSha256PinEnabled = true →
          P.sha256 leafDer = v.leafCertificateSha256Pin) ∧
        ¬ (leaf.basicConstraintsPresent = true ∧ leaf.isCa = true) ∧
        (leaf.keyUsagePresent = true → leaf.keyUsageDigitalSignature = true) ∧
        (leaf.extendedKeyUsagePresent = true → leaf.ekuServerAuth = true) := by
  unfold checkLeaf
  rw [except_bind_eq_ok]
  constructor
  · rintro ⟨leaf', hp, h⟩
    split at h
    · cases h
    next hpin =>
    split at h
    · cases h
    next hca =>
    split at h
    · cases h
    next hku =>
    split at h
    · cases h
    next heku =>
    cases h
    refine ⟨hp, ?_, ?_, ?_, ?_⟩
    · intro he
      rw [← pinDifference_eq_zero_iff]
      by_contra hne
      exact hpin ⟨he, hne⟩
    · intro hboth
      exact hca (Or.inr hboth)
    · intro hk
      simpa [hk] using hku
    · intro hk
      simpa [hk] using heku
  · rintro ⟨hp, hpin, hca, hku, heku⟩
    have hv := x509ParseCertificate_validityPresent hp
    refine ⟨leaf, hp, ?_⟩
    rw [if_neg, if_neg, if_neg, if_neg]
    · rintro ⟨hk, hno⟩
      rw [heku hk] at hno
      cases hno
    · rintro ⟨hk, hno⟩
      rw [hku hk] at hno
      cases hno
    · rintro (hno | hboth)
      · rw [hv] at hno
        cases hno
      · exact hca hboth
    · rintro ⟨he, hne⟩
      exact hne ((pinDifference_eq_zero_iff v leafDer).mpr (hpin he))

/-- What the leaf meets when it was accepted. -/
theorem wpOk_verifyLeaf (hdates : Dates clock dated) (v : NativeServerAuthVerifier)
    (leafDer : Bytes) (hostname : CString) (w : V) :
    wpOk (verifyLeaf P clock v leafDer hostname)
      (fun _ _ => ∃ leaf, LeafConditions P v dated hostname leafDer leaf) w := by
  unfold verifyLeaf
  rw [wpOk_bind, wpOk_lift]
  intro leaf hcheck
  obtain ⟨hp, hpin, hca, hku, heku⟩ := (checkLeaf_ok_iff v leafDer leaf).mp hcheck
  rw [wpOk_bind]
  apply wpOk_readTime
  intro w'
  split
  · exact wpOk_throw _ _ _
  next hdate =>
  have hdated := hdates w leaf ((outsideValidity_iff leaf).mp (Bool.eq_false_iff.mpr hdate))
  split
  · exact wpOk_throw _ _ _
  next hhost =>
  exact (wpOk_pure _ _ _).mpr ⟨leaf, hp, hpin, hca, hku, heku, hdated, hhost⟩

/-- While the clock stands still, a leaf that meets the conditions is accepted. -/
theorem verifyLeaf_still {v : NativeServerAuthVerifier} {leafDer : Bytes} {hostname : CString}
    {leaf : X509CertificateView} (h : LeafConditions P v (InDate now) hostname leafDer leaf)
    (w : V) :
    verifyLeaf P (now.map stillClock) v leafDer hostname w = some (.ok (), w) := by
  have hcheck := (checkLeaf_ok_iff v leafDer leaf).mpr
    ⟨h.parses, h.pinned, h.notCa, h.maySign, h.serverAuth⟩
  unfold verifyLeaf
  rw [bind_of_ok (lift_of_ok hcheck w), bind_of_ok (readTime_still now w),
    (outsideValidity_iff leaf).mpr h.inDate, h.hostname]
  rfl

/-! ## The chain -/

/-- The checks on a link that need neither clock nor key. -/
theorem checkLink_ok_iff (i : ℕ) (child issuer : Bytes) (iv : X509CertificateView) :
    checkLink i child issuer = .ok iv ↔ ∃ cv, x509ParseCertificate child = .ok cv ∧
      x509ParseCertificate issuer = .ok iv ∧ cv.issuerName = iv.subjectName ∧
      notAnIssuer iv = false ∧ (iv.pathLenPresent = true → i ≤ iv.pathLenConstraint) := by
  unfold checkLink
  constructor
  · intro h
    split at h
    · next cv iv' hcv hiv =>
      split at h
      · cases h
      next hname =>
      split at h
      · cases h
      next hissuer =>
      split at h
      · cases h
      next hlen =>
      cases h
      refine ⟨cv, hcv, hiv, not_not.mp hname, Bool.eq_false_iff.mpr hissuer, ?_⟩
      intro hp
      by_contra hlt
      exact hlen ⟨hp, by omega⟩
    · cases h
  · rintro ⟨cv, hcv, hiv, hname, hn, hlen⟩
    simp only [hcv, hiv, hname, hn]
    rw [if_neg (by simp), if_neg (by simp), if_neg]
    rintro ⟨hp, hlt⟩
    have := hlen hp
    omega

/-- One round of the loop over the chain checks the rule, where the place of the issuer counts
the CA certificates below it. -/
theorem wpOk_verifyChainLink (hdates : Dates clock dated) {between : List Bytes} {i : ℕ}
    (hi : between.countP isCaCertificate = i) (child issuer : Bytes) (w : V) :
    wpOk (verifyChainLink P clock i child issuer)
      (fun _ _ => ValidLink P dated between child issuer) w := by
  unfold verifyChainLink
  rw [wpOk_bind, wpOk_lift]
  intro iv hcheck
  obtain ⟨cv, hcv, hiv, hname, hissuer, hlen⟩ := (checkLink_ok_iff i child issuer iv).mp hcheck
  rw [wpOk_bind]
  apply wpOk_readTime
  intro w'
  split
  · exact wpOk_throw _ _ _
  next hdate =>
  have hdated := hdates w iv ((issuerOutOfDate_iff hiv).mp (Bool.eq_false_iff.mpr hdate))
  split
  · exact wpOk_throw _ _ _
  next hsig =>
  refine (wpOk_pure _ _ _).mpr
    ⟨cv, iv, hcv, hiv, hname, (isIssuer_iff iv).mpr ⟨hissuer, hdated⟩, ?_, hsig⟩
  rw [hi]
  exact hlen

/-- A valid link is accepted while the clock stands still. -/
theorem verifyChainLink_still {between : List Bytes} {i : ℕ}
    (hi : between.countP isCaCertificate = i) {child issuer : Bytes}
    (h : ValidLink P (InDate now) between child issuer) (w : V) :
    verifyChainLink P (now.map stillClock) i child issuer w = some (.ok (), w) := by
  obtain ⟨cv, iv, hcv, hiv, hname, hissuer, hlen, hsig⟩ := h
  rw [hi] at hlen
  have hcheck := (checkLink_ok_iff i child issuer iv).mpr
    ⟨cv, hcv, hiv, hname, ((isIssuer_iff iv).mp hissuer).1, hlen⟩
  unfold verifyChainLink
  rw [bind_of_ok (lift_of_ok hcheck w), bind_of_ok (readTime_still now w),
    (issuerOutOfDate_iff hiv).mpr hissuer.inDate, hsig]
  rfl

/-- The place of the next issuer counts one more CA certificate. -/
theorem countP_of_validLink {between : List Bytes} {i : ℕ}
    (hi : between.countP isCaCertificate = i) {child issuer : Bytes}
    (h : ValidLink P dated between child issuer) :
    (between ++ [issuer]).countP isCaCertificate = i + 1 := by
  rw [List.countP_append, hi, List.countP_singleton, if_pos (isCaCertificate_of_validLink h)]

/-- The loop over the chain checks that it is a valid path. -/
theorem wpOk_verifyChainLinks (hdates : Dates clock dated) {between path : List Bytes} {i : ℕ}
    (hi : between.countP isCaCertificate = i) (hne : path ≠ []) (w : V) :
    wpOk (verifyChainLinks P clock i path) (fun _ _ => ValidFrom P dated between path) w := by
  induction path generalizing between i w with
  | nil => exact absurd rfl hne
  | cons child rest ih =>
    cases rest with
    | nil => exact (wpOk_pure _ _ _).mpr (.top between child)
    | cons issuer rest =>
      unfold verifyChainLinks
      refine wpOk_bind_of_spec (wpOk_verifyChainLink hdates hi child issuer w) ?_
      intro _ w' hlink
      refine wpOk_mono (ih (countP_of_validLink hi hlink) (by simp) w') ?_
      intro _ _ hrest
      exact .link hlink hrest

/-- The links of a valid path are accepted while the clock stands still. -/
theorem verifyChainLinks_still {between path : List Bytes} {i : ℕ}
    (hi : between.countP isCaCertificate = i) (h : ValidFrom P (InDate now) between path) (w : V) :
    verifyChainLinks P (now.map stillClock) i path w = some (.ok (), w) := by
  induction h generalizing i with
  | top between c => rfl
  | link hlink _ ih =>
    unfold verifyChainLinks
    rw [bind_of_ok (verifyChainLink_still hi hlink w)]
    exact ih (countP_of_validLink hi hlink)

/-! ## Valid paths -/

/-- A path with one more certificate on top. -/
theorem validFrom_snoc_iff {between path : List Bytes} {anchor : Bytes} (hne : path ≠ []) :
    ValidFrom P dated between (path ++ [anchor]) ↔
      ValidFrom P dated between path ∧
        ValidLink P dated (between ++ path.tail) (path.getLast hne) anchor := by
  induction path generalizing between with
  | nil => exact absurd rfl hne
  | cons child rest ih =>
    cases rest with
    | nil =>
      simp only [List.cons_append, List.nil_append, List.tail_cons, List.append_nil,
        List.getLast_singleton]
      constructor
      · intro h
        cases h with
        | link hlink _ => exact ⟨.top between child, hlink⟩
      · rintro ⟨-, hlink⟩
        exact .link hlink (.top _ anchor)
    | cons issuer rest =>
      have hlast : (child :: issuer :: rest).getLast hne =
          (issuer :: rest).getLast (by simp) := List.getLast_cons (by simp)
      have hbetween : between ++ (child :: issuer :: rest).tail =
          (between ++ [issuer]) ++ (issuer :: rest).tail := by simp
      rw [hlast, hbetween]
      constructor
      · intro h
        cases h with
        | link hlink hrest =>
          obtain ⟨h1, h2⟩ := (ih (by simp)).mp hrest
          exact ⟨.link hlink h1, h2⟩
      · rintro ⟨h, h2⟩
        cases h with
        | link hlink hrest => exact .link hlink ((ih (by simp)).mpr ⟨hrest, h2⟩)

/-- Above the leaf of a valid path there are only CA certificates. -/
theorem ValidFrom.countP_eq {between path : List Bytes} (h : ValidFrom P dated between path) :
    path.tail.countP isCaCertificate = path.length - 1 := by
  induction h with
  | top between c => simp
  | @link between child issuer rest hlink _ ih =>
    simp only [List.tail_cons, List.length_cons, Nat.add_sub_cancel] at ih ⊢
    rw [List.countP_cons, if_pos (isCaCertificate_of_validLink hlink), ih]

/-- The anchor at the end of a valid path allows as many CA certificates as there are
between it and the leaf. -/
theorem pathLen_of_validPath {path : List Bytes} {anchor : Bytes} {av : X509CertificateView}
    (h : ValidPath P dated path) (hlast : path.getLast? = some anchor)
    (hav : x509ParseCertificate anchor = .ok av) (hp : av.pathLenPresent = true) :
    path.length - 2 ≤ av.pathLenConstraint := by
  obtain ⟨init, rfl⟩ := List.getLast?_eq_some_iff.mp hlast
  by_cases hne : init = []
  · simp [hne]
  · obtain ⟨hinit, hlink⟩ := (validFrom_snoc_iff hne).mp h
    obtain ⟨cv, iv, -, hiv, -, -, hlen, -⟩ := hlink
    rw [hav] at hiv
    cases hiv
    have hbound := hlen hp
    rw [List.nil_append, ValidFrom.countP_eq hinit] at hbound
    simp only [List.length_append, List.length_singleton]
    omega

/-- The chain below an anchor is itself a valid path, and its last certificate parses. -/
theorem validPath_of_pathTo {chain : List Bytes} {top anchor : Bytes} {av : X509CertificateView}
    (htop : chain.getLast? = some top) (hav : x509ParseCertificate anchor = .ok av)
    (h : ValidPath P dated (pathTo chain anchor)) :
    ValidPath P dated chain ∧ ∃ topv, x509ParseCertificate top = .ok topv := by
  obtain ⟨init, hinit⟩ := List.getLast?_eq_some_iff.mp htop
  have hne : chain ≠ [] := by simp [hinit]
  by_cases heq : top = anchor
  · subst heq
    rw [pathTo, if_pos htop] at h
    exact ⟨h, av, hav⟩
  · rw [pathTo, if_neg (by simp [htop, heq])] at h
    obtain ⟨hchain, cv, iv, hcv, -⟩ := (validFrom_snoc_iff hne).mp h
    have hget : chain.getLast hne = top := by simp [hinit]
    exact ⟨hchain, cv, hget ▸ hcv⟩

/-! ## The anchor -/

/-- An anchor is looked at further exactly if it is an issuer that can be read. -/
theorem checkAnchor_eq_some_iff (anchor : Bytes) (av : X509CertificateView) :
    checkAnchor anchor = some av ↔
      x509ParseCertificate anchor = .ok av ∧ notAnIssuer av = false := by
  unfold checkAnchor
  cases hparse : x509ParseCertificate anchor with
  | error e => simp
  | ok v =>
    by_cases hissuer : notAnIssuer v = true
    · simp only [hissuer, if_true, reduceCtorEq, Except.ok.injEq, false_iff, not_and]
      rintro rfl
      simp [hissuer]
    · simp only [hissuer, Bool.false_eq_true, if_false, Option.some.injEq, Except.ok.injEq]
      constructor
      · rintro rfl
        exact ⟨rfl, Bool.eq_false_iff.mpr hissuer⟩
      · exact fun h => h.1

/-- An issuer ends a chain that is a valid path exactly when the path to it is valid. -/
theorem anchorEnds_iff {chain : List Bytes} {top anchor : Bytes} {topv av : X509CertificateView}
    (hchain : ValidPath P dated chain) (htop : chain.getLast? = some top)
    (htopv : x509ParseCertificate top = .ok topv) (hav : x509ParseCertificate anchor = .ok av)
    (hi : IsIssuer dated av) :
    anchorEnds P chain.length top topv anchor av = true ↔
      ValidPath P dated (pathTo chain anchor) := by
  obtain ⟨init, hinit⟩ := List.getLast?_eq_some_iff.mp htop
  have hne : chain ≠ [] := by simp [hinit]
  have hget : chain.getLast hne = top := by simp [hinit]
  have hpos : 1 ≤ chain.length := List.length_pos_iff.mpr hne
  unfold anchorEnds
  by_cases heq : top = anchor
  · subst heq
    have hcount : (if chain.length ≥ 2 then chain.length - 2 else 0) = chain.length - 2 := by
      split <;> omega
    have hpath : pathTo chain top = chain := by simp [pathTo, htop]
    simp only [if_true, hcount, hpath, hchain, iff_true]
    rw [if_neg]
    rintro ⟨hp, hlt⟩
    have := pathLen_of_validPath hchain htop hav hp
    omega
  · have hpath : pathTo chain anchor = chain ++ [anchor] := by simp [pathTo, htop, heq]
    have hcount : (if chain.length ≥ 1 then chain.length - 1 else 0) = chain.length - 1 :=
      if_pos hpos
    rw [hpath]
    unfold ValidPath
    rw [validFrom_snoc_iff hne, List.nil_append, hget]
    simp only [heq, if_false, hcount]
    have hca := ValidFrom.countP_eq hchain
    constructor
    · intro h
      split at h
      · cases h
      next hname =>
      split at h
      · cases h
      next hlen =>
      split at h
      · cases h
      next hsig =>
      refine ⟨hchain, topv, av, htopv, hav, not_not.mp hname, hi, ?_, hsig⟩
      intro hp
      rw [hca]
      by_contra hlt
      exact hlen ⟨hp, by omega⟩
    · rintro ⟨-, cv, iv, hcv, hiv, hname, -, hlen, hsig⟩
      rw [htopv] at hcv
      rw [hav] at hiv
      cases hcv
      cases hiv
      rw [hca] at hlen
      rw [if_neg (by simpa using hname), if_neg, hsig]
      rintro ⟨hp, hlt⟩
      have := hlen hp
      omega

/-- An anchor that is accepted is an issuer that ends the chain. -/
theorem wpOk_anchorAccepts (hdates : Dates clock dated) (count : ℕ) (top : Bytes)
    (topv : X509CertificateView) (anchor : Bytes) (w : V) :
    wpOk (anchorAccepts P clock count top topv anchor)
      (fun accepts _ => accepts = true → ∃ av, x509ParseCertificate anchor = .ok av ∧
        IsIssuer dated av ∧ anchorEnds P count top topv anchor av = true) w := by
  unfold anchorAccepts
  split
  · refine (wpOk_pure _ _ _).mpr ?_
    intro haccepts
    cases haccepts
  next av hcheck =>
  obtain ⟨hav, hissuer⟩ := (checkAnchor_eq_some_iff anchor av).mp hcheck
  rw [wpOk_bind]
  apply wpOk_readTime
  intro w'
  refine (wpOk_pure _ _ _).mpr ?_
  intro haccepts
  obtain ⟨hdate, hends⟩ := (Bool.and_eq_true _ _).mp haccepts
  have hdated := hdates w av ((issuerOutOfDate_iff hav).mp (by simpa using hdate))
  exact ⟨av, hav, (isIssuer_iff av).mpr ⟨hissuer, hdated⟩, hends⟩

/-- The anchor loop finds an anchor that ends the chain. -/
theorem wpOk_findAnchor (hdates : Dates clock dated) (count : ℕ) (top : Bytes)
    (topv : X509CertificateView) (anchors : List Bytes) (w : V) :
    wpOk (findAnchor P clock count top topv anchors)
      (fun _ _ => ∃ anchor ∈ anchors, ∃ av, x509ParseCertificate anchor = .ok av ∧
        IsIssuer dated av ∧ anchorEnds P count top topv anchor av = true) w := by
  induction anchors generalizing w with
  | nil => exact wpOk_throw _ _ _
  | cons anchor rest ih =>
    unfold findAnchor
    refine wpOk_bind_of_spec (wpOk_anchorAccepts hdates count top topv anchor w) ?_
    intro accepts w' haccepts
    split
    · next h => exact (wpOk_pure _ _ _).mpr ⟨anchor, List.mem_cons_self, haccepts h⟩
    · refine wpOk_mono (ih w') ?_
      rintro _ _ ⟨anchor', hmem, hanchor'⟩
      exact ⟨anchor', List.mem_cons_of_mem _ hmem, hanchor'⟩

/-- What a round of the anchor loop answers at one time. -/
def acceptsAt (P : Crypto) (now : Option UInt64) (count : ℕ) (top : Bytes)
    (topv : X509CertificateView) (anchor : Bytes) : Bool :=
  (checkAnchor anchor).any fun av =>
    !issuerOutOfDate now av && anchorEnds P count top topv anchor av

/-- What an anchor is worth while the clock stands still. -/
theorem anchorAccepts_still (count : ℕ) (top : Bytes) (topv : X509CertificateView)
    (anchor : Bytes) (w : V) :
    anchorAccepts P (now.map stillClock) count top topv anchor w =
      some (.ok (acceptsAt P now count top topv anchor), w) := by
  unfold anchorAccepts acceptsAt
  cases checkAnchor anchor with
  | none => rfl
  | some av =>
    dsimp only
    rw [bind_of_ok (readTime_still now w)]
    rfl

/-- While the clock stands still, the anchor loop looks for any anchor that is accepted. -/
theorem findAnchor_still (count : ℕ) (top : Bytes) (topv : X509CertificateView)
    (anchors : List Bytes) (w : V) :
    findAnchor P (now.map stillClock) count top topv anchors w =
      some (if anchors.any (acceptsAt P now count top topv) then .ok () else .error .verify,
        w) := by
  induction anchors with
  | nil => rfl
  | cons anchor rest ih =>
    unfold findAnchor
    rw [bind_of_ok (anchorAccepts_still count top topv anchor w), List.any_cons]
    cases acceptsAt P now count top topv anchor with
    | true => rfl
    | false => simpa using ih

/-- The anchor of a valid path is accepted. -/
theorem acceptsAt_of_validPath {chain : List Bytes} {top anchor : Bytes}
    {topv av : X509CertificateView} (hchain : ValidPath P (InDate now) chain)
    (htop : chain.getLast? = some top) (htopv : x509ParseCertificate top = .ok topv)
    (hav : x509ParseCertificate anchor = .ok av) (hi : IsIssuer (InDate now) av)
    (hpath : ValidPath P (InDate now) (pathTo chain anchor)) :
    acceptsAt P now chain.length top topv anchor = true := by
  have hcheck := (checkAnchor_eq_some_iff anchor av).mpr ⟨hav, ((isIssuer_iff av).mp hi).1⟩
  unfold acceptsAt
  rw [hcheck]
  simp only [Option.any_some, (issuerOutOfDate_iff hav).mpr hi.inDate, Bool.not_false,
    Bool.true_and]
  exact (anchorEnds_iff hchain htop htopv hav hi).mpr hpath

/-! ## The whole check -/

/-- A chain of certificates has a last one. -/
theorem exists_top {ders : List Bytes} (hne : ders ≠ []) :
    ∃ top, ders.getLast? = some top ∧ ders.getLastD [] = top := by
  refine ⟨ders.getLast hne, List.getLast?_eq_some_getLast hne, ?_⟩
  rw [List.getLastD_eq_getLast?, List.getLast?_eq_some_getLast hne]
  rfl

/-- **What `verify_chain` accepts**, whatever the clock does: a leaf that meets the conditions
and a trusted path, in which every certificate was in date at a moment of the clock. -/
theorem wpOk_verifyChain (hdates : Dates clock dated) (v : NativeServerAuthVerifier)
    (chain : CertificateChainView) (hostname : CString) (w : V) :
    wpOk (v.verifyChain P clock chain hostname)
      (fun _ _ => (∃ leaf, LeafConditions P v dated hostname chain.leafDer leaf) ∧
        Trusted P dated v.anchors (chain.entries.map CertificateChainEntry.der)) w := by
  unfold NativeServerAuthVerifier.verifyChain
  split
  · exact wpOk_throw _ _ _
  next hguard =>
  simp only [not_or] at hguard
  have hne : chain.entries.map CertificateChainEntry.der ≠ [] := by
    intro h
    simp only [List.map_eq_nil_iff] at h
    exact hguard.2.1 (by rw [h]; rfl)
  dsimp only
  generalize chain.entries.map CertificateChainEntry.der = ders at hne ⊢
  obtain ⟨top, htop, hlastD⟩ := exists_top hne
  rw [hlastD]
  refine wpOk_bind_of_spec (wpOk_verifyLeaf hdates v chain.leafDer hostname w) ?_
  intro _ w₁ hleaf
  have hzero : ([] : List Bytes).countP isCaCertificate = 0 := rfl
  refine wpOk_bind_of_spec (wpOk_verifyChainLinks hdates hzero hne w₁) ?_
  intro _ w₂ hpath
  split
  · exact wpOk_throw _ _ _
  next topv htopv =>
  refine wpOk_mono (wpOk_findAnchor hdates _ top topv v.anchors w₂) ?_
  rintro _ _ ⟨anchor, hmem, av, hav, hi, hends⟩
  exact ⟨hleaf, anchor, hmem, av, hav, hi, (anchorEnds_iff hpath htop htopv hav hi).mp hends⟩

/-- What is in date at a time is in date by a clock that stands still at it. -/
theorem dates_still (now : Option UInt64) :
    Dates (now.map (stillClock : UInt64 → V → UInt64 × V)) (InDate now) := by
  intro w view hdate
  cases now with
  | none => exact hdate
  | some t => exact hdate

/-- While the clock stands still, every chain with a good leaf and a trusted path is
accepted. -/
theorem verifyChain_still {v : NativeServerAuthVerifier} {chain : CertificateChainView}
    {hostname : CString} {leaf : X509CertificateView}
    (hleaf : LeafConditions P v (InDate now) hostname chain.leafDer leaf)
    (htrusted : Trusted P (InDate now) v.anchors (chain.entries.map CertificateChainEntry.der))
    (w : V) :
    v.verifyChain P (now.map stillClock) chain hostname w = some (.ok (), w) := by
  obtain ⟨anchor, hmem, av, hav, hi, hvalid⟩ := htrusted
  have hhost : hostname.val.length ≠ 0 := by
    intro h
    have := hleaf.hostname
    simp [x509VerifyHostname, h] at this
  have hentries : chain.entries ≠ [] := by
    intro hnil
    have := hleaf.parses
    simp [CertificateChainView.leafDer, hnil, x509ParseCertificate] at this
  have hanchors : v.anchors.length ≠ 0 := by
    intro h
    rw [List.eq_nil_of_length_eq_zero h] at hmem
    cases hmem
  unfold NativeServerAuthVerifier.verifyChain
  rw [if_neg (by simp [hhost, hentries, List.length_eq_zero_iff, hanchors])]
  have hne : chain.entries.map CertificateChainEntry.der ≠ [] := by simpa using hentries
  dsimp only
  generalize chain.entries.map CertificateChainEntry.der = ders at hvalid hne ⊢
  obtain ⟨top, htop, hlastD⟩ := exists_top hne
  obtain ⟨hpath, topv, htopv⟩ := validPath_of_pathTo htop hav hvalid
  have hlinks : verifyChainLinks P (now.map stillClock) 0 ders w = some (.ok (), w) :=
    verifyChainLinks_still rfl hpath w
  rw [hlastD, bind_of_ok (verifyLeaf_still hleaf w), bind_of_ok hlinks, htopv]
  dsimp only
  have hany : v.anchors.any (acceptsAt P now ders.length top topv) = true :=
    List.any_eq_true.mpr ⟨anchor, hmem, acceptsAt_of_validPath hpath htop htopv hav hi hvalid⟩
  rw [findAnchor_still, hany]
  rfl

/-- While the clock stands still, `verify_chain` reads the anchors as a set. -/
theorem verifyChain_perm (v v' : NativeServerAuthVerifier) (chain : CertificateChainView)
    (hostname : CString) (hanchors : v.anchors.Perm v'.anchors)
    (hpin : v.leafCertificateSha256Pin = v'.leafCertificateSha256Pin)
    (henabled : v.leafCertificateSha256PinEnabled = v'.leafCertificateSha256PinEnabled) (w : V) :
    v.verifyChain P (now.map stillClock) chain hostname w =
      v'.verifyChain P (now.map stillClock) chain hostname w := by
  have hleaf : (verifyLeaf P (now.map stillClock) v chain.leafDer hostname : Prog V Error Unit) =
      verifyLeaf P (now.map stillClock) v' chain.leafDer hostname := by
    unfold verifyLeaf checkLeaf pinDifference
    rw [hpin, henabled]
  have hfind : ∀ count top topv,
      (findAnchor P (now.map stillClock) count top topv v.anchors : Prog V Error Unit) =
        findAnchor P (now.map stillClock) count top topv v'.anchors := by
    intro count top topv
    funext u
    rw [findAnchor_still, findAnchor_still, hanchors.any_eq]
  unfold NativeServerAuthVerifier.verifyChain
  simp only [hanchors.length_eq, hleaf, hfind]

/-- **`verify_chain` is the path rule.**  On every chain, anchor set, pin setting, time and
host name it accepts exactly when the leaf meets the leaf conditions and some anchor ends a
valid path; and reordering the anchors changes none of its results. -/
theorem verifyChain_decides_paths (P : Crypto) {V : Type} (now : Option UInt64)
    (v : NativeServerAuthVerifier) (chain : CertificateChainView) (hostname : CString) (w : V) :
    ((∃ w', v.verifyChain P (now.map stillClock) chain hostname w = some (.ok (), w')) ↔
      (∃ leaf, LeafConditions P v (InDate now) hostname chain.leafDer leaf) ∧
        Trusted P (InDate now) v.anchors (chain.entries.map CertificateChainEntry.der)) ∧
    ∀ (anchors : List Bytes) (h : anchors.Perm v.anchors),
      NativeServerAuthVerifier.verifyChain P (now.map stillClock)
          { v with anchors := anchors, bound := h.length_eq ▸ v.bound } chain hostname w =
        v.verifyChain P (now.map stillClock) chain hostname w := by
  refine ⟨⟨?_, ?_⟩, ?_⟩
  · rintro ⟨w', hrun⟩
    exact wpOk_verifyChain (dates_still now) v chain hostname w () w' hrun
  · rintro ⟨⟨leaf, hleaf⟩, htrusted⟩
    exact ⟨w, verifyChain_still hleaf htrusted w⟩
  · intro anchors h
    exact verifyChain_perm { v with anchors := anchors, bound := h.length_eq ▸ v.bound } v chain
      hostname h rfl rfl w

end XboxTls.Analysis
