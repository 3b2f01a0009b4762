import XboxTls.Analysis.ByteStrings
import XboxTls.Interface.CertificateList
import XboxTls.Programs.Prog

/-!
# Reading certificate lists

One round of `parse_certificate_chain` takes the encoding of one entry off the front
(`parseCertificateChainLoop_encode`), and what it takes is one (`exists_entry`).  So the loop
accepts the encodings of at most eight entries.  `first_certificate_der` reads the first of them.
-/

set_option autoImplicit false

namespace XboxTls.Analysis

open Programs XboxTls.Model XboxTls.Interface

/-! ## One entry -/

section Entry

variable {e : CertificateChainEntry} (rest : Bytes)

/-- An entry adds five bytes of lengths. -/
theorem encodeEntry_length (e : CertificateChainEntry) :
    (encodeEntry e).length = e.der.length + e.extensions.length + 5 := by
  simp only [encodeEntry, List.length_append, storeBe16_length, storeBe24_length]
  omega

/-- An entry starts with the length of its certificate. -/
theorem loadBe24_encodeEntry (h : EncodableEntry e) :
    loadBe24 (encodeEntry e ++ rest) 0 = e.der.length := by
  simp only [encodeEntry, List.append_assoc]
  exact loadBe24_storeBe24 _ h.derBound _

/-- The entry behind the length of its certificate. -/
theorem drop_encodeEntry (e : CertificateChainEntry) : (encodeEntry e ++ rest).drop 3 =
    e.der ++ (storeBe16 e.extensions.length ++ (e.extensions ++ rest)) := by
  simp only [encodeEntry, List.append_assoc]
  exact List.drop_left' (storeBe24_length _)

end Entry

/-- The length of the extensions and the extensions. -/
theorem exists_extensions {q : Bytes} (hlong : 2 ≤ q.length)
    (hfits : loadBe16 q 0 ≤ (q.drop 2).length) :
    q = storeBe16 ((q.drop 2).take (loadBe16 q 0)).length ++ (q.drop 2).take (loadBe16 q 0) ++
      (q.drop 2).drop (loadBe16 q 0) := by
  have hfront : q.take 2 = storeBe16 (loadBe16 q 0) := by
    have h := slice_two (b := q) (i := 0) (by omega)
    simpa [slice] using h
  rw [List.length_take, Nat.min_eq_left hfits, List.append_assoc, List.take_append_drop, ← hfront,
    List.take_append_drop]

/-- The entry that a round reads off the front. -/
theorem exists_entry {s : Bytes} (hlong : 3 ≤ s.length) (hpos : loadBe24 s 0 ≠ 0)
    (hfits : loadBe24 s 0 ≤ (s.drop 3).length)
    (hlong' : 2 ≤ ((s.drop 3).drop (loadBe24 s 0)).length)
    (hfits' : loadBe16 ((s.drop 3).drop (loadBe24 s 0)) 0 ≤
      (((s.drop 3).drop (loadBe24 s 0)).drop 2).length) :
    ∃ e : CertificateChainEntry, EncodableEntry e ∧
      e.der = (s.drop 3).take (loadBe24 s 0) ∧
      e.extensions = (((s.drop 3).drop (loadBe24 s 0)).drop 2).take
        (loadBe16 ((s.drop 3).drop (loadBe24 s 0)) 0) ∧
      s = encodeEntry e ++ (((s.drop 3).drop (loadBe24 s 0)).drop 2).drop
        (loadBe16 ((s.drop 3).drop (loadBe24 s 0)) 0) := by
  have hder := loadBe24_le s 0
  have hext := loadBe16_le ((s.drop 3).drop (loadBe24 s 0)) 0
  have hderLen : ((s.drop 3).take (loadBe24 s 0)).length = loadBe24 s 0 := by
    rw [List.length_take, Nat.min_eq_left hfits]
  refine ⟨⟨_, _⟩, ⟨?_, ?_, ?_⟩, rfl, rfl, ?_⟩
  · rw [hderLen]
    omega
  · rw [hderLen]
    omega
  · rw [List.length_take]
    omega
  · have hfront : s.take 3 = storeBe24 (loadBe24 s 0) := by
      have h := slice_three (b := s) (i := 0) (by omega)
      simpa [slice] using h
    have hback := exists_extensions hlong' hfits'
    unfold encodeEntry
    dsimp only
    rw [hderLen, List.append_assoc, ← hback, List.append_assoc, List.take_append_drop, ← hfront,
      List.take_append_drop]

/-- The first entry stands before the others. -/
@[simp] theorem encodeEntries_cons (e : CertificateChainEntry) (es : List CertificateChainEntry) :
    encodeEntries (e :: es) = encodeEntry e ++ encodeEntries es := List.flatMap_cons

/-- Only no entries take no bytes. -/
theorem nil_eq_encodeEntries {es : List CertificateChainEntry} :
    [] = encodeEntries es ↔ es = [] := by
  cases es with
  | nil => simp [encodeEntries]
  | cons e es =>
    have h := encodeEntry_length e
    simp only [encodeEntries_cons, List.nil_eq, List.append_eq_nil_iff, reduceCtorEq, iff_false]
    rintro ⟨hnil, -⟩
    rw [hnil, List.length_nil] at h
    omega

/-! ## The loop -/

/-- One round takes the encoding of an entry. -/
theorem parseCertificateChainLoop_encode {e : CertificateChainEntry} (he : EncodableEntry e)
    (fuel : ℕ) (rest : Bytes) {out : CertificateChainView} (hroom : out.entries.length < 8) :
    parseCertificateChainLoop (fuel + 1) (encodeEntry e ++ rest) out =
      parseCertificateChainLoop fuel rest ⟨out.entries ++ [e], by
        rw [List.length_append, List.length_singleton]
        omega⟩ := by
  have hlength : (encodeEntry e ++ rest).length =
      e.der.length + e.extensions.length + 5 + rest.length := by
    rw [List.length_append, encodeEntry_length]
  have hload : loadBe16 (storeBe16 e.extensions.length ++ (e.extensions ++ rest)) 0 =
      e.extensions.length := loadBe16_storeBe16 _ he.extensionsBound _
  have hpos := he.nonempty
  rw [parseCertificateChainLoop, if_neg (by omega), dif_neg (by omega)]
  simp only [loadBe24_encodeEntry rest he, drop_encodeEntry, List.drop_left, hload,
    List.drop_left' (storeBe16_length _), List.take_left]
  rw [if_neg (by simp only [List.length_append]; omega),
    if_neg (by simp only [List.length_append, storeBe16_length]; omega),
    if_neg (by simp only [List.length_append]; omega)]

/-- A chain is its entries. -/
theorem chainView_ext {v v' : CertificateChainView} (h : v.entries = v'.entries) : v = v' := by
  cases v
  cases v'
  cases h
  rfl

/-- What the loop accepts starts with the encoding of an entry. -/
theorem exists_round {fuel : ℕ} {s : Bytes} {out out' : CertificateChainView}
    (hs : s.length ≠ 0) (h : parseCertificateChainLoop (fuel + 1) s out = .ok out') :
    out.entries.length < 8 ∧ ∃ e rest, EncodableEntry e ∧ s = encodeEntry e ++ rest := by
  rw [parseCertificateChainLoop, if_neg hs] at h
  split at h
  · cases h
  next hroom =>
  dsimp only at h
  split at h
  · cases h
  next hder =>
  split at h
  · cases h
  next hlong =>
  split at h
  · cases h
  next hext =>
  obtain ⟨e, he, -, -, hsplit⟩ := exists_entry (s := s) (by omega) (by omega) (by omega)
    (by omega) (by omega)
  exact ⟨by omega, e, _, he, hsplit⟩

/-- The loop accepts the encodings of as many entries as there is room for. -/
theorem parseCertificateChainLoop_iff (fuel : ℕ) (s : Bytes) (out out' : CertificateChainView)
    (hfuel : s.length ≤ fuel) :
    parseCertificateChainLoop fuel s out = .ok out' ↔
      ∃ es, (∀ e ∈ es, EncodableEntry e) ∧ s = encodeEntries es ∧
        out'.entries = out.entries ++ es := by
  induction fuel generalizing s out with
  | zero =>
    obtain rfl := List.eq_nil_of_length_eq_zero (Nat.le_zero.mp hfuel)
    simp only [parseCertificateChainLoop, Except.ok.injEq, nil_eq_encodeEntries]
    constructor
    · rintro rfl
      exact ⟨[], by simp⟩
    · rintro ⟨es, -, rfl, hout⟩
      exact (chainView_ext (by simpa using hout)).symm
  | succ fuel ih =>
    by_cases hempty : s.length = 0
    · obtain rfl := List.eq_nil_of_length_eq_zero hempty
      simp only [parseCertificateChainLoop, List.length_nil, if_true, Except.ok.injEq,
        nil_eq_encodeEntries]
      constructor
      · rintro rfl
        exact ⟨[], by simp⟩
      · rintro ⟨es, -, rfl, hout⟩
        exact (chainView_ext (by simpa using hout)).symm
    · constructor
      · intro h
        obtain ⟨hroom, e, rest, he, rfl⟩ := exists_round hempty h
        rw [List.length_append, encodeEntry_length] at hfuel
        rw [parseCertificateChainLoop_encode he fuel rest hroom, ih _ _ (by omega)] at h
        obtain ⟨es, hes, rfl, hout⟩ := h
        exact ⟨e :: es, List.forall_mem_cons.mpr ⟨he, hes⟩, rfl, by simpa using hout⟩
      · rintro ⟨es, hes, rfl, hout⟩
        cases es with
        | nil => exact absurd rfl hempty
        | cons e es =>
          obtain ⟨he, hes⟩ := List.forall_mem_cons.mp hes
          have hbound := out'.bound
          rw [hout, List.length_append, List.length_cons] at hbound
          rw [encodeEntries_cons] at hfuel ⊢
          rw [List.length_append, encodeEntry_length] at hfuel
          rw [parseCertificateChainLoop_encode he fuel _ (by omega), ih _ _ (by omega)]
          exact ⟨es, hes, rfl, by simpa using hout⟩

/-- The list is read exactly where it is the encoding of its entries, up to sixteen. -/
theorem parseCertificateChain_iff (info : CertificateInfo) (chain : CertificateChainView) :
    parseCertificateChain info = .ok chain ↔
      chain.entries.length ≠ 0 ∧ (∀ e ∈ chain.entries, EncodableEntry e) ∧
        info.certificateList = encodeEntries chain.entries := by
  have hloop := parseCertificateChainLoop_iff info.certificateList.length info.certificateList
    .empty
  unfold parseCertificateChain
  constructor
  · intro h
    obtain ⟨out, hout, h⟩ := (except_bind_eq_ok _ _ _).mp h
    split at h
    · next hcount =>
      cases h
      obtain ⟨es, hes, hlist, hentries⟩ := (hloop chain (Nat.le_refl _)).mp hout
      obtain rfl : chain.entries = es := hentries
      exact ⟨hcount, hes, hlist⟩
    · cases h
  · rintro ⟨hcount, hes, hlist⟩
    have hout := (hloop chain (Nat.le_refl _)).mpr ⟨chain.entries, hes, hlist, rfl⟩
    exact (except_bind_eq_ok _ _ _).mpr ⟨chain, hout, if_pos hcount⟩

/-! ## The main result -/

/-- The first entry of a list is what the reader of the first certificate takes. -/
theorem firstCertificateDer_encode {e : CertificateChainEntry} (he : EncodableEntry e)
    {info : CertificateInfo} {rest : Bytes} (h : info.certificateList = encodeEntry e ++ rest) :
    firstCertificateDer info = .ok (e.der, e.extensions) := by
  have hlength : (encodeEntry e ++ rest).length =
      e.der.length + e.extensions.length + 5 + rest.length := by
    rw [List.length_append, encodeEntry_length]
  have hload : loadBe16 (storeBe16 e.extensions.length ++ (e.extensions ++ rest)) 0 =
      e.extensions.length := loadBe16_storeBe16 _ he.extensionsBound _
  have hpos := he.nonempty
  rw [firstCertificateDer, h, if_neg (by omega)]
  simp only [loadBe24_encodeEntry rest he, drop_encodeEntry, List.drop_left, hload,
    List.drop_left' (storeBe16_length _), List.take_left]
  rw [if_neg (by simp only [List.length_append]; omega),
    if_neg (by simp only [List.length_append, storeBe16_length]; omega),
    if_neg (by simp only [List.length_append]; omega)]

/-- **The accepted lists**: `parse_certificate_chain` reports some entries exactly when there are
one to eight of them, each with a certificate, and the bytes are their encodings and nothing
else; and then `first_certificate_der` returns the first of them. -/
theorem certificateList_iff (info : CertificateInfo) (es : List CertificateChainEntry) :
    ((∃ chain, parseCertificateChain info = .ok chain ∧ chain.entries = es) ↔
      1 ≤ es.length ∧ es.length ≤ 8 ∧ (∀ e ∈ es, EncodableEntry e) ∧
        info.certificateList = encodeEntries es) ∧
    ∀ chain, parseCertificateChain info = .ok chain → ∃ e ∈ chain.entries.head?,
      firstCertificateDer info = .ok (e.der, e.extensions) := by
  constructor
  · constructor
    · rintro ⟨chain, hparse, rfl⟩
      obtain ⟨hcount, hencodable, hlist⟩ := (parseCertificateChain_iff info chain).mp hparse
      exact ⟨by omega, chain.bound, hencodable, hlist⟩
    · rintro ⟨hcount, hbound, hencodable, hlist⟩
      refine ⟨⟨es, hbound⟩, (parseCertificateChain_iff info _).mpr ⟨?_, hencodable, hlist⟩, rfl⟩
      exact Nat.ne_of_gt hcount
  · intro chain hparse
    obtain ⟨hcount, hencodable, hlist⟩ := (parseCertificateChain_iff info chain).mp hparse
    obtain ⟨e, es, hentries⟩ := List.exists_cons_of_length_pos (Nat.pos_of_ne_zero hcount)
    rw [hentries] at hencodable hlist ⊢
    exact ⟨e, rfl, firstCertificateDer_encode (hencodable e List.mem_cons_self) hlist⟩

end XboxTls.Analysis
