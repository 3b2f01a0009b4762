import XboxTls.Analysis.ByteStrings
import XboxTls.Analysis.TrustAnchors
import XboxTls.Interface.TrustStoreFormat

/-!
# Loading XTS1 stores

One round of the loader takes one encoded certificate or clears the anchors and fails.  So the
loop ends with the certificates of the store as anchors, or with none (`loadEntries_run`).
-/

set_option autoImplicit false

namespace XboxTls.Analysis

open Programs Programs.Prog XboxTls.Model XboxTls.Interface

/-! ## One certificate -/

/-- An encoded certificate at an offset of the store. -/
theorem fields_of_drop {blob der rest : Bytes} {off : ℕ} (hder : der.length < 2 ^ 24)
    (h : blob.drop off = encodeAnchor der ++ rest) :
    off + 3 + der.length ≤ blob.length ∧ loadBe24 blob off = der.length ∧
      slice blob (off + 3) der.length = der ∧ blob.drop (off + 3 + der.length) = rest := by
  have hlength := congrArg List.length h
  simp only [encodeAnchor, List.length_append, List.length_drop, storeBe24_length] at hlength
  have hload : loadBe24 (blob.drop off) 0 = loadBe24 blob off := by
    simp only [loadBe24, byteAt_drop, Nat.add_zero]
  have hbody : blob.drop (off + 3) = der ++ rest := by
    rw [← List.drop_drop, h, encodeAnchor, List.append_assoc, List.drop_left' (storeBe24_length _)]
  refine ⟨by omega, ?_, ?_, ?_⟩
  · rw [← hload, h, encodeAnchor, List.append_assoc, loadBe24_storeBe24 _ hder]
  · unfold slice
    rw [hbody, List.take_left]
  · rw [← List.drop_drop, hbody, List.drop_left]

/-- What a round reads is an encoded certificate. -/
theorem drop_of_fields {blob : Bytes} {off : ℕ} (hheader : off + 3 ≤ blob.length)
    (hfits : loadBe24 blob off ≤ blob.length - (off + 3)) :
    blob.drop off = encodeAnchor (slice blob (off + 3) (loadBe24 blob off)) ++
      blob.drop (off + 3 + loadBe24 blob off) := by
  have hlen : (slice blob (off + 3) (loadBe24 blob off)).length = loadBe24 blob off :=
    slice_length (by omega)
  have hfront : slice blob off 3 = storeBe24 (loadBe24 blob off) := slice_three (by omega)
  unfold encodeAnchor
  rw [hlen, ← hfront, slice_append_slice]
  unfold slice
  rw [Nat.add_assoc, ← List.drop_drop, List.take_append_drop]

/-- `add_trust_anchor` takes a certificate that parses while there is room, and else changes
nothing. -/
theorem addTrustAnchor_run (span : HeapSpan) (der : Bytes) (v : VerifierObject) :
    (0 < span.size ∧ v.anchors.length < 16 ∧ (∃ view, x509ParseCertificate der = .ok view) ∧
      ∃ v', VerifierObject.addTrustAnchor span der v = some (.ok (), v') ∧
        v'.anchors = v.anchors ++ [span]) ∨
    (¬ (0 < span.size ∧ v.anchors.length < 16 ∧ ∃ view, x509ParseCertificate der = .ok view) ∧
      ∃ e, VerifierObject.addTrustAnchor span der v = some (.error e, v)) := by
  unfold VerifierObject.addTrustAnchor
  rw [bind_of_ok (get_apply v)]
  by_cases hsize : span.size = 0
  · rw [if_pos hsize]
    exact .inr ⟨fun h => by omega, _, rfl⟩
  rw [if_neg hsize]
  by_cases hroom : v.anchors.length < 16
  · rw [dif_pos hroom]
    cases hparse : x509ParseCertificate der with
    | error e => exact .inr ⟨fun h => by simp at h, _, rfl⟩
    | ok view => exact .inl ⟨Nat.pos_of_ne_zero hsize, hroom, ⟨view, rfl⟩, _, rfl, rfl⟩
  · rw [dif_neg hroom]
    exact .inr ⟨fun h => hroom h.2.1, _, rfl⟩

/-! ## The loop -/

/-- The spans of encoded certificates from an offset on. -/
def spansFrom (block off : ℕ) : List Bytes → List HeapSpan
  | [] => []
  | der :: rest => ⟨block, off + 3, der.length⟩ :: spansFrom block (off + 3 + der.length) rest

/-- Certificates stand encoded at an offset, each is storable, and there is room for them. -/
structure EncodedAt (blob : Bytes) (off room : ℕ) (certificates : List Bytes) (rest : Bytes) :
    Prop where
  drop_eq : blob.drop off = certificates.flatMap encodeAnchor ++ rest
  each : ∀ der ∈ certificates, StorableOne der
  count_le : certificates.length ≤ room

/-- The first certificate stands before the others. -/
theorem encodedAt_cons {blob der rest : Bytes} {off room : ℕ} {certificates : List Bytes} :
    EncodedAt blob off (room + 1) (der :: certificates) rest ↔
      StorableOne der ∧ blob.drop off = encodeAnchor der ++ blob.drop (off + 3 + der.length) ∧
        EncodedAt blob (off + 3 + der.length) room certificates rest := by
  constructor
  · rintro ⟨hdrop, heach, hcount⟩
    obtain ⟨hder, heach⟩ := List.forall_mem_cons.mp heach
    rw [List.flatMap_cons, List.append_assoc] at hdrop
    obtain ⟨-, -, -, htail⟩ := fields_of_drop hder.bound hdrop
    exact ⟨hder, by rw [hdrop, htail], htail, heach, Nat.le_of_succ_le_succ hcount⟩
  · rintro ⟨hder, hfirst, hdrop, heach, hcount⟩
    refine ⟨?_, List.forall_mem_cons.mpr ⟨hder, heach⟩, Nat.succ_le_succ hcount⟩
    rw [hfirst, hdrop, List.flatMap_cons, List.append_assoc]

/-- A certificate adds three bytes to its own. -/
theorem length_flatMap_encodeAnchor (der : Bytes) (certificates : List Bytes) :
    ((der :: certificates).flatMap encodeAnchor).length =
      3 + der.length + (certificates.flatMap encodeAnchor).length := by
  rw [List.flatMap_cons, List.length_append, encodeAnchor, List.length_append, storeBe24_length]

/-- How the loop ends: with the certificates that stand there, or with no anchor because none do. -/
def LoopEnds (block : ℕ) (blob : Bytes) (count off : ℕ) (v : VerifierObject)
    (r : Except Error ℕ) (v' : VerifierObject) : Prop :=
  (∃ certificates rest, certificates.length = count ∧
    EncodedAt blob off (16 - v.anchors.length) certificates rest ∧
    r = .ok (off + (certificates.flatMap encodeAnchor).length) ∧
    v'.anchors = v.anchors ++ spansFrom block off certificates) ∨
  ((∃ e, r = .error e) ∧ v'.anchors = [] ∧ ∀ certificates rest, certificates.length = count →
    ¬ EncodedAt blob off (16 - v.anchors.length) certificates rest)

/-- A round that fails: the anchors are cleared. -/
theorem loopEnds_clearAndFail {block : ℕ} {blob : Bytes} {count off : ℕ} {v : VerifierObject}
    (e : Error) (w : VerifierObject) (hnone : ∀ certificates rest, certificates.length = count →
      ¬ EncodedAt blob off (16 - v.anchors.length) certificates rest) :
    ∃ r v', VerifierObject.clearAndFail e w = some (r, v') ∧
      LoopEnds block blob count off v r v' :=
  ⟨.error e, w.clearTrustAnchors, rfl, .inr ⟨⟨e, rfl⟩, rfl, hnone⟩⟩

/-- A list that is not empty has a first certificate. -/
theorem exists_first {certificates : List Bytes} {count : ℕ} (h : certificates.length = count + 1) :
    ∃ der rest, certificates = der :: rest :=
  List.exists_cons_of_length_pos (by omega)

/-- **The loop ends** with the anchors of the certificates that stand there, or without any. -/
theorem loadEntries_run (block : ℕ) (blob : Bytes) (count off : ℕ) (v : VerifierObject) :
    ∃ r v', VerifierObject.loadEntries block blob count off v = some (r, v') ∧
      LoopEnds block blob count off v r v' := by
  induction count generalizing off v with
  | zero =>
    refine ⟨.ok off, v, rfl, .inl ⟨[], blob.drop off, rfl, ⟨by simp, by simp, by simp⟩, ?_, ?_⟩⟩
    · simp
    · simp [spansFrom]
  | succ count ih =>
    -- the first of the certificates, if there are any
    have hfirst : ∀ {certificates : List Bytes} {rest : Bytes}, certificates.length = count + 1 →
        EncodedAt blob off (16 - v.anchors.length) certificates rest →
        ∃ der others, certificates = der :: others ∧ others.length = count ∧ StorableOne der ∧
          v.anchors.length < 16 ∧ off + 3 + der.length ≤ blob.length ∧
          loadBe24 blob off = der.length ∧ slice blob (off + 3) der.length = der ∧
          EncodedAt blob (off + 3 + der.length) (16 - (v.anchors.length + 1)) others rest := by
      intro certificates rest hlength h
      obtain ⟨der, others, rfl⟩ := exists_first hlength
      have hroom := h.count_le
      rw [List.length_cons] at hlength hroom
      rw [show 16 - v.anchors.length = 16 - (v.anchors.length + 1) + 1 by omega,
        encodedAt_cons] at h
      obtain ⟨hder, hdrop, htail⟩ := h
      obtain ⟨hfits, hload, hslice, -⟩ := fields_of_drop hder.bound hdrop
      exact ⟨der, others, rfl, by omega, hder, by omega, hfits, hload, hslice, htail⟩
    unfold VerifierObject.loadEntries
    by_cases hheader : off + 3 > blob.length
    · rw [if_pos hheader]
      refine loopEnds_clearAndFail _ _ fun certificates rest hlength h => ?_
      obtain ⟨der, others, -, -, -, -, hfits, -⟩ := hfirst hlength h
      omega
    rw [if_neg hheader]
    by_cases hlen : loadBe24 blob off = 0 ∨ loadBe24 blob off > blob.length - (off + 3)
    · rw [if_pos hlen]
      refine loopEnds_clearAndFail _ _ fun certificates rest hlength h => ?_
      obtain ⟨der, others, -, -, hder, -, hfits, hload, -⟩ := hfirst hlength h
      have hpos := hder.nonempty
      omega
    rw [if_neg hlen]
    rcases addTrustAnchor_run ⟨block, off + 3, loadBe24 blob off⟩
      (slice blob (off + 3) (loadBe24 blob off)) v with
      ⟨hpos, hroom, hparsed, v₁, hrun, hanchors⟩ | ⟨hrefused, e, hrun⟩
    · rw [bind_of_ok (onError_of_ok hrun)]
      obtain ⟨r, v', hloop, hends⟩ := ih (off + 3 + loadBe24 blob off) v₁
      refine ⟨r, v', hloop, ?_⟩
      have hfits : loadBe24 blob off ≤ blob.length - (off + 3) := by omega
      have hder := drop_of_fields (by omega) hfits
      have hderLen : (slice blob (off + 3) (loadBe24 blob off)).length = loadBe24 blob off :=
        slice_length (by omega)
      have hbound := loadBe24_le blob off
      unfold LoopEnds at hends
      rw [hanchors, List.length_append, List.length_singleton] at hends
      obtain ⟨certificates, rest, hlength, hencoded, rfl, hall⟩ | ⟨herror, hcleared, hnone⟩ := hends
      · refine .inl ⟨slice blob (off + 3) (loadBe24 blob off) :: certificates, rest,
          by rw [List.length_cons, hlength], ?_, ?_, ?_⟩
        · rw [show 16 - v.anchors.length = 16 - (v.anchors.length + 1) + 1 by omega,
            encodedAt_cons, hderLen]
          exact ⟨⟨by omega, by omega, hparsed⟩, hder, hencoded⟩
        · rw [length_flatMap_encodeAnchor, hderLen]
          congr 1
          omega
        · rw [hall, spansFrom, hderLen, List.append_assoc, List.singleton_append]
      · refine .inr ⟨herror, hcleared, fun certificates rest hlength h => ?_⟩
        obtain ⟨der, others, rfl, hothers, -, -, -, hload, -, htail⟩ := hfirst hlength h
        rw [← hload] at htail
        exact hnone others rest hothers htail
    · have hfail : Prog.onError (VerifierObject.addTrustAnchor ⟨block, off + 3, loadBe24 blob off⟩
          (slice blob (off + 3) (loadBe24 blob off))) VerifierObject.clearAndFail v =
          some (.error e, v.clearTrustAnchors) := onError_of_error hrun
      rw [bind_of_error hfail]
      refine ⟨_, _, rfl, .inr ⟨⟨e, rfl⟩, rfl, fun certificates rest hlength h => hrefused ?_⟩⟩
      obtain ⟨der, others, -, -, hder, hroom, -, hload, hslice, -⟩ := hfirst hlength h
      rw [hload, hslice]
      exact ⟨hder.nonempty, hroom, hder.parsed⟩

/-! ## Anchors -/

/-- The same bytes hold one list of certificates. -/
theorem encodedAt_unique {blob rest rest' : Bytes} {off room : ℕ} {certificates others : List Bytes}
    (h : EncodedAt blob off room certificates rest) (h' : EncodedAt blob off room others rest')
    (hlength : certificates.length = others.length) : certificates = others := by
  induction certificates generalizing off room others with
  | nil => exact (List.eq_nil_of_length_eq_zero hlength.symm).symm
  | cons der certificates ih =>
    obtain ⟨der', others, rfl⟩ := exists_first hlength.symm
    obtain ⟨room, rfl⟩ : ∃ n, room = n + 1 := by
      have hcount := h.count_le
      rw [List.length_cons] at hcount
      exact ⟨room - 1, by omega⟩
    obtain ⟨hder, hdrop, htail⟩ := encodedAt_cons.mp h
    obtain ⟨hder', hdrop', htail'⟩ := encodedAt_cons.mp h'
    obtain ⟨-, hload, hslice, -⟩ := fields_of_drop hder.bound hdrop
    obtain ⟨-, hload', hslice', -⟩ := fields_of_drop hder'.bound hdrop'
    rw [← hload', hload] at hslice' htail'
    rw [← hslice, hslice', ih htail htail' (Nat.succ.inj hlength)]

/-- The anchors read as the certificates. -/
theorem read_spansFrom {block off room : ℕ} {blob rest : Bytes} {certificates : List Bytes}
    (h : EncodedAt blob off room certificates rest) {heap : Heap}
    (hblock : heap.lookup block = some blob) :
    (spansFrom block off certificates).mapM heap.read = some certificates := by
  induction certificates generalizing off room with
  | nil => rfl
  | cons der certificates ih =>
    obtain ⟨room, rfl⟩ : ∃ n, room = n + 1 := by
      have hcount := h.count_le
      rw [List.length_cons] at hcount
      exact ⟨room - 1, by omega⟩
    obtain ⟨hder, hdrop, htail⟩ := encodedAt_cons.mp h
    obtain ⟨hfits, -, hslice, -⟩ := fields_of_drop hder.bound hdrop
    have hread : heap.read ⟨block, off + 3, der.length⟩ = some der := by
      unfold Heap.read
      rw [hblock]
      show (if _ then _ else _) = _
      rw [if_pos hfits, hslice]
    rw [spansFrom, List.mapM_cons, hread, ih htail]
    rfl

/-- The spans of the store are its certificates. -/
theorem anchorsAre_spansFrom {block off room : ℕ} {blob rest : Bytes} {certificates : List Bytes}
    (h : EncodedAt blob off room certificates rest) (hcount : certificates.length ≤ 16)
    {v : VerifierObject} (hv : v.anchors = spansFrom block off certificates) :
    AnchorsAre block blob v certificates := by
  intro heap hblock
  unfold VerifierObject.deref
  rw [hv, read_spansFrom h hblock]
  exact ⟨_, dif_pos hcount, rfl⟩

/-! ## The main result -/

/-- The header of a store. -/
theorem xts1_header {certificates : List Bytes} (hcount : certificates.length ≤ 16) :
    6 ≤ (xts1 certificates).length ∧ (xts1 certificates).take 4 = xts1Magic ∧
      loadBe16 (xts1 certificates) 4 = certificates.length ∧
      (xts1 certificates).drop 6 = certificates.flatMap encodeAnchor := by
  have hmagic : xts1Magic.length = 4 := rfl
  unfold xts1
  rw [List.append_assoc]
  refine ⟨?_, List.take_left' hmagic, ?_, ?_⟩
  · simp only [List.length_append, storeBe16_length]
    omega
  · rw [← Nat.add_zero 4, ← loadBe16_drop, List.drop_left' hmagic]
    exact loadBe16_storeBe16 _ (by omega) _
  · rw [show 6 = 4 + 2 from rfl, ← List.drop_drop, List.drop_left' hmagic,
      List.drop_left' (storeBe16_length _)]

/-- A store with the right magic is its header and the rest. -/
theorem eq_header {blob : Bytes} (hsize : 6 ≤ blob.length) (hmagic : blob.take 4 = xts1Magic) :
    blob = xts1Magic ++ storeBe16 (loadBe16 blob 4) ++ blob.drop 6 := by
  rw [← slice_two (by omega), ← hmagic]
  have hsplit := slice_append_slice blob 0 4 2
  unfold slice at hsplit ⊢
  rw [List.drop_zero, Nat.zero_add] at hsplit
  rw [hsplit, List.take_append_drop]

/-- A store that is not one is refused before anything changes. -/
theorem xts1_not_short {blob : Bytes} {certificates : List Bytes} (hstore : Storable certificates)
    (h : blob = xts1 certificates) : ¬ blob.length < 6 ∧ blob.take 4 = xts1Magic := by
  obtain ⟨hsize, hmagic, -⟩ := xts1_header hstore.count
  rw [h]
  exact ⟨Nat.not_lt_of_le hsize, hmagic⟩

/-- A store holds its certificates behind the header. -/
theorem encodedAt_of_xts1 {blob : Bytes} {certificates : List Bytes}
    (hstore : Storable certificates) (h : blob = xts1 certificates) :
    loadBe16 blob 4 = certificates.length ∧ EncodedAt blob 6 16 certificates [] := by
  obtain ⟨-, -, hcount, hdrop⟩ := xts1_header hstore.count
  rw [← h] at hcount hdrop
  exact ⟨hcount, by rw [hdrop, List.append_nil], hstore.each, hstore.count⟩

/-- The bytes determine the certificates. -/
theorem xts1_inj {blob : Bytes} {certificates others : List Bytes} (hstore : Storable certificates)
    (hothers : Storable others) (h : blob = xts1 certificates) (h' : blob = xts1 others) :
    certificates = others := by
  obtain ⟨hcount, hat⟩ := encodedAt_of_xts1 hstore h
  obtain ⟨hcount', hat'⟩ := encodedAt_of_xts1 hothers h'
  exact encodedAt_unique hat hat' (hcount.symm.trans hcount')

/-- How the loader ends on a blob with the right header. -/
theorem loadCompactTrustStore_run (block : ℕ) {blob : Bytes} (v : VerifierObject)
    (hsize : ¬ blob.length < 6) (hmagic : blob.take 4 = xts1Magic) :
    (∃ certificates v', Storable certificates ∧ blob = xts1 certificates ∧
      VerifierObject.loadCompactTrustStore block blob v = some (.ok certificates.length, v') ∧
      AnchorsAre block blob v' certificates) ∨
    ((∃ e v', VerifierObject.loadCompactTrustStore block blob v = some (.error e, v') ∧
      v'.anchors = []) ∧ ∀ certificates, Storable certificates → blob ≠ xts1 certificates) := by
  have hheader := eq_header (Nat.le_of_not_lt hsize) hmagic
  have hknown : ¬ blob.take 4 ≠ [0x58, 0x54, 0x53, 0x31] := not_not.mpr hmagic
  unfold VerifierObject.loadCompactTrustStore
  rw [if_neg hsize, if_neg hknown, bind_of_ok (modify_apply _ v)]
  obtain ⟨r, v', hloop, hends⟩ :=
    loadEntries_run block blob (loadBe16 blob 4) 6 v.clearTrustAnchors
  obtain ⟨certificates, rest, hlength, hat, rfl, hanchors⟩ | ⟨⟨e, rfl⟩, hcleared, hnone⟩ := hends
  · have hbytes := hat.drop_eq
    have hcount : certificates.length ≤ 16 := hat.count_le
    have hall := anchorsAre_spansFrom hat hcount (hanchors.trans (List.nil_append _))
    rw [bind_of_ok hloop]
    by_cases hend : 6 + (certificates.flatMap encodeAnchor).length ≠ blob.length
    · refine .inr ⟨⟨.badHandshake, v'.clearTrustAnchors, ?_, rfl⟩, ?_⟩
      · rw [if_pos hend]
        rfl
      · intro others hstore h
        obtain ⟨hsame, hother⟩ := encodedAt_of_xts1 hstore h
        obtain rfl := encodedAt_unique hat hother (hlength.trans hsame)
        have htotal := congrArg List.length hother.drop_eq
        rw [List.append_nil, List.length_drop] at htotal
        omega
    · refine .inl ⟨certificates, v', ⟨hcount, hat.each⟩, ?_, ?_, hall⟩
      · have hrest : rest = [] := by
          have htotal := congrArg List.length hbytes
          rw [List.length_append, List.length_drop] at htotal
          exact List.eq_nil_of_length_eq_zero (by omega)
        rw [hrest, List.append_nil] at hbytes
        rw [hheader, hbytes, ← hlength]
        rfl
      · rw [if_neg hend, hlength]
        rfl
  · rw [bind_of_error hloop]
    refine .inr ⟨⟨e, v', rfl, hcleared⟩, ?_⟩
    intro certificates hstore h
    obtain ⟨hcount, hat⟩ := encodedAt_of_xts1 hstore h
    exact hnone certificates [] hcount.symm hat

/-- **XTS1 stores**: the loader accepts exactly the encodings of storable certificates, reports
their number and leaves them as anchors in order, whatever was loaded before.  On every other
blob with the right magic it leaves no anchor and reports zero. -/
theorem trustStore_iff (block : ℕ) (blob : Bytes) (v : VerifierObject) (n : ℕ) :
    ∃ r v' n', loadCounted block blob (v, n) = some (r, (v', n')) ∧
      (∀ certificates, Storable certificates → blob = xts1 certificates →
        r = .ok () ∧ n' = certificates.length ∧ AnchorsAre block blob v' certificates) ∧
      (r = .ok () → ∃ certificates, Storable certificates ∧ blob = xts1 certificates ∧
        n' = certificates.length ∧ AnchorsAre block blob v' certificates) ∧
      (6 ≤ blob.length → blob.take 4 = xts1Magic → r ≠ .ok () → v'.anchors = [] ∧ n' = 0) := by
  unfold loadCounted
  by_cases hsize : blob.length < 6
  · unfold VerifierObject.loadCompactTrustStore
    rw [if_pos hsize]
    refine ⟨.error .invalidArgument, v, 0, rfl, ?_, nofun, fun h => by omega⟩
    intro certificates hstore h
    exact absurd hsize (xts1_not_short hstore h).1
  by_cases hmagic : blob.take 4 = xts1Magic
  · obtain ⟨certificates, v', hstore, hblob, hload, hall⟩ | ⟨⟨e, v', hload, hcleared⟩, hnone⟩ :=
      loadCompactTrustStore_run block v hsize hmagic
    · rw [hload]
      refine ⟨.ok (), v', certificates.length, rfl, ?_, fun _ => ⟨_, hstore, hblob, rfl, hall⟩,
        fun _ _ h => absurd rfl h⟩
      intro others hothers h
      obtain rfl := xts1_inj hstore hothers hblob h
      exact ⟨rfl, rfl, hall⟩
    · rw [hload]
      exact ⟨.error e, v', 0, rfl, fun c hstore h => absurd h (hnone c hstore), nofun,
        fun _ _ _ => ⟨hcleared, rfl⟩⟩
  · unfold VerifierObject.loadCompactTrustStore
    have hunknown : blob.take 4 ≠ [0x58, 0x54, 0x53, 0x31] := hmagic
    rw [if_neg hsize, if_pos hunknown]
    refine ⟨.error .badHandshake, v, 0, rfl, ?_, nofun, fun _ h => absurd h hmagic⟩
    intro certificates hstore h
    exact absurd (xts1_not_short hstore h).2 hmagic

end XboxTls.Analysis
