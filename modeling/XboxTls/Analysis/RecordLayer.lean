import XboxTls.Analysis.ByteStrings
import XboxTls.Interface.PlaintextLimit
import XboxTls.Model.Client

/-!
# Sealing and opening records

Opening with equal keys undoes sealing (`unprotect_sealedRecord`), whatever the padding
and the zeros at the end of the content, and the wrappers `protectRecord` and
`unprotectRecord` do to the client's keys what the record functions do to theirs.
-/

set_option autoImplicit false

namespace XboxTls.Analysis

open Programs Programs.Prog XboxTls.Model XboxTls.Interface

variable {P : Crypto}

/-! ## Headers -/

/-- A header says the same about a record that starts with it. -/
theorem parseRecordHeader_append {header rest : Bytes} (h : header.length = 5) :
    parseRecordHeader (header ++ rest) = parseRecordHeader header := by
  have hbyte : ∀ n, n < 5 → byteAt (header ++ rest) n = byteAt header n :=
    fun n hn => byteAt_append (by omega)
  unfold parseRecordHeader loadBe16
  rw [hbyte 0 (by omega), hbyte 1 (by omega), hbyte 2 (by omega), hbyte 3 (by omega),
    hbyte 4 (by omega), if_neg (show ¬ header.length < 5 by omega),
    if_neg (show ¬ (header ++ rest).length < 5 by rw [List.length_append]; omega)]

/-! ## Inner plaintexts -/

/-- The plaintext is the content, its type and the padding. -/
theorem innerPlaintext_length (t : UInt8) (content : Bytes) (padding : ℕ) :
    (innerPlaintext t content padding).length = content.length + 1 + padding := by
  simp only [innerPlaintext, List.length_append, List.length_singleton, List.length_replicate]

/-- Stripping zeros stops at the type byte. -/
theorem stripZeros_innerPlaintext (t : UInt8) (ht : t ≠ 0) (content : Bytes) (padding : ℕ) :
    stripZeros (innerPlaintext t content padding) = content ++ [t] := by
  unfold stripZeros innerPlaintext
  induction padding with
  | zero =>
    rw [List.replicate_zero, List.append_nil, List.rdropWhile_concat_neg]
    simpa using ht
  | succ n ih =>
    rw [List.replicate_succ', ← List.append_assoc, List.rdropWhile_concat_pos]
    · exact ih
    · simp

/-- The padding is stripped, and the type split off. -/
theorem splitInner_innerPlaintext (t : UInt8) (hlo : 20 ≤ t) (hhi : t ≤ 23) (content : Bytes)
    (padding : ℕ) : splitInner (innerPlaintext t content padding) = .ok (t, content) := by
  have ht : t ≠ 0 := by
    rintro rfl
    exact absurd hlo (by decide)
  unfold splitInner
  rw [stripZeros_innerPlaintext t ht]
  simp only [List.length_append, List.length_singleton, List.getLastD_concat,
    List.dropLast_concat]
  rw [if_neg (by omega), if_neg]
  rintro (h | h)
  · exact absurd hlo (UInt8.not_le.mpr h)
  · exact absurd hhi (UInt8.not_le.mpr h)

/-! ## Sealed records -/

/-- The fragment length of a sealed record. -/
def fragLength (content : Bytes) (padding : ℕ) : ℕ := content.length + 1 + padding + 16

/-- The checks of `protect_record_aes128_gcm`, one by one. -/
theorem checkProtect_ok {t : UInt8} {content : Bytes} {padding capacity : ℕ}
    (h : checkProtect t content padding capacity = .ok ()) :
    20 ≤ t ∧ t ≤ 23 ∧ content.length ≤ 16384 ∧ padding ≤ 255 ∧
      fragLength content padding ≤ 16640 := by
  unfold checkProtect at h
  dsimp only at h
  split at h
  · cases h
  rename_i hrange
  split at h
  · cases h
  rename_i hsize
  split at h
  · cases h
  rename_i hfrag
  push Not at hrange hsize
  exact ⟨UInt8.not_lt.mp hrange.1, UInt8.not_lt.mp hrange.2, hsize.1, hsize.2,
    by unfold fragLength; omega⟩

/-- A header has five bytes. -/
theorem protectedHeader_length (n : ℕ) : (protectedHeader n).length = 5 := rfl

/-- A record is its header and the fragment. -/
theorem sealedRecord_length (keys : TrafficKeys) (t : UInt8) (content : Bytes) (padding : ℕ) :
    (sealedRecord P keys t content padding).length = 5 + fragLength content padding := by
  unfold sealedRecord fragLength
  simp only [List.length_append, protectedHeader_length, P.encrypt_length,
    innerPlaintext_length]
  rw [(P.aes128GcmEncrypt _ _ _ _).2.property]
  omega

/-- The header ends with the length of the fragment. -/
theorem loadBe16_protectedHeader {n : ℕ} (hn : n ≤ 16640) (rest : Bytes) :
    loadBe16 (protectedHeader n ++ rest) 3 = n := by
  simp only [loadBe16, byteAt, protectedHeader, storeBe16, List.cons_append, List.nil_append,
    List.getD_cons_succ, List.getD_cons_zero, UInt8.toNat_ofNat']
  omega

/-- The header of a sealed record is parsed as it was written. -/
theorem parseRecordHeader_protected (n : ℕ) (hn : n ≤ 16640) (rest : Bytes) :
    parseRecordHeader (protectedHeader n ++ rest) = .ok ⟨23, 0x0303, n⟩ := by
  unfold parseRecordHeader
  rw [loadBe16_protectedHeader hn, if_neg, if_neg (by omega)]
  · simp [byteAt, loadBe16, protectedHeader, contentApplicationData]
  · simp only [List.length_append, protectedHeader_length]
    omega

/-- What a record of a protected header, a ciphertext and a tag is decrypted from. -/
theorem decryptRecord_frame (keys : TrafficKeys) (ct : Bytes) (tag : FixedBytes 16)
    (capacity : ℕ) (hpos : 1 ≤ ct.length) (hfrag : ct.length + 16 ≤ 16640)
    (hcap : ct.length ≤ capacity) :
    decryptRecord P keys (protectedHeader (ct.length + 16) ++ ct ++ tag.val) capacity =
      P.aes128GcmDecrypt keys.key keys.nonce (protectedHeader (ct.length + 16)) ct tag := by
  have hlen : (protectedHeader (ct.length + 16) ++ (ct ++ tag.val)).length =
      5 + (ct.length + 16) := by
    simp only [List.length_append, protectedHeader_length, tag.property]
  have haad : slice (protectedHeader (ct.length + 16) ++ (ct ++ tag.val)) 0 5 =
      protectedHeader (ct.length + 16) := slice_append_left (protectedHeader_length _)
  have hct : slice (protectedHeader (ct.length + 16) ++ (ct ++ tag.val)) 5 ct.length = ct := by
    rw [slice_append_right (protectedHeader_length _)]
    exact List.take_left
  have htag : slice (protectedHeader (ct.length + 16) ++ (ct ++ tag.val)) (5 + ct.length) 16 =
      tag.val := by
    rw [← List.append_assoc, slice_append_right]
    · exact List.take_of_length_le (by rw [tag.property])
    · rw [List.length_append, protectedHeader_length]
  have htagBytes : FixedBytes.ofBytes 16 tag.val = tag :=
    Subtype.ext (FixedBytes.ofBytes_val_of_length _ tag.property)
  unfold decryptRecord
  rw [List.append_assoc, parseRecordHeader_protected _ hfrag, except_ok_bind,
    if_neg (by simp [contentApplicationData]), if_neg (by rw [hlen]; dsimp only; omega),
    if_neg (by dsimp only; omega)]
  simp only [Nat.add_sub_cancel, haad, hct, htag, htagBytes]

/-- Decrypting a sealed record gives back what was encrypted. -/
theorem decryptRecord_sealedRecord (keys : TrafficKeys) (t : UInt8) (content : Bytes)
    (padding capacity : ℕ) (hfrag : fragLength content padding ≤ 16640)
    (hcap : fragLength content padding ≤ capacity + 16) :
    decryptRecord P keys (sealedRecord P keys t content padding) capacity =
      .ok (innerPlaintext t content padding) := by
  have hinner := innerPlaintext_length t content padding
  unfold fragLength at hfrag hcap
  unfold sealedRecord
  dsimp only
  generalize henc : P.aes128GcmEncrypt keys.key keys.nonce
    (protectedHeader ((innerPlaintext t content padding).length + 16))
    (innerPlaintext t content padding) = enc
  have hct : enc.1.length = (innerPlaintext t content padding).length := by
    rw [← henc, P.encrypt_length]
  rw [← hct] at henc ⊢
  have hround := P.decrypt_encrypt keys.key keys.nonce (protectedHeader (enc.1.length + 16))
    (innerPlaintext t content padding)
  rw [henc] at hround
  rw [decryptRecord_frame keys enc.1 enc.2 capacity (by omega) (by omega) (by omega), hround]

/-- What follows a whole record is not read. -/
theorem decryptRecord_append (keys : TrafficKeys) {record : Bytes} (rest : Bytes) (capacity : ℕ)
    (hlen : 5 + loadBe16 record 3 ≤ record.length) :
    decryptRecord P keys (record ++ rest) capacity = decryptRecord P keys record capacity := by
  have hbyte : ∀ n, n < 5 → byteAt (record ++ rest) n = byteAt record n :=
    fun n hn => byteAt_append (by omega)
  have hload : loadBe16 (record ++ rest) 3 = loadBe16 record 3 := loadBe16_append (by omega)
  have hparse : parseRecordHeader (record ++ rest) = parseRecordHeader record := by
    unfold parseRecordHeader
    rw [hload, if_neg (by rw [List.length_append]; omega), if_neg (by omega : ¬ record.length < 5)]
    unfold loadBe16
    rw [hbyte 0 (by omega), hbyte 1 (by omega), hbyte 2 (by omega)]
  unfold decryptRecord
  rw [hparse]
  cases hheader : parseRecordHeader record with
  | error e => simp only [except_error_bind]
  | ok h =>
    have hsize : h.length = loadBe16 record 3 := by
      unfold parseRecordHeader at hheader
      split at hheader
      · cases hheader
      · split at hheader <;> cases hheader
        rfl
    simp only [except_ok_bind, List.length_append]
    by_cases hshort : h.length < 17
    · rw [if_pos (Or.inr hshort), if_pos (Or.inr hshort)]
    · rw [slice_append_of_le (by omega), slice_append_of_le (by omega),
        slice_append_of_le (by omega),
        if_neg (by omega : ¬ (record.length + rest.length < 5 + h.length ∨ h.length < 17)),
        if_neg (by omega : ¬ (record.length < 5 + h.length ∨ h.length < 17))]

/-- A sealed record is its header and a body of the length that the header gives. -/
theorem sealedRecord_frame (keys : TrafficKeys) (t : UInt8) (content : Bytes) (padding : ℕ) :
    ∃ body, body.length = fragLength content padding ∧
      sealedRecord P keys t content padding =
        [contentApplicationData, 3, 3] ++ storeBe16 body.length ++ body := by
  have hlen := P.encrypt_length keys.key keys.nonce
    (protectedHeader ((innerPlaintext t content padding).length + 16))
    (innerPlaintext t content padding)
  unfold sealedRecord
  dsimp only
  generalize P.aes128GcmEncrypt keys.key keys.nonce
    (protectedHeader ((innerPlaintext t content padding).length + 16))
    (innerPlaintext t content padding) = enc at hlen ⊢
  have hbody : (enc.1 ++ enc.2.val).length = (innerPlaintext t content padding).length + 16 := by
    rw [List.length_append, hlen, enc.2.property]
  refine ⟨enc.1 ++ enc.2.val, ?_, ?_⟩
  · rw [hbody, innerPlaintext_length]
    rfl
  · rw [hbody, List.append_assoc]
    rfl

/-- The plaintext in a sealed record. -/
theorem innerLength_sealedRecord (keys : TrafficKeys) (t : UInt8) {content : Bytes} {padding : ℕ}
    (hfrag : fragLength content padding ≤ 16640) :
    innerLength (sealedRecord P keys t content padding) = content.length + 1 + padding := by
  have hinner := innerPlaintext_length t content padding
  unfold fragLength at hfrag
  unfold innerLength sealedRecord
  dsimp only
  rw [List.append_assoc, loadBe16_protectedHeader (by omega), hinner, Nat.add_sub_cancel]

/-- **Opening undoes sealing**, and both advance their keys. -/
theorem unprotect_sealedRecord (keys : TrafficKeys) (t : UInt8) (hlo : 20 ≤ t) (hhi : t ≤ 23)
    (content : Bytes) (padding : ℕ) (hfrag : fragLength content padding ≤ 16640) :
    unprotectRecordAes128Gcm P keys (sealedRecord P keys t content padding) 16640 =
      .ok ⟨t, content, keys.advance⟩ := by
  unfold unprotectRecordAes128Gcm
  rw [decryptRecord_sealedRecord keys t content padding 16640 hfrag (by omega), except_ok_bind,
    splitInner_innerPlaintext t hlo hhi, except_ok_bind]
  rfl

/-! ## The wrappers -/

section Wrappers

variable {W : Type} (E : Env W)

/-- Keys that were set are read. -/
@[simp] theorem keys_setKeys_self (c : TlsClient P) (slot : KeySlot) (k : TrafficKeys) :
    (c.setKeys slot k).keys slot = k := by
  cases slot <;> rfl

/-- Other keys stay. -/
theorem keys_setKeys_of_ne (c : TlsClient P) {slot slot' : KeySlot} (h : slot' ≠ slot)
    (k : TrafficKeys) : (c.setKeys slot k).keys slot' = c.keys slot' := by
  cases slot <;> cases slot' <;> first | rfl | exact absurd rfl h

/-- The state after a record was sealed in a slot; the allocator has moved the world on. -/
def afterSeal (s : System P W) (slot : KeySlot) (w : W) (record : Bytes) : System P W :=
  { client := s.client.setKeys slot (s.client.keys slot).advance
    world := w
    trace := s.trace ++ [.sealed slot (s.client.keys slot) record] }

/-- `protectRecord` refuses, runs out of memory, or seals the content with the keys of its
slot. -/
theorem wp_protectRecord_malloc (slot : KeySlot) (t : UInt8) (content : Bytes) (padding : ℕ)
    {Q : Except Error Bytes → System P W → Prop} {s : System P W}
    (hrefused : ∀ e, checkProtect t content padding 16645 = .error e → Q (.error e) s)
    (hmemory : (E.malloc (content.length + 1 + padding) s.world).1 = false →
      Q (.error .crypto) { s with world := (E.malloc (content.length + 1 + padding) s.world).2 })
    (hok : checkProtect t content padding 16645 = .ok () →
      Q (.ok (sealedRecord P (s.client.keys slot) t content padding))
        (afterSeal s slot (E.malloc (content.length + 1 + padding) s.world).2
          (sealedRecord P (s.client.keys slot) t content padding))) :
    wp (protectRecord E slot t content padding) Q s := by
  unfold protectRecord
  simp only [wp_bind, wp_getClient, thenWp_ok, wp_lift]
  cases hcheck : checkProtect t content padding 16645 with
  | error e => exact hrefused e hcheck
  | ok u =>
    simp only [thenWp_ok, wp_bind, wp_updateWorld, wp_lift, protectRecordAes128Gcm, hcheck]
    cases hm : (E.malloc (content.length + 1 + padding) s.world).1 with
    | false => exact hmemory hm
    | true =>
      show wp _ _ _
      simp only [wp_bind, wp_modifyClient, thenWp_ok, wp_emit, wp_pure]
      exact hok hcheck

/-- `protectRecord` refuses, or seals the content with the keys of its slot. -/
theorem wp_protectRecord (slot : KeySlot) (t : UInt8) (content : Bytes) (padding : ℕ)
    {Q : Except Error Bytes → System P W → Prop} {s : System P W}
    (herr : ∀ e w, Q (.error e) { s with world := w })
    (hok : ∀ w, checkProtect t content padding 16645 = .ok () →
      Q (.ok (sealedRecord P (s.client.keys slot) t content padding))
        (afterSeal s slot w (sealedRecord P (s.client.keys slot) t content padding))) :
    wp (protectRecord E slot t content padding) Q s :=
  wp_protectRecord_malloc E slot t content padding (fun e _ => herr e s.world)
    (fun _ => herr .crypto _) (hok _)

/-- Sealing a content that passes the checks, when memory is there. -/
theorem protectRecord_run {E : Env W} (slot : KeySlot) (t : UInt8) (content : Bytes)
    (padding : ℕ) (s : System P W) (hcheck : checkProtect t content padding 16645 = .ok ())
    (hmemory : (E.malloc (content.length + 1 + padding) s.world).1 = true) :
    protectRecord E slot t content padding s =
      some (.ok (sealedRecord P (s.client.keys slot) t content padding),
        afterSeal s slot (E.malloc (content.length + 1 + padding) s.world).2
          (sealedRecord P (s.client.keys slot) t content padding)) := by
  simp only [protectRecord, bind_apply, getClient, lift_apply, hcheck, updateWorld, hmemory,
    protectRecordAes128Gcm, except_ok_bind, Bool.true_eq_false, if_false, modifyClient, emit,
    pure_apply, afterSeal]

/-- The state after a record was opened in a slot. -/
def afterOpen (s : System P W) (slot : KeySlot) (record : Bytes) : System P W :=
  { s with
    client := s.client.setKeys slot (s.client.keys slot).advance
    trace := s.trace ++ [.opened slot (s.client.keys slot) record] }

/-- Opening a record that was sealed with the keys of the slot. -/
theorem unprotectRecord_run (slot : KeySlot) (t : UInt8) (hlo : 20 ≤ t) (hhi : t ≤ 23)
    (content : Bytes) (padding : ℕ) (s : System P W)
    (hfrag : fragLength content padding ≤ 16640) :
    unprotectRecord slot (sealedRecord P (s.client.keys slot) t content padding) s =
      some (.ok (t, content),
        afterOpen s slot (sealedRecord P (s.client.keys slot) t content padding)) := by
  simp only [unprotectRecord, bind_apply, getClient, lift_apply,
    decryptRecord_sealedRecord (s.client.keys slot) t content padding 16640 hfrag (by omega),
    splitInner_innerPlaintext t hlo hhi, emit, modifyClient, pure_apply, afterOpen]

/-- `unprotectRecord` opens the record with the keys of its slot, or changes at most the
trace. -/
theorem wp_unprotectRecord (slot : KeySlot) (record : Bytes)
    {Q : Except Error (UInt8 × Bytes) → System P W → Prop} {s : System P W}
    (hrefused : ∀ e, Q (.error e) s)
    (hinner : ∀ e plaintext, decryptRecord P (s.client.keys slot) record 16640 = .ok plaintext →
      Q (.error e)
        { s with trace := s.trace ++ [.opened slot (s.client.keys slot) record] })
    (hok : ∀ t content,
      unprotectRecordAes128Gcm P (s.client.keys slot) record 16640 =
        .ok ⟨t, content, (s.client.keys slot).advance⟩ →
      Q (.ok (t, content)) (afterOpen s slot record)) :
    wp (unprotectRecord slot record) Q s := by
  unfold unprotectRecord
  simp only [wp_bind, wp_getClient, thenWp_ok, wp_lift]
  cases hdec : decryptRecord P (s.client.keys slot) record 16640 with
  | error e => exact hrefused e
  | ok plaintext =>
    simp only [thenWp_ok, wp_bind, wp_emit, wp_lift]
    cases hsplit : splitInner plaintext with
    | error e => exact hinner e plaintext hdec
    | ok tc =>
      obtain ⟨t, content⟩ := tc
      simp only [thenWp_ok, wp_bind, wp_modifyClient, wp_pure]
      refine hok t content ?_
      unfold unprotectRecordAes128Gcm
      rw [hdec, except_ok_bind, hsplit, except_ok_bind]
      rfl

/-- The system after the keys of a slot were derived. -/
def afterDerive (s : System P W) (slot : KeySlot) (keys : TrafficKeys) : System P W :=
  { s with
    client := s.client.setKeys slot keys
    trace := s.trace ++ [.keysDerived slot keys] }

/-- `deriveKeys` with the keys that the secret gives. -/
theorem deriveKeys_run (slot : KeySlot) {secret : FixedBytes 32} {keys : TrafficKeys}
    (hkeys : deriveTrafficKeysSha256 P secret = .ok keys) (s : System P W) :
    deriveKeys slot secret s = some (.ok (), afterDerive s slot keys) := by
  unfold deriveKeys
  rw [hkeys]
  rfl

/-- The keys that a secret gives start at sequence number zero. -/
theorem wp_deriveKeys (slot : KeySlot) (secret : FixedBytes 32)
    {Q : Except Error Unit → System P W → Prop} {s : System P W}
    (h : ∀ keys, keys.sequenceNumber = 0 → Q (.ok ()) (afterDerive s slot keys)) :
    wp (deriveKeys slot secret) Q s := by
  obtain ⟨keys, hkeys, hseq⟩ := deriveTrafficKeysSha256_isOk P secret
  intro r s' hrun
  rw [deriveKeys_run slot hkeys] at hrun
  cases hrun
  exact h keys hseq

end Wrappers

end XboxTls.Analysis
