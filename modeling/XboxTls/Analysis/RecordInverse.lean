import XboxTls.Analysis.AesGcm
import XboxTls.Analysis.RecordLayer
import XboxTls.Interface.RecordStream

/-!
# Sealing and opening are inverse

`unprotect_sealedRecord` is one direction.  For the other, the decrypted bytes are the
content, a type byte and zeros, and the lengths in the header say how many, so that sealing
the content again with as many zeros gives the record back.  Both hold for the code's own
AES-128-GCM (`recordInverse_aesGcm`).
-/

set_option autoImplicit false

namespace XboxTls.Analysis

open Programs XboxTls.Model XboxTls.Interface

variable (P : Crypto)

/-! ## The calls and the functions without keys -/

/-- The call is `protect_record_aes128_gcm` of the model, and only a success moves the keys. -/
theorem protectRecordCall_eq (args : ProtectArgs) (keys : TrafficKeys) :
    protectRecordCall P args keys =
      if args.null then (.error .invalidArgument, keys)
      else match protectRecordAes128Gcm P keys args.innerType args.content args.padding
          args.capacity args.memory with
        | .ok (record, keys') => (.ok record, keys')
        | .error e => (.error e, keys) := by
  have hinner := innerPlaintext_length args.innerType args.content args.padding
  unfold protectRecordCall protectRecordAes128Gcm checkProtect sealedRecord
  dsimp only
  rw [hinner]
  split_ifs <;> rfl

/-- The call is `unprotect_record_aes128_gcm` of the model, and only a success moves the
keys. -/
theorem unprotectRecordCall_eq (null : Bool) (record : Bytes) (capacity : ℕ)
    (keys : TrafficKeys) :
    unprotectRecordCall P null record capacity keys =
      if null then (.error .invalidArgument, keys)
      else match unprotectRecordAes128Gcm P keys record capacity with
        | .ok o => (.ok (o.innerType, o.content), o.keys)
        | .error e => (.error e, keys) := by
  unfold unprotectRecordCall unprotectRecordAes128Gcm decryptRecord splitInner
  cases null with
  | true => rfl
  | false =>
    cases parseRecordHeader record with
    | error e => rfl
    | ok h =>
      simp only [except_ok_bind, Bool.false_eq_true, if_false]
      split_ifs with h1 h2 h3
      · rfl
      · rfl
      · rfl
      · cases P.aes128GcmDecrypt keys.key keys.nonce (slice record 0 5)
          (slice record 5 (h.length - 16))
          (FixedBytes.ofBytes 16 (slice record (5 + (h.length - 16)) 16)) with
        | error e => rfl
        | ok plaintext =>
          simp only [except_ok_bind]
          split_ifs <;> rfl

/-- A call that seals passed the checks and moved the keys. -/
theorem protectRecordCall_ok {args : ProtectArgs} {keys keys' : TrafficKeys} {record : Bytes}
    (h : protectRecordCall P args keys = (.ok record, keys')) :
    checkProtect args.innerType args.content args.padding args.capacity = .ok () ∧
      record = sealedRecord P keys args.innerType args.content args.padding ∧
      keys' = keys.advance := by
  rw [protectRecordCall_eq] at h
  unfold protectRecordAes128Gcm at h
  cases hcheck : checkProtect args.innerType args.content args.padding args.capacity with
  | error e =>
    rw [hcheck] at h
    split at h <;> cases h
  | ok u =>
    rw [hcheck, except_ok_bind] at h
    split at h
    · cases h
    · by_cases hmemory : args.memory = false
      · rw [if_pos hmemory] at h
        cases h
      · rw [if_neg hmemory] at h
        cases h
        exact ⟨rfl, rfl, rfl⟩

/-- A call that opens decrypted the record and moved the keys. -/
theorem unprotectRecordCall_ok {record content : Bytes} {capacity : ℕ} {t : UInt8}
    {keys keys' : TrafficKeys}
    (h : unprotectRecordCall P false record capacity keys = (.ok (t, content), keys')) :
    ∃ plaintext, decryptRecord P keys record capacity = .ok plaintext ∧
      splitInner plaintext = .ok (t, content) ∧ keys' = keys.advance := by
  rw [unprotectRecordCall_eq, if_neg (by decide)] at h
  unfold unprotectRecordAes128Gcm at h
  cases hdec : decryptRecord P keys record capacity with
  | error e =>
    rw [hdec] at h
    cases h
  | ok plaintext =>
    rw [hdec, except_ok_bind] at h
    cases hsplit : splitInner plaintext with
    | error e =>
      rw [hsplit] at h
      cases h
    | ok tc =>
      rw [hsplit, except_ok_bind] at h
      cases h
      exact ⟨plaintext, rfl, hsplit, rfl⟩

/-! ## From the record back to what was sealed -/

/-- A split plaintext is its content, the type byte and zeros. -/
theorem innerPlaintext_of_splitInner {plaintext content : Bytes} {t : UInt8}
    (h : splitInner plaintext = .ok (t, content)) :
    20 ≤ t ∧ t ≤ 23 ∧ ∃ n, plaintext = innerPlaintext t content n := by
  unfold splitInner at h
  dsimp only at h
  by_cases hempty : (stripZeros plaintext).length = 0
  · rw [if_pos hempty] at h
    cases h
  · rw [if_neg hempty] at h
    split at h
    · cases h
    · rename_i hrange
      have hne : stripZeros plaintext ≠ [] := by
        intro hnil
        exact hempty (by rw [hnil]; rfl)
      cases h
      refine ⟨UInt8.not_lt.mp fun hlt => hrange (Or.inl hlt),
        UInt8.not_lt.mp fun hlt => hrange (Or.inr hlt), (plaintext.rtakeWhile (· = 0)).length, ?_⟩
      have hzeros : plaintext.rtakeWhile (· = 0) =
          List.replicate (plaintext.rtakeWhile (· = 0)).length 0 := by
        apply List.eq_replicate_of_mem
        intro x hx
        simpa using List.mem_rtakeWhile_imp hx
      have hlast : (stripZeros plaintext).dropLast ++ [(stripZeros plaintext).getLastD 0] =
          stripZeros plaintext := by
        rw [List.getLastD_eq_getLast?, List.getLast?_eq_some_getLast hne, Option.getD_some]
        exact List.dropLast_append_getLast hne
      unfold innerPlaintext
      rw [hlast, ← hzeros]
      exact List.rdropWhile_append_rtakeWhile.symm

/-- The header that was read is the one that is written. -/
theorem slice_header {record : Bytes} (h5 : 5 ≤ record.length)
    (htype : byteAt record 0 = contentApplicationData) (hversion : loadBe16 record 1 = 0x0303) :
    slice record 0 5 = protectedHeader (loadBe16 record 3) := by
  have hbytes : slice record 0 5 =
      [byteAt record 0, byteAt record 1, byteAt record 2, byteAt record 3, byteAt record 4] := by
    rcases record with _ | ⟨a, _ | ⟨b, _ | ⟨c, _ | ⟨d, _ | ⟨e, rest⟩⟩⟩⟩⟩
    case cons.cons.cons.cons.cons => rfl
    all_goals
      simp only [List.length_nil, List.length_cons] at h5
      omega
  have hlo := (byteAt record 2).toNat_lt
  have hsum : (byteAt record 1).toNat * 256 + (byteAt record 2).toNat = 771 := hversion
  have hmajorNat : (byteAt record 1).toNat = 3 := by omega
  have hminorNat : (byteAt record 2).toNat = 3 := by omega
  have hmajor : byteAt record 1 = 3 := UInt8.toNat_inj.mp hmajorNat
  have hminor : byteAt record 2 = 3 := UInt8.toNat_inj.mp hminorNat
  rw [hbytes, htype, hmajor, hminor]
  unfold protectedHeader
  rw [storeBe16_loadBe16]
  rfl

/-- The parts of a record that was decrypted; what follows it was not read. -/
theorem parts_of_decryptRecord {keys : TrafficKeys} {record plaintext : Bytes} {capacity : ℕ}
    (h : decryptRecord P keys record capacity = .ok plaintext) :
    loadBe16 record 3 = plaintext.length + 16 ∧ plaintext.length + 16 ≤ 16640 ∧
      plaintext.length ≤ capacity ∧
      ∃ ct tag, record.take (5 + loadBe16 record 3) =
          protectedHeader (plaintext.length + 16) ++ ct ++ tag.val ∧
        P.aes128GcmEncrypt keys.key keys.nonce (protectedHeader (plaintext.length + 16))
          plaintext = (ct, tag) := by
  unfold decryptRecord parseRecordHeader at h
  split at h
  · cases h
  split at h
  · cases h
  rename_i h5 hmax
  rw [except_ok_bind] at h
  dsimp only at h
  split at h
  · cases h
  split at h
  · cases h
  split at h
  · cases h
  rename_i hhead hsize hcap
  push Not at hhead hsize hcap
  obtain ⟨htype, hversion⟩ := hhead
  have henc := P.encrypt_decrypt _ _ _ _ _ _ h
  have hct : (slice record 5 (loadBe16 record 3 - 16)).length = loadBe16 record 3 - 16 := by
    unfold slice
    rw [List.length_take, List.length_drop]
    omega
  have hplain : plaintext.length = loadBe16 record 3 - 16 := by
    rw [← hct]
    exact P.decrypt_length h
  have hload : plaintext.length + 16 = loadBe16 record 3 := by omega
  have htaglen : (slice record (5 + (loadBe16 record 3 - 16)) 16).length = 16 := by
    unfold slice
    rw [List.length_take, List.length_drop]
    omega
  have hheader := slice_header (by omega) htype hversion
  have htotal : 5 + (loadBe16 record 3 - 16) + 16 = 5 + loadBe16 record 3 := by omega
  have hwhole : slice record 0 (5 + (loadBe16 record 3 - 16) + 16) =
      record.take (5 + loadBe16 record 3) := by
    rw [htotal]
    rfl
  rw [hload, ← hheader]
  refine ⟨rfl, by omega, by omega, _, _, ?_, henc⟩
  rw [FixedBytes.ofBytes_val_of_length _ htaglen]
  have hfront := slice_append_slice record 0 5 (loadBe16 record 3 - 16)
  have hback := slice_append_slice record 0 (5 + (loadBe16 record 3 - 16)) 16
  rw [Nat.zero_add] at hfront hback
  rw [hfront, hback, hwhole]

/-! ## The two calls undo each other -/

/-- Opening what a call sealed, into a buffer for the content, the type byte and the
padding. -/
theorem unprotectRecordCall_sealed {args : ProtectArgs} {keys keys' : TrafficKeys}
    {record : Bytes} (h : protectRecordCall P args keys = (.ok record, keys')) {n : ℕ}
    (hcap : args.content.length + 1 + args.padding ≤ n) :
    unprotectRecordAes128Gcm P keys record n =
      .ok ⟨args.innerType, args.content, keys'⟩ := by
  obtain ⟨hcheck, rfl, rfl⟩ := protectRecordCall_ok P h
  obtain ⟨hlo, hhi, -, -, hfrag⟩ := checkProtect_ok hcheck
  unfold unprotectRecordAes128Gcm
  rw [decryptRecord_sealedRecord keys _ _ _ n hfrag (by unfold fragLength; omega),
    except_ok_bind, splitInner_innerPlaintext _ hlo hhi, except_ok_bind]
  rfl

/-- Records sealed in order are opened in order. -/
theorem openAll_protectAll (keys : TrafficKeys) (argss : List ProtectArgs) (records : List Bytes)
    (h : protectAll P keys argss = .ok records) :
    openAll P keys records = .ok (argss.map fun args => (args.innerType, args.content)) := by
  induction argss generalizing keys records with
  | nil =>
    cases h
    rfl
  | cons args rest ih =>
    unfold protectAll at h
    generalize hcall : protectRecordCall P args keys = call at h
    obtain ⟨r, keys'⟩ := call
    cases r with
    | error e => cases h
    | ok record =>
      rw [except_ok_bind] at h
      dsimp only at h
      cases hrest : protectAll P keys' rest with
      | error e =>
        rw [hrest] at h
        cases h
      | ok records' =>
        rw [hrest, except_ok_bind] at h
        cases h
        obtain ⟨hcheck, -, -⟩ := protectRecordCall_ok P hcall
        obtain ⟨-, -, -, -, hfrag⟩ := checkProtect_ok hcheck
        have hopen := unprotectRecordCall_sealed P hcall (n := 16640)
          (by unfold fragLength at hfrag; omega)
        unfold openAll
        rw [hopen, except_ok_bind]
        dsimp only
        rw [ih keys' records' hrest, except_ok_bind]
        rfl

/-- **Sealing what was opened gives the record back**, when nothing stands behind it. -/
theorem protectRecordCall_opened {keys keys' : TrafficKeys} {record content : Bytes}
    {capacity room : ℕ} {t : UInt8}
    (h : unprotectRecordCall P false record capacity keys = (.ok (t, content), keys'))
    (hlen : record.length = 5 + loadBe16 record 3) (hcontent : content.length ≤ 16384)
    (hpadding : zeroPadding record content ≤ 255) (hroom : record.length ≤ room) :
    protectRecordCall P ⟨false, t, content, zeroPadding record content, room, true⟩ keys =
      (.ok record, keys') := by
  obtain ⟨plaintext, hdec, hsplit, rfl⟩ := unprotectRecordCall_ok P h
  obtain ⟨hload, hmax, -, ct, tag, hrecord, henc⟩ := parts_of_decryptRecord P hdec
  rw [List.take_of_length_le (by omega)] at hrecord
  obtain ⟨hlo, hhi, n, hplain⟩ := innerPlaintext_of_splitInner hsplit
  have hsize := innerPlaintext_length t content n
  rw [← hplain] at hsize
  have hn : zeroPadding record content = n := by
    unfold zeroPadding
    omega
  rw [hn] at hpadding ⊢
  rw [hload, hsize] at hlen
  unfold protectRecordCall
  dsimp only
  rw [if_neg (by decide), if_neg, if_neg (by omega), if_neg (by omega), if_neg (by omega),
    if_neg (by decide), ← hplain, ← hsize, henc, ← hrecord]
  rintro (hlt | hlt)
  · exact absurd hlo (UInt8.not_le.mpr hlt)
  · exact absurd hhi (UInt8.not_le.mpr hlt)

/-- Sealing and opening are inverse for every cipher that keeps its laws. -/
theorem recordInverse : RecordInverse P where
  opens keys keys' args record h := by
    obtain ⟨-, -, hkeys⟩ := protectRecordCall_ok P h
    refine ⟨by rw [hkeys]; rfl, ?_⟩
    intro capacity hcap
    rw [unprotectRecordCall_eq, if_neg (by decide), unprotectRecordCall_sealed P h hcap]
  opensAll := openAll_protectAll P
  reseals keys keys' record capacity t content h hlen hcontent hpadding room hroom :=
    protectRecordCall_opened P h hlen hcontent hpadding hroom
  protectFails keys keys' args e h := by
    rw [protectRecordCall_eq] at h
    split at h
    · cases h
      rfl
    · split at h
      · cases h
      · cases h
        rfl
  unprotectFails keys keys' null record capacity e h := by
    rw [unprotectRecordCall_eq] at h
    split at h
    · cases h
      rfl
    · split at h
      · cases h
      · cases h
        rfl

/-- **Protect and unprotect are inverse** with the code's own AES-128-GCM. -/
theorem recordInverse_aesGcm : RecordInverse (withAesGcm P) := recordInverse (withAesGcm P)

end XboxTls.Analysis
