import XboxTls.Analysis.GcmStandard
import XboxTls.Analysis.NonceUse
import XboxTls.Interface.Keystream

/-!
# No keystream block comes twice

The block cipher is a permutation and the nonces of a group are different, so are the blocks that
it gives for them: the hash key, the blocks that mask the tags and all blocks of the keystreams.
-/

set_option autoImplicit false

namespace XboxTls.Analysis

open Programs XboxTls.Model XboxTls.Interface
open Interface.AesGcm (counter cipherInputs)

/-! ## Different inputs -/

/-- A counter block determines the nonce and the counter. -/
theorem counter_injective {nonce nonce' : FixedBytes 12} {j j' : ℕ} (hj : j < 2 ^ 32)
    (hj' : j' < 2 ^ 32) (h : counter nonce j = counter nonce' j') : nonce = nonce' ∧ j = j' := by
  have hval : nonce.val ++ toOctets 4 j = nonce'.val ++ toOctets 4 j' := congrArg Subtype.val h
  obtain ⟨hnonce, hoctets⟩ := List.append_inj hval (by rw [nonce.property, nonce'.property])
  have hnumber := congrArg ofOctets hoctets
  rw [ofOctets_toOctets, ofOctets_toOctets] at hnumber
  norm_num at hj hj' hnumber
  exact ⟨Subtype.ext hnonce, by omega⟩

/-- No counter block is the block of the hash key. -/
theorem counter_ne_zero (nonce : FixedBytes 12) {j : ℕ} (hpos : 0 < j) (hj : j < 2 ^ 32) :
    counter nonce j ≠ FixedBytes.zero 16 := by
  intro h
  have hzero : FixedBytes.zero 16 = counter (FixedBytes.zero 12) 0 := by
    apply Subtype.ext
    rfl
  rw [hzero] at h
  have hindex := (counter_injective hj (by norm_num) h).2
  omega

/-- Different nonces give different inputs of the cipher. -/
theorem cipherInputs_nodup {nonces : List (FixedBytes 12)} (h : nonces.Nodup) :
    (cipherInputs nonces).Nodup := by
  rw [cipherInputs, List.nodup_cons, List.nodup_flatMap]
  refine ⟨fun hmem => ?_, fun nonce _ => ?_, ?_⟩
  · obtain ⟨nonce, -, hblock⟩ := List.mem_flatMap.mp hmem
    obtain ⟨j, hj, hzero⟩ := List.mem_map.mp hblock
    rw [List.mem_range] at hj
    exact counter_ne_zero nonce (Nat.succ_pos j) (by omega) hzero
  · apply List.Nodup.map_on _ List.nodup_range
    intro i hi j hj hij
    rw [List.mem_range] at hi hj
    have hindex := (counter_injective (by omega) (by omega) hij).2
    omega
  · apply h.imp
    intro nonce nonce' hne block hblock hblock'
    obtain ⟨i, hi, rfl⟩ := List.mem_map.mp hblock
    obtain ⟨j, hj, hsame⟩ := List.mem_map.mp hblock'
    rw [List.mem_range] at hi hj
    exact hne (counter_injective (by omega) (by omega) hsame).1.symm

/-! ## One record -/

/-- A record has fewer blocks than a nonce has counter blocks. -/
theorem recordInputs_subset (nonce : FixedBytes 12) {n : ℕ} (h : n + 16 ≤ 16640) :
    recordInputs nonce n ⊆ cipherInputs [nonce] := by
  intro block hblock
  unfold recordInputs at hblock
  unfold cipherInputs
  rcases List.mem_cons.mp hblock with rfl | hcounter
  · exact List.mem_cons_self
  · obtain ⟨j, hj, rfl⟩ := List.mem_map.mp hcounter
    rw [List.mem_range] at hj
    refine List.mem_cons_of_mem _ (List.mem_flatMap.mpr ⟨nonce, List.mem_singleton_self _, ?_⟩)
    exact List.mem_map.mpr ⟨j, List.mem_range.mpr (by omega), rfl⟩

/-- A call of `aes128_gcm_encrypt` is the encryption of the standards. -/
theorem sealedUnder_of_encrypted {P : Crypto} {key : Block} {nonce : FixedBytes 12} {record : Bytes}
    (h : EncryptedWith (withAesGcm P) key nonce record) : SealedUnder key nonce record := by
  obtain ⟨plaintext, hlength, hrecord⟩ := h
  refine ⟨plaintext, _, _, hrecord, ?_, recordInputs_subset nonce hlength⟩
  exact ((aesGcm_standard key nonce _).1 plaintext _ _).mp rfl

/-! ## Runs -/

variable {P : Crypto} {W : Type}

/-- **No block of the cipher comes twice under one derivation of keys**, in every run of calls
over every platform, stream and verifier: every record is sealed under the key and the nonce of
its entry, with blocks that this nonce gives, and under one derivation, as long as fewer than
`2^64` records are sealed under it, all these blocks are different: the hash key, the blocks that
mask the tags and those of the keystreams. -/
theorem blocks_nodup_of_run (E : Env W) (w : W) (log : List (Call × Except Error Bytes))
    (s : System (withAesGcm P) W) (hrun : Run E (System.fresh (withAesGcm P) w) log s) :
    (∀ slot keys record, .sealed slot keys record ∈ s.trace →
      SealedUnder keys.key keys.nonce record) ∧
    ∀ slot, ∀ nonces ∈ sealedNonces slot s.trace, nonces.length < 2 ^ 64 → ∀ key,
      ((cipherInputs nonces).map (aesBlock key)).Nodup := by
  obtain ⟨hcounted, hencrypted⟩ := counted_of_run E hrun
  refine ⟨fun slot keys record hmem => sealedUnder_of_encrypted (hencrypted slot keys record hmem),
    fun slot nonces hgroup hlen key => ?_⟩
  obtain ⟨iv, hgroup⟩ := hcounted slot nonces hgroup
  exact (cipherInputs_nodup (hgroup.nodup hlen)).map (aesBlock_injective key)

/-- The blocks for the nonces under the handshake keys of a client that the script has
connected. -/
theorem blocks_nodup_scripted :
    ∃ s : System (withAesGcm plainCrypto) Bytes, s.client.state = .connected ∧
      (∀ slot keys record, .sealed slot keys record ∈ s.trace →
        SealedUnder keys.key keys.nonce record) ∧
      ∃ nonces ∈ sealedNonces .clientHs s.trace, nonces.length < 2 ^ 64 ∧
        ((cipherInputs nonces).map (aesBlock (FixedBytes.zero 16))).Nodup := by
  obtain ⟨script, keys, th, fin, -, hscript⟩ :=
    scripted_reachable (P := withAesGcm plainCrypto) ⟨scriptPrivateKey, rfl⟩ 0 [] (by decide)
  obtain ⟨s, -, hrun, hbare⟩ := hscript []
  obtain ⟨ch, shared, clientHs, record, th', clientFin, -, -, hmilestones⟩ := hbare.milestones
  obtain ⟨nonces, older, hgroups⟩ :=
    List.exists_cons_of_ne_nil (sealedNonces_ne_nil .clientHs s.trace)
  have hmem : nonces ∈ sealedNonces .clientHs s.trace := by
    rw [hgroups]
    exact List.mem_cons_self
  have hlen : nonces.length < 2 ^ 64 := by
    have hle := length_le_of_mem_sealedNonces hmem
    rw [hmilestones] at hle
    simp only [List.length_cons, List.length_nil] at hle
    omega
  obtain ⟨hsealed, hnodup⟩ := blocks_nodup_of_run scriptEnv _ _ s hrun
  exact ⟨s, hbare.state, hsealed, nonces, hmem, hlen, hnodup .clientHs nonces hmem hlen _⟩

end XboxTls.Analysis
