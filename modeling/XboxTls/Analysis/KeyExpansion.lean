import Mathlib.Data.List.Nodup
import XboxTls.Analysis.StandardSchedule
import XboxTls.Interface.KeyExpansion

/-!
# The key expansion of the client

The loop of `hkdf_expand_sha256` writes the blocks of RFC 5869, and the counter at the end of what
it hands to HMAC is another in each round.  A label is written with its length, so that different
derivations have different messages.
-/

set_option autoImplicit false

namespace XboxTls.Analysis

open XboxTls.Model XboxTls.Interface

variable {P : Crypto}

/-! ## The blocks -/

/-- The output is the HMACs of the messages, cut to its size. -/
theorem hkdfExpandLoop_eq_messages (prk info : Bytes) (fuel : ℕ) (t : Bytes) (ctr : UInt8)
    (remaining : ℕ) :
    hkdfExpandLoop P prk info fuel t ctr remaining =
      ((hkdfExpandMessages P prk info fuel t ctr remaining).flatMap
        fun m => (hmacSha256 P prk m).val).take remaining := by
  induction fuel generalizing t ctr remaining with
  | zero => simp [hkdfExpandLoop, hkdfExpandMessages]
  | succ fuel ih =>
    unfold hkdfExpandLoop hkdfExpandMessages
    by_cases hnone : remaining = 0
    · simp [hnone]
    · have hlen := (hmacSha256 P prk (t ++ info ++ [ctr])).property
      have hcut : (hmacSha256 P prk (t ++ info ++ [ctr])).val.take (min remaining 32) =
          (hmacSha256 P prk (t ++ info ++ [ctr])).val.take remaining := by
        conv_rhs => rw [List.take_eq_take_min, hlen]
      rw [if_neg hnone, if_neg hnone]
      dsimp only
      rw [List.flatMap_cons, List.take_append, hlen, ih, hcut,
        show remaining - min remaining 32 = remaining - 32 by omega]

/-- The messages are those of the standard from `T(i)` on. -/
theorem hkdfExpandMessages_eq (prk info : Bytes) {fuel i remaining : ℕ}
    (h : remaining ≤ 32 * fuel) :
    hkdfExpandMessages P prk info fuel (Standard.expandBlock (Standard.digest P) prk info i)
        (UInt8.ofNat (i + 1)) remaining =
      (List.range' i (Standard.expandCount remaining)).map
        (Standard.expandMessage (Standard.digest P) prk info) := by
  induction fuel generalizing i remaining with
  | zero =>
    have hnone : remaining = 0 := by omega
    rw [hnone]
    rfl
  | succ fuel ih =>
    unfold hkdfExpandMessages
    by_cases hnone : remaining = 0
    · rw [if_pos hnone, hnone]
      rfl
    · have hcount : Standard.expandCount remaining =
          Standard.expandCount (remaining - min remaining 32) + 1 := by
        unfold Standard.expandCount
        omega
      have hcounter : UInt8.ofNat (i + 1) + 1 = UInt8.ofNat (i + 1 + 1) :=
        (UInt8.ofNat_add (i + 1) 1).symm
      have hnext := ih (i := i + 1) (show remaining - min remaining 32 ≤ 32 * fuel by omega)
      rw [if_neg hnone, hcount, List.range'_succ, List.map_cons]
      dsimp only
      rw [hmacSha256_eq, hcounter]
      exact congrArg _ hnext

/-- The messages of the loop are those of the standard. -/
theorem messages_eq (prk info : Bytes) (n : ℕ) :
    hkdfExpandMessages P prk info (n / 32 + 1) [] 1 n =
      (List.range (Standard.expandCount n)).map
        (Standard.expandMessage (Standard.digest P) prk info) := by
  rw [List.range_eq_range']
  exact hkdfExpandMessages_eq prk info (i := 0) (by omega)

/-- All blocks of the loop. -/
theorem hkdfExpandLoop_eq_stream (prk info : Bytes) (n : ℕ) :
    hkdfExpandLoop P prk info (n / 32 + 1) [] 1 n =
      Standard.expandStream (Standard.digest P) prk info n := by
  rw [hkdfExpandLoop_eq_messages, messages_eq, List.flatMap_map]
  unfold Standard.expandStream
  congr 2
  funext i
  exact hmacSha256_eq prk _

/-- The stream has as many bytes as asked for. -/
theorem length_expandStream (prk info : Bytes) (n : ℕ) :
    (Standard.expandStream (Standard.digest P) prk info n).length = n := by
  rw [← hkdfExpandLoop_eq_stream]
  exact hkdfExpandLoop_length P prk info _ _ _ _ (by omega)

/-- The output of `hkdf_expand_sha256`, and when there is one. -/
theorem hkdfExpandSha256_ok_iff (prk info : Bytes) (n : ℕ) (out : FixedBytes n) :
    hkdfExpandSha256 P prk info n = .ok out ↔
      n ≤ 255 * 32 ∧ (n = 0 ∨ info.length ≤ 512) ∧
        out.val = Standard.expandStream (Standard.digest P) prk info n := by
  have hval : (FixedBytes.ofBytes n (hkdfExpandLoop P prk info (n / 32 + 1) [] 1 n)).val =
      Standard.expandStream (Standard.digest P) prk info n := by
    rw [hkdfExpandLoop_eq_stream]
    exact FixedBytes.ofBytes_val_of_length _ (length_expandStream prk info n)
  unfold hkdfExpandSha256
  by_cases hlarge : n > 255 * 32
  · rw [if_pos hlarge]
    simp only [reduceCtorEq, false_iff]
    omega
  · rw [if_neg hlarge]
    by_cases hinfo : 0 < n ∧ info.length > 512
    · rw [if_pos hinfo]
      simp only [reduceCtorEq, false_iff]
      omega
    · rw [if_neg hinfo, Except.ok.injEq, ← hval, eq_comm, ← Subtype.ext_iff]
      have hrange : n ≤ 255 * 32 ∧ (n = 0 ∨ info.length ≤ 512) := by omega
      tauto

/-! ## Prefixes and counters -/

/-- Every block but the empty one before the first has 32 bytes. -/
theorem length_expandBlock (prk info : Bytes) (i : ℕ) :
    (Standard.expandBlock (Standard.digest P) prk info i).length = if i = 0 then 0 else 32 := by
  cases i with
  | zero => rfl
  | succ i =>
    rw [if_neg (Nat.succ_ne_zero i)]
    exact (P.sha256 _).property

/-- `k` blocks have `32 k` bytes. -/
theorem length_expandBlocks (prk info : Bytes) (k : ℕ) :
    ((List.range k).flatMap fun i =>
      Standard.expandBlock (Standard.digest P) prk info (i + 1)).length = 32 * k := by
  induction k with
  | zero => rfl
  | succ k ih =>
    rw [List.range_succ, List.flatMap_append, List.length_append, ih, List.flatMap_singleton,
      length_expandBlock, if_neg (Nat.succ_ne_zero k)]
    omega

/-- More blocks do not change the bytes before them. -/
theorem take_expandBlocks (prk info : Bytes) {n k k' : ℕ} (hn : n ≤ 32 * k) (hk : k ≤ k') :
    ((List.range k').flatMap fun i =>
      Standard.expandBlock (Standard.digest P) prk info (i + 1)).take n =
      ((List.range k).flatMap fun i =>
        Standard.expandBlock (Standard.digest P) prk info (i + 1)).take n := by
  induction k', hk using Nat.le_induction with
  | base => rfl
  | succ k' hk ih =>
    have hlen := length_expandBlocks (P := P) prk info k'
    rw [List.range_succ, List.flatMap_append, List.take_append_of_le_length (by omega), ih]

/-- A shorter output is the beginning of a longer one. -/
theorem expandStream_prefix (prk info : Bytes) {n n' : ℕ} (h : n' ≤ n) :
    Standard.expandStream (Standard.digest P) prk info n' =
      (Standard.expandStream (Standard.digest P) prk info n).take n' := by
  unfold Standard.expandStream
  rw [List.take_take, Nat.min_eq_left h]
  symm
  apply take_expandBlocks
  all_goals
    unfold Standard.expandCount
    omega

/-- A message ends with its counter. -/
theorem getLast_expandMessage (prk info : Bytes) (i : ℕ) :
    (Standard.expandMessage (Standard.digest P) prk info i).getLast? =
      some (UInt8.ofNat (i + 1)) :=
  List.getLast?_concat

/-- The counters of one expansion are different. -/
theorem counter_inj {i j : ℕ} (hi : i < 255) (hj : j < 255)
    (h : UInt8.ofNat (i + 1) = UInt8.ofNat (j + 1)) : i = j := by
  have hnat := congrArg UInt8.toNat h
  rw [UInt8.toNat_ofNat', UInt8.toNat_ofNat'] at hnat
  omega

/-- There are at most 255 blocks. -/
theorem expandCount_le {n : ℕ} (hn : n ≤ 255 * 32) : Standard.expandCount n ≤ 255 := by
  unfold Standard.expandCount
  omega

/-- No two messages of one expansion end with the same counter. -/
theorem counters_nodup (prk info : Bytes) {n : ℕ} (hn : n ≤ 255 * 32) :
    ((hkdfExpandMessages P prk info (n / 32 + 1) [] 1 n).map List.getLast?).Nodup := by
  have hcount := expandCount_le hn
  rw [messages_eq, List.map_map]
  apply List.Nodup.map_on
  · intro i hi j hj hlast
    rw [List.mem_range] at hi hj
    rw [Function.comp_apply, Function.comp_apply, getLast_expandMessage, getLast_expandMessage]
      at hlast
    exact counter_inj (by omega) (by omega) (Option.some.inj hlast)
  · exact List.nodup_range

/-! ## Labels -/

/-- The encoding of a label gives back what it was made of. -/
theorem hkdfLabel_inj {n n' : ℕ} {label label' context context' : Bytes} (hn : n < 65536)
    (hn' : n' < 65536) (hlabel : 6 + label.length ≤ 255) (hlabel' : 6 + label'.length ≤ 255)
    (h : hkdfLabel n label context = hkdfLabel n' label' context') :
    n = n' ∧ label = label' ∧ context = context' := by
  simp only [hkdfLabel, List.append_assoc] at h
  obtain ⟨hsize, h⟩ := List.append_inj h rfl
  obtain ⟨hcount, h⟩ := List.append_inj h rfl
  have hlen := congrArg UInt8.toNat (List.singleton_inj.mp hcount)
  rw [UInt8.toNat_ofNat', UInt8.toNat_ofNat'] at hlen
  obtain ⟨hname, h⟩ := List.append_inj (List.append_cancel_left h) (by omega)
  exact ⟨storeBe16_inj hn hn' hsize, hname, (List.append_inj h rfl).2⟩

section Labels

variable (d d' : Standard.LabelledExpansion P)

/-- What is accepted is short enough. -/
theorem accepted_bounds : 6 + d.label.length ≤ 255 ∧ d.n ≤ 255 * 32 := by
  have haccepted := d.accepted
  unfold hkdfExpandLabelSha256 at haccepted
  by_cases hlong : 6 + d.label.length > 255 ∨ d.context.length > 255
  · rw [if_pos hlong] at haccepted
    cases haccepted
  · rw [if_neg hlong] at haccepted
    have hn := ((hkdfExpandSha256_ok_iff _ _ _ _).mp haccepted).1
    omega

/-- The info determines length, label and context. -/
theorem triple_of_info (h : d.info = d'.info) : d.triple = d'.triple := by
  obtain ⟨hlabel, hn⟩ := accepted_bounds d
  obtain ⟨hlabel', hn'⟩ := accepted_bounds d'
  obtain ⟨hsize, hname, hcontext⟩ := hkdfLabel_inj (by omega) (by omega) hlabel hlabel' h
  unfold Standard.LabelledExpansion.triple
  rw [hsize, hname, hcontext]

/-- The counter tells how long the block before the label is. -/
theorem info_of_message {m : Bytes} (hm : m ∈ d.messages) (hm' : m ∈ d'.messages) :
    d.info = d'.info := by
  have hcount := expandCount_le (accepted_bounds d).2
  have hcount' := expandCount_le (accepted_bounds d').2
  unfold Standard.LabelledExpansion.messages at hm hm'
  rw [messages_eq, List.mem_map] at hm hm'
  obtain ⟨i, hi, rfl⟩ := hm
  obtain ⟨j, hj, hsame⟩ := hm'
  rw [List.mem_range] at hi hj
  have hlast := congrArg List.getLast? hsame
  rw [getLast_expandMessage, getLast_expandMessage] at hlast
  obtain rfl := counter_inj (by omega) (by omega) (Option.some.inj hlast)
  have hbody := List.append_cancel_right hsame
  have hlen : (Standard.expandBlock (Standard.digest P) d'.secret d'.info j).length =
      (Standard.expandBlock (Standard.digest P) d.secret d.info j).length := by
    rw [length_expandBlock, length_expandBlock]
  exact (List.append_inj hbody hlen).2.symm

/-- The output is the HMACs of its messages. -/
theorem out_eq_messages :
    d.out.val = (d.messages.flatMap fun m => (hmacSha256 P d.secret m).val).take d.n := by
  have haccepted := d.accepted
  unfold hkdfExpandLabelSha256 at haccepted
  split at haccepted
  · cases haccepted
  · rw [((hkdfExpandSha256_ok_iff _ _ _ _).mp haccepted).2.2, ← hkdfExpandLoop_eq_stream,
      hkdfExpandLoop_eq_messages]
    rfl

end Labels

/-- **The expansion is that of RFC 5869, and different labelled expansions have different
messages.** -/
theorem hkdf_expansion (P : Crypto) :
    (∀ prk info : Bytes, info.length ≤ 512 → ∀ n,
      (n ≤ 8160 → ∃ out, hkdfExpandSha256 P prk info n = .ok out ∧
        out.val = Standard.expandStream (Standard.digest P) prk info n) ∧
      (8160 < n → hkdfExpandSha256 P prk info n = .error .invalidArgument)) ∧
    (∀ (prk info : Bytes) (n n' : ℕ), n' ≤ n →
      Standard.expandStream (Standard.digest P) prk info n' =
        (Standard.expandStream (Standard.digest P) prk info n).take n') ∧
    (∀ (prk info : Bytes) (n : ℕ), n ≤ 8160 →
      ((hkdfExpandMessages P prk info (n / 32 + 1) [] 1 n).map List.getLast?).Nodup) ∧
    ∀ d d' : Standard.LabelledExpansion P,
      d.out.val = (d.messages.flatMap fun m => (hmacSha256 P d.secret m).val).take d.n ∧
      (d.info = d'.info → d.triple = d'.triple) ∧
      (d.triple ≠ d'.triple → d.messages.Disjoint d'.messages) := by
  refine ⟨fun prk info hinfo n => ⟨fun hn => ?_, fun hn => ?_⟩,
    fun prk info n n' h => expandStream_prefix prk info h,
    fun prk info n hn => counters_nodup prk info hn, fun d d' => ⟨out_eq_messages d, ?_, ?_⟩⟩
  · have hlen := length_expandStream (P := P) prk info n
    exact ⟨⟨_, hlen⟩, (hkdfExpandSha256_ok_iff _ _ _ _).mpr ⟨hn, Or.inr hinfo, rfl⟩, rfl⟩
  · unfold hkdfExpandSha256
    rw [if_pos hn]
  · exact triple_of_info d d'
  · intro hne m hm hm'
    exact hne (triple_of_info d d' (info_of_message d d' hm hm'))

/-- The key and the iv of one secret. -/
theorem hkdf_expansion_key_iv :
    (∃ out, hkdfExpandSha256 plainCrypto [] [7] 33 = .ok out ∧
      out.val = Standard.expandStream (Standard.digest plainCrypto) [] [7] 33) ∧
    ∃ d d' : Standard.LabelledExpansion plainCrypto,
      d.triple = (16, ascii ['k', 'e', 'y'], []) ∧ d'.triple = (12, ascii ['i', 'v'], []) ∧
        d.messages.Disjoint d'.messages := by
  obtain ⟨key, hkey⟩ := hkdfExpandLabelSha256_isOk plainCrypto [] (ascii ['k', 'e', 'y']) [] 16
    (by decide) (by decide) (by decide)
  obtain ⟨iv, hiv⟩ := hkdfExpandLabelSha256_isOk plainCrypto [] (ascii ['i', 'v']) [] 12
    (by decide) (by decide) (by decide)
  have h := hkdf_expansion plainCrypto
  refine ⟨(h.1 [] [7] (by decide) 33).1 (by decide), ⟨_, _, _, _, key, hkey⟩, ⟨_, _, _, _, iv, hiv⟩,
    rfl, rfl, ?_⟩
  apply (h.2.2.2 _ _).2.2
  intro hsame
  cases congrArg Prod.fst hsame

end XboxTls.Analysis
