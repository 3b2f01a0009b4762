import XboxTls.Analysis.DerEncoding

/-!
# What the readers accept

`readTlv` accepts the elements in DER whose length fits into four octets, and no other bytes:
`readTlv_of_drop` reads an element wherever it stands, and `readTlv_encoded` says that what was
read is one.
-/

set_option autoImplicit false

namespace XboxTls.Analysis

open Programs XboxTls.Model XboxTls.Interface

/-! ## Lengths -/

/-- The first octet counts most. -/
theorem ofOctets_cons (b : UInt8) (s : Bytes) :
    ofOctets (b :: s) = ofOctets s + 256 ^ s.length * b.toNat := by
  have h := ofOctets_append [b] s
  rwa [ofOctets_singleton] at h

/-- Octets that do not start with a zero are as few as the number needs. -/
theorem size_ofOctets {s : Bytes} (hfirst : byteAt s 0 ≠ 0) (hpos : 0 < s.length) :
    ((ofOctets s).size + 7) / 8 = s.length := by
  obtain ⟨b, rest, rfl⟩ := List.exists_cons_of_length_pos hpos
  have hb : 1 ≤ b.toNat := by
    refine Nat.pos_of_ne_zero fun h => hfirst ?_
    exact UInt8.toNat_inj.mp h
  have hlow : 2 ^ (8 * rest.length) ≤ ofOctets (b :: rest) := by
    rw [ofOctets_cons, Nat.pow_mul]
    calc 256 ^ rest.length = 256 ^ rest.length * 1 := (Nat.mul_one _).symm
      _ ≤ 256 ^ rest.length * b.toNat := Nat.mul_le_mul_left _ hb
      _ ≤ _ := Nat.le_add_left _ _
  have hhigh : ofOctets (b :: rest) < 2 ^ (8 * (rest.length + 1)) := by
    have h := ofOctets_lt (b :: rest)
    rwa [List.length_cons, show 256 = 2 ^ 8 by norm_num, ← pow_mul] at h
  have hsizeLow := Nat.lt_size.mpr hlow
  have hsizeHigh := Nat.size_le.mpr hhigh
  rw [List.length_cons]
  omega

/-- The length octets of the long form are those of DER. -/
theorem derLength_ofOctets {s : Bytes} (hfirst : byteAt s 0 ≠ 0) (hpos : 0 < s.length)
    (hlong : 128 ≤ ofOctets s) :
    derLength (ofOctets s) = UInt8.ofNat (128 + s.length) :: s := by
  unfold derLength
  rw [if_neg (by omega), size_ofOctets hfirst hpos, toOctets_ofOctets]

/-! ## Elements -/

/-- An element as `readTlv` reports it. -/
def elementAt (off : ℕ) (tag : UInt8) (content : Bytes) : DerTlv :=
  ⟨tag, derEncode tag content, content, off + (derEncode tag content).length⟩

/-- The end of the reader, where the header of an element was read. -/
theorem sliceTlv_eq_ok {input : Bytes} {off p len : ℕ} {t : DerTlv}
    (hoff : off ≤ p) (hp : p ≤ input.length)
    (hheader : input.drop off = byteAt input off :: derLength len ++ input.drop p)
    (h : sliceTlv input off p len = .ok t) :
    t.value.length = len ∧ t = elementAt off t.tag t.value ∧
      input.drop off = derEncode t.tag t.value ++ input.drop t.next := by
  unfold sliceTlv at h
  split at h
  · cases h
  next hfits =>
  cases h
  have hlen : (slice input p len).length = len := slice_length (by omega)
  have hsplit : input.drop off =
      derEncode (byteAt input off) (slice input p len) ++ input.drop (p + len) := by
    rw [hheader]
    unfold derEncode
    rw [hlen, List.append_assoc]
    congr 1
    unfold slice
    rw [← List.drop_drop, List.take_append_drop]
  have hwhole : (derEncode (byteAt input off) (slice input p len)).length = p - off + len := by
    have h := congrArg List.length hsplit
    rw [List.length_append, List.length_drop, List.length_drop] at h
    omega
  have hfull : slice input off (p - off + len) =
      derEncode (byteAt input off) (slice input p len) := by
    unfold slice at hsplit hwhole ⊢
    rw [hsplit, List.take_left' hwhole]
  refine ⟨hlen, ?_, hsplit⟩
  unfold elementAt
  rw [hfull, hwhole]
  congr 1
  omega

/-- **What was read is an element**, and it stands where the reader was told to start. -/
theorem readTlv_encoded {input : Bytes} {off : ℕ} {t : DerTlv} (h : readTlv input off = .ok t) :
    t.value.length < 2 ^ 32 ∧ t = elementAt off t.tag t.value ∧
      input.drop off = derEncode t.tag t.value ++ input.drop t.next := by
  have htwo : ∀ {p : ℕ}, p < input.length →
      input.drop p = byteAt input p :: input.drop (p + 1) := by
    intro p hp
    have h := slice_succ (b := input) (n := input.length) hp
    unfold slice at h
    rwa [List.take_of_length_le (by rw [List.length_drop]; omega),
      List.take_of_length_le (by rw [List.length_drop]; omega)] at h
  unfold readTlv at h
  split at h
  · cases h
  next hoff =>
  split at h
  · cases h
  next htag =>
  dsimp only at h
  have hstart : input.drop off =
      byteAt input off :: byteAt input (off + 1) :: input.drop (off + 2) := by
    rw [htwo (by omega), htwo (p := off + 1) (by omega)]
  split at h
  · next hshort =>
    have hbyte : derLength (byteAt input (off + 1)).toNat = [byteAt input (off + 1)] := by
      unfold derLength
      rw [if_pos hshort, UInt8.ofNat_toNat]
    obtain ⟨hlen, hshape⟩ := sliceTlv_eq_ok (by omega) (by omega)
      (by rw [hbyte, hstart, List.cons_append, List.singleton_append]) h
    exact ⟨by omega, hshape⟩
  · next hlong =>
    split at h
    · cases h
    next hcount =>
    split at h
    · cases h
    next hzero =>
    split at h
    · cases h
    next hlow =>
    generalize hn : (byteAt input (off + 1)).toNat - 0x80 = n at hcount hlow h
    have hlen : (slice input (off + 2) n).length = n := slice_length (by omega)
    have hfirst : byteAt (slice input (off + 2) n) 0 ≠ 0 := by
      rwa [byteAt_slice (by omega), Nat.add_zero]
    have hbyte : UInt8.ofNat (128 + n) = byteAt input (off + 1) := by
      rw [← hn, Nat.add_sub_cancel' (by omega), UInt8.ofNat_toNat]
    have hrest : input.drop (off + 2) =
        slice input (off + 2) n ++ input.drop (off + 2 + n) := by
      have h := List.take_append_drop n (input.drop (off + 2))
      rw [List.drop_drop] at h
      exact h.symm
    have hlt := ofOctets_lt (slice input (off + 2) n)
    have hpow : 256 ^ n ≤ 256 ^ 4 := Nat.pow_le_pow_right (by omega) (by omega)
    rw [beNat_eq_ofOctets] at h hlow
    have hoctets := derLength_ofOctets hfirst (by omega) (Nat.le_of_not_lt hlow)
    rw [hlen, hbyte] at hoctets
    obtain ⟨hvalue, hshape⟩ := sliceTlv_eq_ok (by omega) (by omega)
      (by rw [hoctets, hstart, hrest, List.cons_append, List.cons_append]) h
    rw [hlen] at hlt
    exact ⟨by omega, hshape⟩

/-- What is read ends at `next`, and the element covers all from the start. -/
theorem full_of_readSpans {input : Bytes} {off : ℕ} {t : TlvSpans}
    (h : readSpansAt input off = .ok t) : t.full = ⟨off, t.next - off⟩ := by
  have hspans : ∀ {p len : ℕ}, off ≤ p → spansAt input off p len = .ok t →
      t.full = ⟨off, t.next - off⟩ := by
    intro p len hp h
    unfold spansAt at h
    split at h
    · cases h
    · cases h
      dsimp only
      congr 1
      omega
  unfold readSpansAt at h
  dsimp only at h
  simp only [refuse_eq_ok] at h
  obtain ⟨-, -, h⟩ := h
  split at h
  · exact hspans (by omega) h
  · obtain ⟨-, -, -, h⟩ := (by simpa only [refuse_eq_ok] using h)
    exact hspans (by omega) h

/-- **Reading an element** wherever it stands. -/
theorem readTlv_of_drop {input : Bytes} {off : ℕ} {tag : UInt8} {content rest : Bytes}
    (hlen : content.length < 2 ^ 32) (h : input.drop off = derEncode tag content ++ rest) :
    readTlv input off = .ok (elementAt off tag content) := by
  have hpos : 0 < (derEncode tag content).length := by
    rw [derEncode_length]
    omega
  have hoff : (input.take off).length = off := by
    have hlength := congrArg List.length h
    rw [List.length_drop, List.length_append] at hlength
    rw [List.length_take]
    omega
  have hinput : input = input.take off ++ derEncode tag content ++ rest := by
    rw [List.append_assoc, ← h, List.take_append_drop]
  have hread := rsaTlv_derEncode (input.take off) rest tag hlen
  rw [← hinput, hoff, rsaTlv_eq, nativeTlv_eq, x509DerTlv_eq] at hread
  obtain ⟨t, ht, hspans⟩ : ∃ t, readSpansAt input off = .ok t ∧
      (⟨t.tag, t.value, t.next⟩ : ValueSpan) = _ := by
    cases hspans : readSpansAt input off with
    | error e =>
      rw [hspans] at hread
      cases hread
    | ok t =>
      rw [hspans] at hread
      exact ⟨t, rfl, Except.ok.inj hread⟩
  have hfull := full_of_readSpans ht
  have htag : t.tag = tag := congrArg ValueSpan.tag hspans
  have hvalue := congrArg ValueSpan.value hspans
  have hnext := congrArg ValueSpan.next hspans
  dsimp only at hvalue hnext
  have hwhole : slice input off (derEncode tag content).length = derEncode tag content := by
    unfold slice
    rw [h, List.take_left]
  have hcontent : slice input (off + 1 + (derLength content.length).length) content.length =
      content := by
    have hsplit : derEncode tag content ++ rest =
        (tag :: derLength content.length) ++ (content ++ rest) := by
      simp [derEncode]
    unfold slice
    rw [Nat.add_assoc, ← List.drop_drop, h, hsplit, List.drop_left' (by simp [Nat.add_comm]),
      List.take_left]
  rw [← map_readSpansAt, ht]
  show Except.ok (readSpans input t) = _
  unfold elementAt readSpans Span.bytes
  rw [htag, hvalue, hfull, hnext, Nat.add_sub_cancel_left, hwhole, hcontent]

end XboxTls.Analysis
