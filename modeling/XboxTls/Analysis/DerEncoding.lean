import XboxTls.Analysis.DerReaders
import XboxTls.Interface.RsaSignatures

/-!
# Reading what was encoded

The reader of `rsa_verify.cpp` on an element in DER, wherever it stands: the tag, the content
and the end of the element (`rsaTlv_derEncode`).
-/

set_option autoImplicit false

namespace XboxTls.Analysis

open Programs XboxTls.Model XboxTls.Interface

/-- The code's length is the number of the octets. -/
theorem beNat_eq_ofOctets (s : Bytes) : beNat s = ofOctets s := by
  unfold beNat
  rw [foldl_eq_ofOctets, Nat.zero_mul, Nat.zero_add]

/-- The octets of a number that needs them all do not start with a zero. -/
theorem toOctets_head_ne_zero {n x : ℕ} (hlow : 256 ^ n ≤ x) (hhigh : x < 256 ^ (n + 1)) :
    byteAt (toOctets (n + 1) x) 0 ≠ 0 := by
  have hpos : 0 < 256 ^ n := Nat.pow_pos (by omega)
  have hquot : x / 256 ^ n < 256 := Nat.div_lt_of_lt_mul (by rwa [pow_succ] at hhigh)
  have hone : 1 ≤ x / 256 ^ n := (Nat.one_le_div_iff hpos).mpr hlow
  intro h
  have hzero : (UInt8.ofNat (x / 256 ^ n)).toNat = 0 := by
    rw [toOctets_succ] at h
    exact congrArg UInt8.toNat h
  rw [UInt8.toNat_ofNat'] at hzero
  omega

/-- The octets that a number needs. -/
theorem size_octets {x : ℕ} (hx : 0 < x) :
    256 ^ ((x.size + 7) / 8 - 1) ≤ x ∧ x < 256 ^ ((x.size + 7) / 8) := by
  have hsize := Nat.size_pos.mpr hx
  have hpow : ∀ n, 256 ^ n = 2 ^ (8 * n) := fun n => by rw [show 256 = 2 ^ 8 from rfl, ← pow_mul]
  rw [hpow, hpow]
  constructor
  · exact Nat.lt_size.mp (by omega)
  · exact Nat.lt_of_lt_of_le (Nat.lt_size_self x) (Nat.pow_le_pow_right (by omega) (by omega))

/-- The length of the length octets. -/
theorem derLength_length (n : ℕ) : (derLength n).length =
    if n < 128 then 1 else 1 + (n.size + 7) / 8 := by
  unfold derLength
  split
  · rfl
  · simp [Nat.add_comm]

/-- An element adds its tag and its length. -/
theorem derEncode_length (tag : UInt8) (content : Bytes) : (derEncode tag content).length =
    1 + (derLength content.length).length + content.length := by
  unfold derEncode
  simp only [List.length_append, List.length_cons]
  omega

/-- The reader from the second octet of an element on. -/
theorem derLength_read {n : ℕ} (hn : n < 2 ^ 32) (rest : Bytes) :
    (n < 128 ∧ derLength n = [UInt8.ofNat n]) ∨
    ∃ m, 128 ≤ n ∧ 1 ≤ m ∧ m ≤ 4 ∧ derLength n = UInt8.ofNat (128 + m) :: toOctets m n ∧
      byteAt (toOctets m n ++ rest) 0 ≠ 0 ∧ beNat (slice (toOctets m n ++ rest) 0 m) = n := by
  by_cases hshort : n < 128
  · exact Or.inl ⟨hshort, if_pos hshort⟩
  · obtain ⟨hlow, hhigh⟩ := size_octets (x := n) (by omega)
    have hsize : n.size ≤ 32 := Nat.size_le.mpr hn
    have hsizePos : 0 < n.size := Nat.size_pos.mpr (by omega)
    obtain ⟨m, hm⟩ : ∃ m, (n.size + 7) / 8 = m + 1 := ⟨(n.size + 7) / 8 - 1, by omega⟩
    rw [hm] at hlow hhigh
    refine Or.inr ⟨m + 1, by omega, by omega, by omega, ?_, ?_, ?_⟩
    · unfold derLength
      rw [if_neg hshort]
      simp [hm]
    · rw [byteAt_append (by simp)]
      exact toOctets_head_ne_zero hlow hhigh
    · rw [slice_append_left (by simp), beNat_eq_ofOctets, ofOctets_toOctets,
        Nat.mod_eq_of_lt hhigh]

/-- **Reading an element** behind `front` and before `rest`. -/
theorem rsaTlv_derEncode (front rest : Bytes) (tag : UInt8) {content : Bytes}
    (hlen : content.length < 2 ^ 32) :
    rsaTlv (front ++ derEncode tag content ++ rest) front.length =
      .ok ⟨tag, ⟨front.length + 1 + (derLength content.length).length, content.length⟩,
        front.length + (derEncode tag content).length⟩ := by
  have hdrop : (front ++ derEncode tag content ++ rest).drop front.length =
      derEncode tag content ++ rest := by
    rw [List.append_assoc, List.drop_left]
  have hbyte : ∀ i, byteAt (front ++ derEncode tag content ++ rest) (front.length + i) =
      byteAt (derEncode tag content ++ rest) i := by
    intro i
    rw [← byteAt_drop, hdrop]
  have hslice : ∀ i n, slice (front ++ derEncode tag content ++ rest) (front.length + i) n =
      slice (derEncode tag content ++ rest) i n := by
    intro i n
    unfold slice
    rw [← List.drop_drop, hdrop]
  have htag : byteAt (front ++ derEncode tag content ++ rest) front.length = tag := by
    have h := hbyte 0
    rwa [Nat.add_zero] at h
  have htotal : (front ++ derEncode tag content ++ rest).length =
      front.length + (1 + (derLength content.length).length + content.length) + rest.length := by
    rw [List.length_append, List.length_append, derEncode_length]
  rw [rsaTlv_eq, nativeTlv_eq, x509DerTlv_eq, derEncode_length]
  generalize front ++ derEncode tag content ++ rest = input at hbyte hslice htag htotal ⊢
  unfold readSpansAt spansAt
  rw [hbyte 1, htag]
  rcases derLength_read hlen (content ++ rest) with
    ⟨hshort, hlength⟩ | ⟨m, hlong, hm, hm4, hlength, hzero, hvalue⟩
  · have hsecond : (byteAt (derEncode tag content ++ rest) 1).toNat = content.length := by
      unfold derEncode
      rw [hlength]
      show (UInt8.ofNat content.length).toNat = _
      rw [UInt8.toNat_ofNat']
      omega
    rw [hlength, List.length_singleton] at htotal
    rw [hsecond, hlength, List.length_singleton, if_neg (by omega), if_neg (by omega),
      if_pos hshort, if_neg (by omega)]
    simp only [Except.map]
    congr 2
    omega
  · have hencode : derEncode tag content ++ rest =
        tag :: UInt8.ofNat (128 + m) :: (toOctets m content.length ++ (content ++ rest)) := by
      unfold derEncode
      rw [hlength]
      simp
    have hsecond : (byteAt (derEncode tag content ++ rest) 1).toNat = 128 + m := by
      rw [hencode]
      show (UInt8.ofNat (128 + m)).toNat = _
      rw [UInt8.toNat_ofNat']
      omega
    have hthird : byteAt input (front.length + 2) ≠ 0 := by
      rw [hbyte 2, hencode]
      exact hzero
    have hnumber : beNat (slice input (front.length + 2) m) = content.length := by
      rw [hslice 2 m, hencode]
      exact hvalue
    have hcount : (derLength content.length).length = 1 + m := by
      rw [hlength, List.length_cons, length_toOctets, Nat.add_comm]
    rw [hcount] at htotal
    rw [hsecond, hcount, if_neg (by omega), if_neg (by omega), if_neg (by omega),
      Nat.add_sub_cancel_left, if_neg (by omega), if_neg hthird, hnumber, if_neg (by omega),
      if_neg (by omega)]
    simp only [Except.map]
    congr 2
    · congr 1
      omega
    · omega

end XboxTls.Analysis
