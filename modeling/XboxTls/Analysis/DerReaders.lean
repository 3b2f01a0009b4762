import Mathlib.Data.Nat.Bitwise
import XboxTls.Analysis.ByteStrings
import XboxTls.Interface.SignedBytes

/-!
# The three DER readers do the same

The readers differ in how their files write them and in nothing else (`readersAgree`): each is
`readSpansAt`, which compares numbers where the code looks at bits.
-/

set_option autoImplicit false

namespace XboxTls.Analysis

open Programs XboxTls.Model XboxTls.Interface

/-! ## The readers -/

/-- The top bit tells the two forms of a length apart. -/
theorem and_topBit (lb : UInt8) : lb &&& 0x80 = 0 ↔ lb.toNat < 0x80 := by
  have hlt := lb.toNat_lt
  have hand : (lb &&& 0x80).toNat = (lb.toNat.testBit 7).toNat * 2 ^ 7 := by
    rw [UInt8.toNat_and]
    exact Nat.and_two_pow lb.toNat 7
  rw [← UInt8.toNat_inj, hand, Nat.testBit_eq_decide_div_mod_eq]
  show _ = 0 ↔ _
  by_cases h : lb.toNat / 2 ^ 7 % 2 = 1
  · rw [decide_eq_true h, Bool.toNat_true]
    omega
  · rw [decide_eq_false h, Bool.toNat_false]
    omega

/-- The low bits of a long form are the number of length octets. -/
theorem and_lowBits {lb : UInt8} (h : 0x80 ≤ lb.toNat) :
    (lb &&& 0x7F).toNat = lb.toNat - 0x80 := by
  have hlt := lb.toNat_lt
  have hand : (lb &&& 0x7F).toNat = lb.toNat % 2 ^ 7 := by
    rw [UInt8.toNat_and]
    exact Nat.and_two_pow_sub_one_eq_mod lb.toNat 7
  rw [hand]
  omega

/-- The loop collects the number in the length bytes. -/
theorem lengthLoop_eq (input : Bytes) (n len p : ℕ) (h : p + n ≤ input.length) :
    lengthLoop input n len p =
      ((slice input p n).foldl (fun acc x => acc * 256 + x.toNat) len, p + n) := by
  induction n generalizing len p with
  | zero => rfl
  | succ n ih =>
    rw [lengthLoop, ih _ _ (by omega), slice_succ (by omega), List.foldl_cons]
    congr 1
    omega

/-- The end of a reader, with spans. -/
def spansAt (input : Bytes) (off p len : ℕ) : Except Error TlvSpans :=
  if len > input.length - p then .error .badHandshake
  else .ok ⟨byteAt input off, ⟨off, p - off + len⟩, ⟨p, len⟩, p + len⟩

/-- What all readers do: `readTlv` with spans. -/
def readSpansAt (input : Bytes) (off : ℕ) : Except Error TlvSpans :=
  if off ≥ input.length then .error .badHandshake
  else if off + 1 ≥ input.length then .error .badHandshake
  else
    let lb := (byteAt input (off + 1)).toNat
    if lb < 0x80 then spansAt input off (off + 2) lb
    else
      let n := lb - 0x80
      if n = 0 ∨ n > 4 ∨ off + 2 + n > input.length then .error .badHandshake
      else if byteAt input (off + 2) = 0 then .error .badHandshake
      else
        let len := beNat (slice input (off + 2) n)
        if len < 128 then .error .badHandshake
        else spansAt input off (off + 2 + n) len

/-- Behind an error nothing is read. -/
theorem throw_bind {α β : Type} (e : Error) (f : α → Except Error β) :
    ((throw e : Except Error α) >>= f) = .error e :=
  rfl

/-- A check that passes lets the rest decide. -/
theorem refuse_eq_ok {α : Type} {c : Prop} [Decidable c] {e : Error} {x : Except Error α} {a : α} :
    (if c then .error e else x) = .ok a ↔ ¬ c ∧ x = .ok a := by
  by_cases hc : c
  · simp [hc]
  · simp [hc]

/-- The reader of `x509.cpp` reads the spans. -/
theorem x509DerTlv_eq (input : Bytes) (off : ℕ) :
    x509DerTlv input off = readSpansAt input off := by
  unfold x509DerTlv readSpansAt spansAt
  simp only [throw_bind, pure_bind]
  by_cases hoff : off ≥ input.length
  · rw [if_pos hoff, if_pos hoff]
  rw [if_neg hoff, if_neg hoff]
  by_cases htag : off + 1 ≥ input.length
  · rw [if_pos htag, if_pos htag]
  rw [if_neg htag, if_neg htag]
  by_cases hshort : byteAt input (off + 1) &&& 0x80 = 0
  · rw [if_pos hshort, if_pos ((and_topBit _).1 hshort)]
    rfl
  have hge : ¬ (byteAt input (off + 1)).toNat < 0x80 := fun h => hshort ((and_topBit _).2 h)
  rw [if_neg hshort, if_neg hge, and_lowBits (Nat.le_of_not_lt hge)]
  generalize (byteAt input (off + 1)).toNat - 0x80 = n
  by_cases hn : n = 0 ∨ n > 4 ∨ off + 2 + n > input.length
  · rw [if_pos hn, if_pos hn]
  rw [if_neg hn, if_neg hn]
  by_cases hzero : byteAt input (off + 2) = 0
  · rw [if_pos hzero, if_pos hzero]
  rw [if_neg hzero, if_neg hzero, lengthLoop_eq input n 0 (off + 2) (by omega)]
  rfl

/-- One file checks in two steps what the other two check in one. -/
theorem lastCheck {α : Type} (a b c d : Prop) [Decidable a] [Decidable b] [Decidable c]
    [Decidable d] (e : Error) (x : Except Error α) :
    (if a ∨ b ∨ c ∨ d then .error e else x) =
      if a ∨ b ∨ c then .error e else if d then .error e else x := by
  by_cases habc : a ∨ b ∨ c
  · rw [if_pos habc, if_pos (by tauto)]
  by_cases hd : d
  · rw [if_neg habc, if_pos hd, if_pos (by tauto)]
  · rw [if_neg habc, if_neg hd, if_neg (by tauto)]

/-- The reader of `native_verifier.cpp` is that of `x509.cpp`. -/
theorem nativeTlv_eq (input : Bytes) (off : ℕ) : nativeTlv input off = x509DerTlv input off := by
  unfold nativeTlv x509DerTlv
  simp only [throw_bind, pure_bind, lastCheck]

/-- The reader of `rsa_verify.cpp` reads the same without the full span. -/
theorem rsaTlv_eq (input : Bytes) (off : ℕ) :
    rsaTlv input off = (nativeTlv input off).map fun t => ⟨t.tag, t.value, t.next⟩ := by
  unfold rsaTlv nativeTlv
  simp only [throw_bind, pure_bind, apply_ite (Except.map _)]
  rfl

/-- The bytes in the spans are those of the element. -/
theorem map_spansAt (input : Bytes) (off p len : ℕ) :
    (spansAt input off p len).map (readSpans input) = sliceTlv input off p len := by
  unfold spansAt sliceTlv
  rw [apply_ite (Except.map _)]
  rfl

/-- The bytes in the spans that are read are those of the element. -/
theorem map_readSpansAt (input : Bytes) (off : ℕ) :
    (readSpansAt input off).map (readSpans input) = readTlv input off := by
  unfold readSpansAt readTlv
  simp only [apply_ite (Except.map _), map_spansAt]
  rfl

/-- The three readers agree. -/
theorem readersAgree : ReadersAgree where
  native := nativeTlv_eq
  rsa input off := by rw [rsaTlv_eq, nativeTlv_eq]
  derTlv input off := by rw [x509DerTlv_eq, map_readSpansAt, derTlv]
  tlv input off := by rw [nativeTlv_eq, x509DerTlv_eq, map_readSpansAt, tlv]

end XboxTls.Analysis
