import XboxTls.Analysis.DerEncoding
import XboxTls.Analysis.DerReaders
import XboxTls.Analysis.Memory
import XboxTls.Model.X509Memory

/-!
# The DER reader and its memory

A length of four bytes stands behind six bytes of its element, and a shorter one is a smaller
number.  So four can be added to every offset in the value of an element without a wrap, and
this is what the reader needs to read the elements in there.
-/

set_option autoImplicit false

namespace XboxTls.Analysis

open Programs Programs.Guarded XboxTls.Model

variable {ε : Type} {m : Memory} {h s : ByteSpan} {b : Bytes}

/-! ## Lengths -/

/-- One more byte of a number whose bytes fit below `limit`. -/
theorem horner_step {limit n x : ℕ} (c : UInt8) (hx : (x + 1) * 256 ^ (n + 1) ≤ limit) :
    x * 256 + c.toNat < limit ∧ (x * 256 + c.toNat + 1) * 256 ^ n ≤ limit := by
  have hbyte := c.toNat_lt
  have hpos := Nat.pow_pos (n := n) (show 0 < 256 by decide)
  have hstep : (x * 256 + c.toNat + 1) * 256 ^ n ≤ (x + 1) * 256 * 256 ^ n :=
    Nat.mul_le_mul_right (256 ^ n) (by omega)
  have hnext : (x * 256 + c.toNat + 1) * 256 ^ n ≤ limit := by
    refine Nat.le_trans hstep ?_
    rwa [Nat.mul_assoc, ← Nat.pow_succ']
  exact ⟨Nat.lt_of_lt_of_le (Nat.lt_of_lt_of_le (Nat.lt_succ_self _)
    (Nat.le_mul_of_pos_right _ hpos)) hnext, hnext⟩

/-- The loop reads the number in the length bytes. -/
theorem memory_lengthLoop_eq (hs : Part m h s b) (n : ℕ) {len p : ℕ} (hin : p + n ≤ b.length)
    (hlen : (len + 1) * 256 ^ n ≤ m.limit) :
    m.lengthLoop s n len p =
      pure ((slice b p n).foldl (fun acc x => acc * 256 + x.toNat) len, p + n) := by
  have hlimit := hs.length_lt
  induction n generalizing len p with
  | zero => rfl
  | succ n ih =>
    obtain ⟨hfits, hnext⟩ := horner_step (byteAt b p) hlen
    unfold Memory.lengthLoop
    rw [readAt_eq hs (by omega), pure_bind, memory_plus_eq hfits, pure_bind,
      memory_plus_eq (by omega), pure_bind, ih (by omega) hnext, slice_succ (by omega),
      List.foldl_cons, Nat.add_assoc, Nat.add_comm 1 n]

/-- An element of a part: its spans hold its bytes, and four can be added to an offset in its
value. -/
structure TlvHolds (m : Memory) (h : ByteSpan) (t : DerTlvSpans) (t' : DerTlv) : Prop where
  tag : t.tag = t'.tag
  full : Part m h t.full t'.full
  value : Part m h t.value t'.value
  next : t.next = t'.next
  fullPointer : t.full.data ≠ none
  pointer : t.value.data ≠ none
  room : t'.value.length + 4 < m.limit

/-- What the reader returns at `off`. -/
def TlvRead (m : Memory) (h : ByteSpan) (b : Bytes) (off : ℕ) (t : DerTlvSpans) (t' : DerTlv) :
    Prop :=
  TlvHolds m h t t' ∧ off + 2 ≤ t'.next ∧ t'.next ≤ b.length

/-- The end of the reader behind a header of `p - off` bytes. -/
theorem sliceTlv_agrees (hs : Part m h s b) {off p len : ℕ} (hoff : off + 2 ≤ p)
    (hp : p ≤ b.length) (hpos : 0 < b.length) (hroom : p + len ≤ b.length → len + 4 < m.limit) :
    Agrees (TlvRead m h b off)
      (minus s.size p >>= fun left => do
        refuseIf (len > left) Error.badHandshake
        let header ← minus p off
        let full ← m.plus header len
        let next ← m.plus p len
        pure (⟨byteAt b off, s.sub off full, s.sub p len, next⟩ : DerTlvSpans))
      (sliceTlv b off p len) := by
  have hlimit := hs.length_lt
  unfold sliceTlv
  rw [hs.size_eq, minus_eq hp, pure_bind]
  refine agrees_refuseIf Iff.rfl fun hfits => ?_
  have hvalue := hs.sub (i := p) (n := len) (by omega)
  rw [minus_eq (by omega), pure_bind, memory_plus_eq (by omega), pure_bind,
    memory_plus_eq (by omega), pure_bind]
  have hpointer : ∀ i n, (s.sub i n).data ≠ none := by
    intro i n
    have hnull := hs.data_ne_none hpos
    unfold ByteSpan.sub
    simpa using hnull
  refine agrees_pure
    ⟨⟨rfl, hs.sub (by omega), hvalue, rfl, hpointer _ _, hpointer _ _, ?_⟩, ?_, ?_⟩
  · rw [slice_length (by omega)]
    exact hroom (by omega)
  · dsimp only
    omega
  · dsimp only
    omega

/-- **The reader**: it does not fault on an element at the start of a part, nor at an offset to
which four can be added. -/
theorem readTlv_agrees (hs : Part m h s b) (off : ℕ) (hroom : off = 0 ∨ b.length + 4 < m.limit) :
    Agrees (TlvRead m h b off) (m.readTlv s off) (readTlv b off) := by
  have hlimit := hs.length_lt
  have hwide := m.wide
  have hsize := hs.size_eq
  unfold Memory.readTlv Model.readTlv
  have hfirst : (s.data = none ∨ off ≥ s.size) ↔ off ≥ b.length := by
    rw [hsize]
    refine ⟨fun hor => hor.elim (fun hnull => ?_) id, .inr⟩
    rw [← hsize, hs.size_of_null hnull]
    exact Nat.zero_le off
  refine agrees_refuseIf hfirst fun hoff => ?_
  rw [readAt_eq hs (by omega), pure_bind, memory_plus_eq (by omega), pure_bind]
  refine agrees_refuseIf (by rw [hsize]) fun htag => ?_
  rw [readAt_eq hs (by omega), pure_bind, memory_plus_eq (by omega), pure_bind]
  dsimp only
  unfold Memory.readLength
  by_cases hshort : byteAt b (off + 1) &&& 0x80 = 0
  · have hlt := (and_topBit _).1 hshort
    rw [if_pos hshort, pure_bind, if_pos hlt]
    exact sliceTlv_agrees hs (Nat.le_refl _) (by omega) (by omega) fun _ => by omega
  have hge : ¬ (byteAt b (off + 1)).toNat < 0x80 := fun hlt => hshort ((and_topBit _).2 hlt)
  rw [if_neg hshort, if_neg hge, and_lowBits (Nat.le_of_not_lt hge)]
  generalize (byteAt b (off + 1)).toNat - 0x80 = n
  simp only [bind_assoc]
  refine agrees_refuseIf_or or_assoc.symm fun hn => ?_
  rw [memory_plus_eq (by omega), pure_bind]
  refine agrees_refuseIf (by rw [hsize]) fun hheader => ?_
  rw [readAt_eq hs (by omega), pure_bind]
  refine agrees_refuseIf Iff.rfl fun _ => ?_
  have hpow : 256 ^ n ≤ 256 ^ 4 := Nat.pow_le_pow_right (by decide) (by omega)
  have hloop : m.lengthLoop s n 0 (off + 2) = pure (beNat (slice b (off + 2) n), off + 2 + n) :=
    memory_lengthLoop_eq hs n (by omega) (by omega)
  rw [hloop, pure_bind]
  have hlen : beNat (slice b (off + 2) n) < 256 ^ n := by
    have hofOctets := ofOctets_lt (slice b (off + 2) n)
    rwa [slice_length (by omega), ← beNat_eq_ofOctets] at hofOctets
  refine agrees_refuseIf Iff.rfl fun _ => ?_
  rw [pure_bind]
  refine sliceTlv_agrees hs (by omega) (by omega) (by omega) fun hfits => ?_
  by_cases hfour : n = 4
  · omega
  · have hpow' : 256 ^ n ≤ 256 ^ 3 := Nat.pow_le_pow_right (by decide) (by omega)
    omega

/-! ## Uses of the reader -/

/-- The reader of an element reads inside the input and agrees. -/
theorem readTlv_orRefuse_agrees (hs : Part m h s b) {off : ℕ}
    (hroom : off = 0 ∨ b.length + 4 < m.limit) :
    Agrees (TlvRead m h b off) (orRefuse (m.readTlv s off) Error.badHandshake) (readTlv b off) :=
  (readTlv_agrees hs off hroom).orRefuse fun _ he => readTlv_error he

/-- The comparison of object identifiers reads inside both. -/
theorem oidEq_eq (hs : Part m h s b) {expected : Bytes} (hne : 0 < expected.length) :
    m.oidEq (ε := ε) s expected = pure (oidEq b expected) := by
  have hsize := hs.size_eq
  unfold Memory.oidEq Model.oidEq
  by_cases hlen : s.size = expected.length
  · have hwhole : slice b 0 expected.length = b := by
      unfold slice
      rw [List.drop_zero, List.take_of_length_le (by omega)]
    rw [if_pos hlen, readBytes_eq hs (hs.data_ne_none (by omega)) (by omega), pure_bind, hwhole]
  · have hne' : b ≠ expected := by
      intro heq
      rw [hsize, heq] at hlen
      exact hlen rfl
    rw [if_neg hlen, decide_eq_false hne']

end XboxTls.Analysis
