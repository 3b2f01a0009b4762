import XboxTls.Analysis.ByteStrings
import XboxTls.Model.Memory

/-!
# Parts of a span

A span that was cut out of another one holds a part of its bytes.  Whatever is read through it
below its size is a byte of that part, so that a guarded read is the read of the model that knows
byte strings only.
-/

set_option autoImplicit false

namespace XboxTls.Analysis

open Programs Programs.Guarded XboxTls.Model

variable {ε : Type} {m : Memory} {h s t : ByteSpan} {b : Bytes}

/-! ## Spans in spans -/

/-- A span lies in itself. -/
theorem within_refl (s : ByteSpan) (hs : s.data = none → s.size = 0) : s.Within s := by
  unfold ByteSpan.Within
  cases hd : s.data with
  | none => exact hs hd
  | some d => exact ⟨Nat.le_refl d, Nat.le_refl _⟩

/-- The null span lies in every span. -/
theorem within_null (s : ByteSpan) : ByteSpan.null.Within s :=
  rfl

/-- A null span is empty. -/
theorem size_eq_zero_of_null (hs : s.Inside m) (hd : s.data = none) : s.size = 0 := by
  unfold ByteSpan.Inside at hs
  rwa [hd] at hs

/-- The span `t` was cut out of `h`, which lies in the memory, and `b` are its bytes. -/
structure Part (m : Memory) (h t : ByteSpan) (b : Bytes) : Prop where
  root : h.Inside m
  within : t.Within h
  bytes : t.bytes m = b

/-- A span is a part of itself. -/
theorem Part.self (hs : s.Inside m) : Part m s s (s.bytes m) :=
  ⟨hs, within_refl s (size_eq_zero_of_null hs), rfl⟩

/-- The null span is an empty part. -/
theorem Part.null (hs : h.Inside m) : Part m h .null [] :=
  ⟨hs, rfl, rfl⟩

/-- A part is null, or a range of the memory. -/
theorem Part.cases (ht : Part m h t b) :
    (t.data = none ∧ t.size = 0 ∧ b = []) ∨
      ∃ d, t.data = some d ∧ d + t.size ≤ m.bytes.length ∧ b = slice m.bytes d t.size := by
  obtain ⟨hroot, hwithin, rfl⟩ := ht
  unfold ByteSpan.Inside at hroot
  unfold ByteSpan.Within at hwithin
  unfold ByteSpan.bytes
  cases hd : t.data with
  | none =>
    rw [hd] at hwithin
    exact .inl ⟨rfl, hwithin, rfl⟩
  | some d =>
    cases hd' : h.data with
    | none =>
      rw [hd, hd'] at hwithin
      exact hwithin.elim
    | some d' =>
      rw [hd'] at hroot
      rw [hd, hd'] at hwithin
      obtain ⟨hlow, hhigh⟩ := hwithin
      exact .inr ⟨d, rfl, Nat.le_trans hhigh hroot, rfl⟩

/-- A part has as many bytes as its span says. -/
theorem Part.size_eq (ht : Part m h t b) : t.size = b.length := by
  obtain ⟨-, hsize, rfl⟩ | ⟨d, -, hfits, rfl⟩ := ht.cases
  · exact hsize
  · exact (slice_length hfits).symm

/-- A part with a null pointer is empty. -/
theorem Part.size_of_null (ht : Part m h t b) (hd : t.data = none) : t.size = 0 := by
  obtain ⟨-, hsize, -⟩ | ⟨d, hd', -, -⟩ := ht.cases
  · exact hsize
  · rw [hd] at hd'
    cases hd'

/-- A part is shorter than the address space. -/
theorem Part.length_lt (ht : Part m h t b) : b.length < m.limit := by
  have haddr := m.addressable
  obtain ⟨-, -, rfl⟩ | ⟨d, -, hfits, rfl⟩ := ht.cases
  · exact Nat.lt_of_le_of_lt (Nat.zero_le _) haddr
  · rw [slice_length hfits]
    omega

/-- A part with bytes has a pointer. -/
theorem Part.data_ne_none (ht : Part m h t b) (hb : 0 < b.length) : t.data ≠ none := by
  obtain ⟨-, -, rfl⟩ | ⟨d, hd, -, -⟩ := ht.cases
  · exact absurd hb (Nat.lt_irrefl 0)
  · rw [hd]
    exact Option.some_ne_none d

/-- A span cut out of a part. -/
theorem Part.sub (ht : Part m h t b) {i n : ℕ} (hin : i + n ≤ b.length) :
    Part m h (t.sub i n) (slice b i n) := by
  refine ⟨ht.root, ?_, ?_⟩
  · have hsize := ht.size_eq
    have hwithin := ht.within
    unfold ByteSpan.Within at hwithin ⊢
    unfold ByteSpan.sub
    cases hd : t.data with
    | none =>
      rw [hd] at hwithin
      show n = 0
      change t.size = 0 at hwithin
      omega
    | some d =>
      cases hd' : h.data with
      | none =>
        rw [hd, hd'] at hwithin
        exact hwithin.elim
      | some d' =>
        rw [hd, hd'] at hwithin
        change d' ≤ d ∧ d + t.size ≤ d' + h.size at hwithin
        show d' ≤ d + i ∧ d + i + n ≤ d' + h.size
        omega
  · obtain ⟨hd, -, rfl⟩ | ⟨d, hd, -, rfl⟩ := ht.cases
    · unfold ByteSpan.bytes ByteSpan.sub
      rw [hd]
      simp [slice]
    · rw [← ht.size_eq] at hin
      unfold ByteSpan.bytes ByteSpan.sub
      rw [hd, slice_slice hin]
      rfl

/-! ## Reads -/

/-- A read inside a part gives its byte. -/
theorem readAt_eq (ht : Part m h t b) {i : ℕ} (hi : i < b.length) :
    m.readAt (ε := ε) t i = pure (byteAt b i) := by
  have hsize := ht.size_eq
  obtain ⟨-, -, rfl⟩ | ⟨d, hd, hfits, rfl⟩ := ht.cases
  · cases hi
  · have hbound : d + i < m.bytes.length := by omega
    unfold Memory.readAt
    rw [hd]
    dsimp only
    rw [if_pos (by omega), getAt_eq hbound, byteAt_slice (by omega), byteAt_eq_getElem hbound]

/-- A copy out of a part gives its bytes. -/
theorem readBytes_eq (ht : Part m h t b) (hnull : t.data ≠ none) {i n : ℕ}
    (hin : i + n ≤ b.length) : m.readBytes (ε := ε) t i n = pure (slice b i n) := by
  have hsize := ht.size_eq
  obtain ⟨hd, -, -⟩ | ⟨d, hd, hfits, rfl⟩ := ht.cases
  · exact absurd hd hnull
  · unfold Memory.readBytes
    rw [hd]
    dsimp only
    rw [if_pos (by omega), slice_slice (by omega)]

/-- A 16-bit number inside a part is loaded. -/
theorem loadBe16_eq (ht : Part m h t b) {i : ℕ} (hi : i + 2 ≤ b.length) :
    m.loadBe16 (ε := ε) t i = pure (loadBe16 b i) := by
  unfold Memory.loadBe16
  rw [readAt_eq ht (by omega), pure_bind, readAt_eq ht (by omega), pure_bind]
  rfl

/-- A 24-bit number inside a part is loaded. -/
theorem loadBe24_eq (ht : Part m h t b) {i : ℕ} (hi : i + 3 ≤ b.length) :
    m.loadBe24 (ε := ε) t i = pure (loadBe24 b i) := by
  unfold Memory.loadBe24
  rw [readAt_eq ht (by omega), pure_bind, readAt_eq ht (by omega), pure_bind,
    readAt_eq ht (by omega), pure_bind]
  rfl

/-- A sum below the limit is the sum. -/
theorem memory_plus_eq {x y : ℕ} (hxy : x + y < m.limit) :
    m.plus (ε := ε) x y = pure (x + y) :=
  plus_eq hxy

end XboxTls.Analysis
