import XboxTls.Model.Bytes

/-!
# Byte strings and the numbers in them

What a byte, a slice and a number of two or three bytes are in a string that was put together
from others.
-/

set_option autoImplicit false

namespace XboxTls.Analysis

open XboxTls.Model

/-! ## Bytes and slices -/

/-- A byte inside the string is its member. -/
theorem byteAt_eq_getElem {b : Bytes} {i : ℕ} (h : i < b.length) : byteAt b i = b[i] := by
  unfold byteAt
  rw [List.getD_eq_getElem?_getD, List.getElem?_eq_getElem h, Option.getD_some]

/-- A byte of the front string. -/
theorem byteAt_append {header rest : Bytes} {n : ℕ} (h : n < header.length) :
    byteAt (header ++ rest) n = byteAt header n := by
  unfold byteAt
  rw [List.getD_eq_getElem?_getD, List.getD_eq_getElem?_getD, List.getElem?_append_left h]

/-- A byte of what is taken. -/
theorem byteAt_take {b : Bytes} {n i : ℕ} (h : i < n) : byteAt (b.take n) i = byteAt b i := by
  unfold byteAt
  rw [List.getD_eq_getElem?_getD, List.getD_eq_getElem?_getD, List.getElem?_take_of_lt h]

/-- A byte of a slice. -/
theorem byteAt_slice {b : Bytes} {i n j : ℕ} (h : j < n) :
    byteAt (slice b i n) j = byteAt b (i + j) := by
  unfold byteAt slice
  rw [List.getD_eq_getElem?_getD, List.getD_eq_getElem?_getD, List.getElem?_take_of_lt h,
    List.getElem?_drop]

/-- The slice of a front string is that string. -/
theorem slice_append_left {a b : Bytes} {n : ℕ} (h : a.length = n) :
    slice (a ++ b) 0 n = a := by
  simp [slice, ← h]

/-- A slice behind a front string is one from the start of the rest. -/
theorem slice_append_right {a b : Bytes} {n m : ℕ} (h : a.length = n) :
    slice (a ++ b) n m = b.take m := by
  simp [slice, ← h]

/-- A slice inside a front string. -/
theorem slice_append_of_le {a b : Bytes} {i n : ℕ} (h : i + n ≤ a.length) :
    slice (a ++ b) i n = slice a i n := by
  unfold slice
  rw [List.drop_append_of_le_length (by omega), List.take_append_of_le_length]
  rw [List.length_drop]
  omega

/-- A slice of a slice is one of the string. -/
theorem slice_slice {b : Bytes} {i n j m : ℕ} (h : j + m ≤ n) :
    slice (slice b i n) j m = slice b (i + j) m := by
  unfold slice
  rw [List.drop_take, List.take_take, List.drop_drop, Nat.min_eq_left (by omega)]

/-- Two slices in a row are one. -/
theorem slice_append_slice (b : Bytes) (i n m : ℕ) :
    slice b i n ++ slice b (i + n) m = slice b i (n + m) := by
  unfold slice
  rw [List.take_add, List.drop_drop]

/-- A slice inside the string has the length asked for. -/
theorem slice_length {b : Bytes} {i n : ℕ} (h : i + n ≤ b.length) : (slice b i n).length = n := by
  unfold slice
  rw [List.length_take, List.length_drop]
  omega

/-- A slice is its first byte and the slice behind it. -/
theorem slice_succ {b : Bytes} {p n : ℕ} (h : p < b.length) :
    slice b p (n + 1) = byteAt b p :: slice b (p + 1) n := by
  unfold slice byteAt
  rw [List.drop_eq_getElem_cons h, List.take_succ_cons, List.getD_eq_getElem?_getD,
    List.getElem?_eq_getElem h, Option.getD_some]

/-- Masking twice with one mask is the identity. -/
theorem zipWith_xor_xor (a mask : Bytes) (h : a.length ≤ mask.length) :
    List.zipWith (· ^^^ ·) (List.zipWith (· ^^^ ·) a mask) mask = a := by
  induction a generalizing mask with
  | nil => rfl
  | cons x a ih =>
    cases mask with
    | nil => cases h
    | cons m mask =>
      have hlen : a.length ≤ mask.length := by simpa using h
      simp only [List.zipWith_cons_cons, ih mask hlen, UInt8.xor_assoc, UInt8.xor_self,
        UInt8.xor_zero]

/-! ## Numbers -/

/-- A 16-bit field that was read is stored as it was. -/
theorem storeBe16_loadBe16 (b : Bytes) (i : ℕ) :
    storeBe16 (loadBe16 b i) = [byteAt b i, byteAt b (i + 1)] := by
  have hlo := (byteAt b (i + 1)).toNat_lt
  have hhi := (byteAt b i).toNat_lt
  have hdiv : ((byteAt b i).toNat * 256 + (byteAt b (i + 1)).toNat) / 256 =
      (byteAt b i).toNat := by omega
  unfold storeBe16 loadBe16
  rw [hdiv, UInt8.ofNat_toNat]
  congr 2
  apply UInt8.toNat_inj.mp
  rw [UInt8.toNat_ofNat']
  omega

/-- A number inside what is taken. -/
theorem loadBe24_take {b : Bytes} {n i : ℕ} (h : i + 2 < n) :
    loadBe24 (b.take n) i = loadBe24 b i := by
  unfold loadBe24
  rw [byteAt_take (by omega), byteAt_take (by omega), byteAt_take (by omega)]

/-- A number inside a front string. -/
theorem loadBe16_append {b rest : Bytes} {i : ℕ} (h : i + 1 < b.length) :
    loadBe16 (b ++ rest) i = loadBe16 b i := by
  unfold loadBe16
  rw [byteAt_append (by omega), byteAt_append h]

/-- A byte behind what is dropped. -/
theorem byteAt_drop (b : Bytes) (n i : ℕ) : byteAt (b.drop n) i = byteAt b (n + i) := by
  unfold byteAt
  rw [List.getD_eq_getElem?_getD, List.getD_eq_getElem?_getD, List.getElem?_drop]

/-- A byte behind a front string. -/
theorem byteAt_append_right {a b : Bytes} {n i : ℕ} (h : a.length = n) :
    byteAt (a ++ b) (n + i) = byteAt b i := by
  rw [← byteAt_drop, ← h, List.drop_left]

/-- A 16-bit number behind what is dropped. -/
theorem loadBe16_drop (b : Bytes) (n i : ℕ) : loadBe16 (b.drop n) i = loadBe16 b (n + i) := by
  unfold loadBe16
  rw [byteAt_drop, byteAt_drop, Nat.add_assoc]

/-- A 24-bit number behind what is dropped. -/
theorem loadBe24_drop (b : Bytes) (n i : ℕ) : loadBe24 (b.drop n) i = loadBe24 b (n + i) := by
  simp only [loadBe24, byteAt_drop, Nat.add_assoc]

/-- A number inside a slice. -/
theorem loadBe16_slice {b : Bytes} {i n j : ℕ} (h : j + 1 < n) :
    loadBe16 (slice b i n) j = loadBe16 b (i + j) := by
  unfold loadBe16
  rw [byteAt_slice (by omega), byteAt_slice h, Nat.add_assoc]

/-- Two bytes are the number that they hold. -/
theorem slice_two {b : Bytes} {i : ℕ} (h : i + 2 ≤ b.length) :
    slice b i 2 = storeBe16 (loadBe16 b i) := by
  rw [storeBe16_loadBe16, slice_succ (by omega), slice_succ (by omega)]
  simp [slice]

/-- Three bytes are the number that they hold. -/
theorem slice_three {b : Bytes} {i : ℕ} (h : i + 3 ≤ b.length) :
    slice b i 3 = storeBe24 (loadBe24 b i) := by
  have h0 := (byteAt b i).toNat_lt
  have h1 := (byteAt b (i + 1)).toNat_lt
  have h2 := (byteAt b (i + 2)).toNat_lt
  have hbytes : storeBe24 (loadBe24 b i) = [byteAt b i, byteAt b (i + 1), byteAt b (i + 2)] := by
    unfold storeBe24 loadBe24
    congr 2
    · rw [← UInt8.toNat_inj, UInt8.toNat_ofNat']
      omega
    · rw [← UInt8.toNat_inj, UInt8.toNat_ofNat']
      omega
    · congr 1
      rw [← UInt8.toNat_inj, UInt8.toNat_ofNat']
      omega
  rw [hbytes, slice_succ (by omega), slice_succ (by omega), slice_succ (by omega)]
  simp [slice]

/-- A stored number is loaded. -/
theorem loadBe24_storeBe24 (v : ℕ) (hv : v < 16777216) (b : Bytes) :
    loadBe24 (storeBe24 v ++ b) 0 = v := by
  simp only [loadBe24, byteAt, storeBe24, List.cons_append, List.nil_append,
    List.getD_cons_zero, List.getD_cons_succ, UInt8.toNat_ofNat']
  omega

/-- A number of two bytes can be read back. -/
theorem storeBe16_inj {v w : ℕ} (hv : v < 65536) (hw : w < 65536)
    (h : storeBe16 v = storeBe16 w) : v = w := by
  have hload := loadBe16_storeBe16 v hv []
  rw [h, loadBe16_storeBe16 w hw] at hload
  exact hload.symm

end XboxTls.Analysis
