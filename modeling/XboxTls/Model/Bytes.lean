import Mathlib.Algebra.Group.Nat.Defs
import Mathlib.Data.List.Basic
import Mathlib.Tactic.Common

/-!
# Bytes, fixed arrays, C strings and error codes

The vocabulary of `include/xboxtls/types.h`, `error.h` and `endian.h`.  A span with
non-null data is the list of its bytes; a fixed array `xt_u8 a[n]` is a list with
its length `n`; a C string is the list of its bytes before the terminating zero,
which contains no zero.  `size_t` values are natural numbers: every size that the
code adds up is bounded by the buffers it measures.
-/

set_option autoImplicit false

namespace XboxTls.Model

/-- A byte string, the contents of a non-null `ByteSpan`. -/
abbrev Bytes : Type := List UInt8

/-- A fixed array `xt_u8 a[n]`. -/
abbrev FixedBytes (n : ℕ) : Type := { b : Bytes // b.length = n }

namespace FixedBytes

/-- The array after `memset(a, 0, sizeof(a))`. -/
def zero (n : ℕ) : FixedBytes n := ⟨List.replicate n 0, List.length_replicate⟩

/-- The first `n` bytes of `b`, filled up with zeros. -/
def ofBytes (n : ℕ) (b : Bytes) : FixedBytes n :=
  ⟨b.take n ++ List.replicate (n - b.length) 0, by
    simp only [List.length_append, List.length_take, List.length_replicate]
    omega⟩

/-- `a[i] = v`. -/
def set {n : ℕ} (a : FixedBytes n) (i : ℕ) (v : UInt8) : FixedBytes n :=
  ⟨a.val.set i v, by simp [a.property]⟩

/-- `memcpy(a, b, sizeof(b))` for an array `b` that is not longer than `a`. -/
def overwrite {n m : ℕ} (a : FixedBytes n) (b : FixedBytes m) (h : m ≤ n) : FixedBytes n :=
  ⟨b.val ++ a.val.drop m, by
    simp only [List.length_append, List.length_drop, a.property, b.property]
    omega⟩

/-- Bytes of the right number are taken as they are. -/
@[simp] theorem ofBytes_val_of_length {n : ℕ} (b : Bytes) (h : b.length = n) :
    (ofBytes n b).val = b := by
  subst h
  simp [ofBytes]

/-- Bytes that are too few are filled up with zeros. -/
theorem ofBytes_val_of_le {n : ℕ} {b : Bytes} (h : b.length ≤ n) :
    (ofBytes n b).val = b ++ List.replicate (n - b.length) 0 := by
  show b.take n ++ _ = _
  rw [List.take_of_length_le h]

/-- The bytes just copied are the front of the array. -/
theorem take_overwrite {n m : ℕ} (a : FixedBytes n) (b : FixedBytes m) (h : m ≤ n) :
    (a.overwrite b h).val.take m = b.val := by
  simp [overwrite, b.property]

end FixedBytes

/-- A C string: its bytes up to the terminating zero. -/
abbrev CString : Type := { s : Bytes // (0 : UInt8) ∉ s }

/-- The error codes of `error.h`; `XT_OK` is the outcome with a value. -/
inductive Error where
  | invalidArgument
  | bufferTooSmall
  | badRecord
  | badHandshake
  | unsupported
  | crypto
  | verify
  | io
  | closed
  deriving DecidableEq, Repr

/-- `p[i]`. -/
def byteAt (b : Bytes) (i : ℕ) : UInt8 := b.getD i 0

/-- `load_be16(b + i)`. -/
def loadBe16 (b : Bytes) (i : ℕ) : ℕ := (byteAt b i).toNat * 256 + (byteAt b (i + 1)).toNat

/-- `load_be24(b + i)`, also `load_u24`, `read_u24` and `be24`. -/
def loadBe24 (b : Bytes) (i : ℕ) : ℕ :=
  (byteAt b i).toNat * 65536 + (byteAt b (i + 1)).toNat * 256 + (byteAt b (i + 2)).toNat

/-- `store_be16(p, (xt_u16)v)`: the value is cut to 16 bits. -/
def storeBe16 (v : ℕ) : Bytes := [UInt8.ofNat (v / 256), UInt8.ofNat v]

/-- `store_be24(p, (xt_u32)v)`: the value is cut to 24 bits. -/
def storeBe24 (v : ℕ) : Bytes := [UInt8.ofNat (v / 65536), UInt8.ofNat (v / 256), UInt8.ofNat v]

/-- The bytes `p[i], …, p[i + n - 1]`. -/
def slice (b : Bytes) (i n : ℕ) : Bytes := (b.drop i).take n

/-- A stored 16-bit number has two bytes. -/
@[simp] theorem storeBe16_length (v : ℕ) : (storeBe16 v).length = 2 := rfl

/-- A stored 24-bit number has three bytes. -/
@[simp] theorem storeBe24_length (v : ℕ) : (storeBe24 v).length = 3 := rfl

/-- A slice has at most as many bytes as asked for. -/
theorem slice_length_le (b : Bytes) (i n : ℕ) : (slice b i n).length ≤ n := by
  simp only [slice, List.length_take]
  omega

/-- A 16-bit field that was stored is read back from where it was stored. -/
theorem loadBe16_storeBe16 (v : ℕ) (hv : v < 65536) (b : Bytes) :
    loadBe16 (storeBe16 v ++ b) 0 = v := by
  simp only [loadBe16, byteAt, storeBe16, List.cons_append, List.nil_append,
    List.getD_cons_zero, List.getD_cons_succ, UInt8.toNat_ofNat']
  omega

/-- Collecting the differing bits of two strings of one length with `|` gives zero exactly
when the strings are equal. -/
theorem foldl_or_xor_eq_zero_iff (a b : Bytes) (h : a.length = b.length) :
    (List.zipWith (· ^^^ ·) a b).foldl (· ||| ·) 0 = 0 ↔ a = b := by
  have key : ∀ (a b : Bytes) (acc : UInt8), a.length = b.length →
      ((List.zipWith (· ^^^ ·) a b).foldl (· ||| ·) acc = 0 ↔ acc = 0 ∧ a = b) := by
    intro a
    induction a with
    | nil =>
      intro b acc hab
      cases b with
      | nil => simp
      | cons y b => simp at hab
    | cons x a ih =>
      intro b acc hab
      cases b with
      | nil => simp at hab
      | cons y b =>
        have hab' : a.length = b.length := by simpa using hab
        simp only [List.zipWith_cons_cons, List.foldl_cons, ih b _ hab', List.cons.injEq]
        rw [UInt8.or_eq_zero_iff, UInt8.xor_eq_zero_iff]
        tauto
  simpa using key a b 0 h

/-- A loaded number has 16 bits. -/
theorem loadBe16_le (b : Bytes) (i : ℕ) : loadBe16 b i ≤ 65535 := by
  have h1 := (byteAt b i).toNat_lt
  have h2 := (byteAt b (i + 1)).toNat_lt
  unfold loadBe16
  omega

/-- A loaded number has 24 bits. -/
theorem loadBe24_le (b : Bytes) (i : ℕ) : loadBe24 b i ≤ 0xFFFFFF := by
  have h1 := (byteAt b i).toNat_lt
  have h2 := (byteAt b (i + 1)).toNat_lt
  have h3 := (byteAt b (i + 2)).toNat_lt
  unfold loadBe24
  omega

end XboxTls.Model
