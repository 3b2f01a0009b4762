import XboxTls.Model.Bytes
import XboxTls.Programs.Guarded

/-!
# Memory, spans and guarded reads

The parsers once more, as far as their memory is concerned: a span is a pointer and a size, every
read says where it reads, and a `size_t` has its platform's range.  A read outside of the span it
is made through faults, also where the memory goes on behind the span.
-/

set_option autoImplicit false

namespace XboxTls.Model

open Programs Programs.Guarded

/-- A block of memory on a platform whose `size_t` counts below `limit`. -/
structure Memory where
  bytes : Bytes
  limit : ℕ
  wide : 2 ^ 32 ≤ limit
  addressable : bytes.length < limit

/-- `ByteSpan`: the pointer is an offset into the memory, or null. -/
structure ByteSpan where
  data : Option ℕ
  size : ℕ
  deriving DecidableEq, Repr

namespace ByteSpan

/-- `ByteSpan()`. -/
def null : ByteSpan := ⟨none, 0⟩

/-- `ByteSpan(s.data + i, n)`. -/
def sub (s : ByteSpan) (i n : ℕ) : ByteSpan := ⟨s.data.map (· + i), n⟩

/-- The bytes of a span. -/
def bytes (s : ByteSpan) (m : Memory) : Bytes :=
  match s.data with
  | none => []
  | some d => slice m.bytes d s.size

/-- The span lies in the memory. -/
def Inside (s : ByteSpan) (m : Memory) : Prop :=
  match s.data with
  | none => s.size = 0
  | some d => d + s.size ≤ m.bytes.length

instance (s : ByteSpan) (m : Memory) : Decidable (s.Inside m) := by
  unfold Inside
  split <;> infer_instance

/-- The span `t` lies in the span `s`. -/
def Within (t s : ByteSpan) : Prop :=
  match t.data, s.data with
  | none, _ => t.size = 0
  | some d, some d' => d' ≤ d ∧ d + t.size ≤ d' + s.size
  | some _, none => False

end ByteSpan

namespace Memory

variable {ε : Type}

/-- A span that a caller of the library may pass. -/
abbrev Span (m : Memory) : Type := { s : ByteSpan // s.Inside m }

/-- `s.data[i]`. -/
def readAt (m : Memory) (s : ByteSpan) (i : ℕ) : Guarded ε UInt8 :=
  match s.data with
  | none => fault
  | some d => if i < s.size then getAt m.bytes (d + i) else fault

/-- The bytes that `memcpy` and `memcmp` read at `s.data + i`. -/
def readBytes (m : Memory) (s : ByteSpan) (i n : ℕ) : Guarded ε Bytes :=
  match s.data with
  | none => fault
  | some d =>
    if i + n ≤ s.size ∧ d + i + n ≤ m.bytes.length then pure (slice m.bytes (d + i) n) else fault

/-- `load_be16(s.data + i)`. -/
def loadBe16 (m : Memory) (s : ByteSpan) (i : ℕ) : Guarded ε ℕ := do
  let b0 ← m.readAt s i
  let b1 ← m.readAt s (i + 1)
  pure (b0.toNat * 256 + b1.toNat)

/-- `load_be24(s.data + i)`, also `load_u24`, `read_u24` and `be24`. -/
def loadBe24 (m : Memory) (s : ByteSpan) (i : ℕ) : Guarded ε ℕ := do
  let b0 ← m.readAt s i
  let b1 ← m.readAt s (i + 1)
  let b2 ← m.readAt s (i + 2)
  pure (b0.toNat * 65536 + b1.toNat * 256 + b2.toNat)

/-- `a + b` in `size_t`. -/
def plus (m : Memory) (a b : ℕ) : Guarded ε ℕ := Guarded.plus m.limit a b

end Memory

end XboxTls.Model
