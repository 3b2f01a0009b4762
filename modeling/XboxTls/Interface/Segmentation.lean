import XboxTls.Model.Connection

/-!
# Streams that cut their bytes differently

`recv_some` hands out as many bytes as it likes, up to the number that was asked for.  A
`Segmentation` is a stream with any such way of cutting, and `segmented` puts it in the place
of the stream of an environment.
-/

set_option autoImplicit false

namespace XboxTls.Interface

open Programs XboxTls.Model

/-- A stream that hands out its bytes in pieces: no more than was asked for, and at least one
of the bytes that are left. -/
structure Segmentation where
  State : Type
  left : State → Bytes
  next : (n : ℕ) → State → { b : Bytes // b.length ≤ n } × State
  splits : ∀ n t, left t = (next n t).1.val ++ left (next n t).2
  progress : ∀ n t, 0 < n → left t ≠ [] → (next n t).1.val ≠ []

/-- The stream that hands out at most `size` bytes at a time. -/
def pieces (size : ℕ) (hsize : 0 < size) : Segmentation where
  State := Bytes
  left := id
  next n t := (⟨t.take (min n size), (List.length_take_le _ _).trans (min_le_left n size)⟩,
    t.drop (min n size))
  splits n t := (List.take_append_drop _ t).symm
  progress n t hn ht := by
    intro hnil
    rcases List.take_eq_nil_iff.mp hnil with hzero | hempty
    · omega
    · exact ht hempty

variable {P : Crypto} {W : Type}

/-- A call to what is beside the stream. -/
def beside {T α : Type} (x : Prog W Error α) : Prog (T × W) Error α := fun w =>
  match x w.2 with
  | none => none
  | some (r, w') => some (r, (w.1, w'))

/-- The environment with this stream in the place of its own.  After the last byte every
`recv_some` reports `ended`, or zero bytes. -/
def segmented (S : Segmentation) (ended : Option Error) (E : Env W) : Env (S.State × W) where
  randomBytes platform n := beside (E.randomBytes platform n)
  sendAll stream bytes := beside (E.sendAll stream bytes)
  recvSome _ n := fun w =>
    if S.left w.1 = [] then
      match ended with
      | some e => some (.error e, w)
      | none => some (.ok ⟨[], Nat.zero_le n⟩, w)
    else some (.ok (S.next n w.1).1, ((S.next n w.1).2, w.2))
  close stream w := (w.1, E.close stream w.2)
  verifyChain verifier chain hostname := beside (E.verifyChain verifier chain hostname)
  verifySignature verifier scheme leaf message signature :=
    beside (E.verifySignature verifier scheme leaf message signature)
  malloc n w := ((E.malloc n w.2).1, (w.1, (E.malloc n w.2).2))
  sizeOfSize := E.sizeOfSize
  writeBehind bytes w := (w.1, E.writeBehind bytes w.2)
  readBehind first n w := E.readBehind first n w.2

/-- The same bytes are left on both streams, and what is beside them is the same. -/
def SameLeft (S₁ S₂ : Segmentation) (w₁ : S₁.State × W) (w₂ : S₂.State × W) : Prop :=
  S₁.left w₁.1 = S₂.left w₂.1 ∧ w₁.2 = w₂.2

/-- Some records, one after the other. -/
def readRecords (E : Env W) (capacity : ℕ) : ℕ → ClientM P W (List Bytes)
  | 0 => pure []
  | count + 1 => do
    let record ← readRecord E capacity
    let records ← readRecords E capacity count
    pure (record :: records)

/-- A header of five bytes, and as many bytes as it says. -/
def IsRecord (record : Bytes) : Prop := record.length = 5 + loadBe16 record 3

end XboxTls.Interface
