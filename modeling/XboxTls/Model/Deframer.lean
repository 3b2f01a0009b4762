import XboxTls.Model.Handshake
import XboxTls.Programs.Prog

/-!
# The handshake deframer and its storage (`handshake.cpp`)

`HandshakeDeframer` over the storage that its owner hands to it: `append` copies behind the
bytes in use, and `consume` moves what is behind the first message to the front of the
storage.  `Model.HandshakeDeframer` keeps only the bytes in use.
-/

set_option autoImplicit false

namespace XboxTls.Model

open Programs

/-- The fields `storage_` and `used_` of `HandshakeDeframer`; `null` is whether
`storage_.data` is null, and the length of `storage` is `storage_.size`. -/
structure StoredDeframer where
  null : Bool
  storage : Bytes
  used : ℕ
  deriving DecidableEq, Repr

/-- `storage` after `memcpy(storage + i, bytes)` or `memmove(storage + i, bytes)`. -/
def writeAt (storage : Bytes) (i : ℕ) (bytes : Bytes) : Bytes :=
  storage.take i ++ bytes ++ storage.drop (i + bytes.length)

namespace StoredDeframer

/-- A method of the deframer. -/
abbrev DeframerM (α : Type) : Type := Prog StoredDeframer Error α

/-- The constructor. -/
def construct (null : Bool) (storage : Bytes) : StoredDeframer := ⟨null, storage, 0⟩

/-- `HandshakeDeframer::reset`. -/
def reset : DeframerM Unit := Prog.modify fun d => { d with used := 0 }

/-- `HandshakeDeframer::buffered`. -/
def buffered : DeframerM ℕ := do
  let d ← Prog.get
  pure d.used

/-- `HandshakeDeframer::append`; `null` is whether the data pointer of the span is null.
SOURCE: src/tls/handshake.cpp:45-54 -/
def append (null : Bool) (bytes : Bytes) : DeframerM Unit := do
  let d ← Prog.get
  if (null ∧ bytes.length ≠ 0) ∨ (d.null ∧ d.storage.length ≠ 0) then
    Prog.throw .invalidArgument
  else if bytes.length > d.storage.length - d.used then Prog.throw .bufferTooSmall
  else Prog.modify fun d => { d with
    storage := if bytes.length ≠ 0 then writeAt d.storage d.used bytes else d.storage
    used := d.used + bytes.length }

/-- `parse_handshake_message` on the part of the storage in use. -/
def parse (d : StoredDeframer) : Except Error (HandshakeMessage × ℕ) :=
  if d.null ∧ d.used ≠ 0 then .error .invalidArgument
  else parseHandshakeMessage (d.storage.take d.used)

/-- `HandshakeDeframer::peek`.
SOURCE: src/tls/handshake.cpp:56-59 -/
def peek : DeframerM HandshakeMessage := do
  let d ← Prog.get
  let m ← Prog.lift d.parse
  pure m.1

/-- `HandshakeDeframer::consume`.
SOURCE: src/tls/handshake.cpp:61-71 -/
def consume : DeframerM Unit := do
  let d ← Prog.get
  let m ← Prog.lift d.parse
  Prog.modify fun d => { d with
    storage :=
      if m.2 < d.used then writeAt d.storage 0 (slice d.storage m.2 (d.used - m.2))
      else d.storage
    used := d.used - m.2 }

end StoredDeframer

end XboxTls.Model
