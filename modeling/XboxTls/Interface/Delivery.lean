import XboxTls.Interface.AppData
import XboxTls.Interface.PeerTraffic

/-!
# Delivering what a server sends

A stream that delivers the bytes of the server in pieces of any size, and what the calls of
`recv` have to return over it.
-/

set_option autoImplicit false

namespace XboxTls.Interface

open XboxTls.Model

/-- A stream that still hands out the bytes `inbox` and takes what is written, and a `malloc`
that succeeds. -/
structure Delivers {W : Type} (E : Env W) (inbox : W → Bytes) : Prop where
  recvSome : ∀ stream n w, 0 < n → inbox w ≠ [] → ∃ b w',
    E.recvSome stream n w = some (.ok b, w') ∧ b.val ≠ [] ∧ inbox w = b.val ++ inbox w'
  sendAll : ∀ stream bytes w, ∃ w', E.sendAll stream bytes w = some (.ok (), w') ∧
    inbox w' = inbox w
  malloc : ∀ n w, (E.malloc n w).1 = true ∧ inbox (E.malloc n w).2 = inbox w

/-- The bytes of the pending buffer that `recv` has not handed out. -/
def pendingBytes {P : Crypto} (c : TlsClient P) : Bytes :=
  slice c.pendingApp c.pendingAppOffset c.pendingAppLength

/-- A close_notify of this level. -/
def closeNotify (P : Crypto) (t : Traffic) (level : UInt8) (padding : ℕ) : Bytes :=
  sealedRecord P t.keys contentAlert [level, 0] padding

/-- The bytes that calls returned, in order. -/
def receivedBytes (log : List (Call × Except Error Bytes)) : Bytes :=
  log.flatMap fun entry => match entry.2 with
    | .ok bytes => bytes
    | .error _ => []

/-- A call of `recv` with a place for its result, and a buffer unless the capacity is zero. -/
def IsRecv (call : Call) : Prop :=
  ∃ outNull size, call = .recv false outNull size ∧ (outNull = true → size = 0)

/-- The capacity of a call of `recv`. -/
def capacityOf : Call → ℕ
  | .recv _ _ size => size
  | _ => 0

/-- Calls of `recv` return these bytes: in order, each no more than its capacity, and
`XT_ERR_CLOSED` only after all of them. -/
structure DeliversExactly (bytes : Bytes) (log : List (Call × Except Error Bytes)) : Prop where
  inOrder : receivedBytes log <+: bytes
  capacity : ∀ call chunk, (call, .ok chunk) ∈ log → chunk.length ≤ capacityOf call
  closed : ∀ before call after, log = before ++ (call, .error .closed) :: after →
    receivedBytes before = bytes
  noOther : ∀ call e, (call, .error e) ∈ log → e = .closed

end XboxTls.Interface
