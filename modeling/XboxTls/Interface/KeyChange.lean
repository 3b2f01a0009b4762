import XboxTls.Model.Api

/-!
# Key changes and the bytes around them

When the server's read keys change, the deframer should hold nothing behind the message that
changed them; then the bytes of a message all came under the same keys (`NoneAcross`).
`KeyChangesEndFragments` is the demand on what the server sends.
-/

set_option autoImplicit false

namespace XboxTls.Interface

open XboxTls.Model

/-! ## Messages in a row -/

/-- `b'` is what is left of `b` behind whole messages, all of which satisfy `skip`. -/
inductive Skips (skip : HandshakeMessage → Prop) (b : Bytes) : Bytes → Prop where
  | refl : Skips skip b b
  | step {b' : Bytes} {m : HandshakeMessage} {n : ℕ} (hb : Skips skip b b')
      (hparse : parseHandshakeMessage b' = .ok (m, n)) (hskip : skip m) :
      Skips skip b (b'.drop n)

/-- `msg` stands in `b` behind whole messages that satisfy `skip`, and `rest` follows it. -/
def StandsIn (skip : HandshakeMessage → Prop) (b : Bytes) (msg : HandshakeMessage)
    (rest : Bytes) : Prop :=
  ∃ b' n, Skips skip b b' ∧ parseHandshakeMessage b' = .ok (msg, n) ∧ rest = b'.drop n

/-! ## The demand on the server -/

/-- The bytes of records that reached the deframer. -/
def isFragment : Event → Bool
  | .fragment _ _ _ => true
  | _ => false

/-- A KeyUpdate that is well formed. -/
def IsKeyUpdate (msg : HandshakeMessage) : Prop :=
  msg.type = hsKeyUpdate ∧ msg.body.length = 1 ∧ byteAt msg.body 0 ≤ 1

/-- The fragment that brings the end of the server's Finished ends with it, and the fragment
that brings the end of a KeyUpdate, before which only tickets stand, ends with it. -/
structure KeyChangesEndFragments (evs : List Event) : Prop where
  finished : ∀ a buffered content b fin c rest,
    evs = a ++ .fragment .handshake buffered content :: b ++ .flight fin :: c →
    (∀ ev ∈ b, isFragment ev = false) → fin.type = hsFinished →
    StandsIn (fun _ => True) (buffered ++ content) fin rest → rest = []
  keyUpdate : ∀ buffered content msg rest, .fragment .application buffered content ∈ evs →
    StandsIn (fun m => m.type = hsNewSessionTicket) (buffered ++ content) msg rest →
    IsKeyUpdate msg → rest = []

/-! ## What the client should keep -/

/-- What an event does to the bytes that arrived under the current keys. -/
def epochStep (bytes : Bytes) : Event → Bytes
  | .connect _ => []
  | .readKeysChanged _ _ => []
  | .fragment _ _ content => bytes ++ content
  | _ => bytes

/-- The bytes that arrived under the current keys. -/
def epochBytes (evs : List Event) : Bytes := evs.foldl epochStep []

/-- No bytes cross a change of the read keys: at the change, nothing stands behind the
message that caused it, and what a fragment is added to came under the same keys. -/
structure NoneAcross (evs : List Event) : Prop where
  atChange : ∀ stage beyond, .readKeysChanged stage beyond ∈ evs → beyond = []
  sameKeys : ∀ a stage buffered content b, evs = a ++ .fragment stage buffered content :: b →
    buffered <:+ epochBytes a

end XboxTls.Interface
