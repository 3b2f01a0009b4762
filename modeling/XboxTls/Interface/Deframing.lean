import XboxTls.Model.Deframer

/-!
# Reading messages through the deframer

The loop of the deframer's users: a fragment is appended, and while there is a whole message
at the front it is taken.  `DeframerCall` is any use of the deframer.
-/

set_option autoImplicit false

namespace XboxTls.Interface

open Programs XboxTls.Model XboxTls.Model.StoredDeframer

/-- A handshake message to send: its type and a body whose length fits the length field. -/
structure OutgoingMessage where
  type : UInt8
  body : Bytes
  fits : body.length ≤ 0xFFFFFF

namespace OutgoingMessage

/-- The type, the length of the body in three bytes, and the body. -/
def encode (m : OutgoingMessage) : Bytes := [m.type] ++ storeBe24 m.body.length ++ m.body

/-- The message as the receiver should see it. -/
def received (m : OutgoingMessage) : HandshakeMessage := ⟨m.type, m.body, m.encode⟩

end OutgoingMessage

/-- While `peek` succeeds, the message is taken and consumed. -/
def takeMessages : ℕ → DeframerM (List HandshakeMessage)
  | 0 => Prog.diverge
  | fuel + 1 => do
    match ← (Prog.attempt peek : DeframerM _) with
    | .error _ => pure []
    | .ok m => do
      consume
      let messages ← takeMessages fuel
      pure (m :: messages)

/-- Each fragment is appended, and the messages that are whole by then are taken. -/
def feed (fuel : ℕ) : List Bytes → DeframerM (List HandshakeMessage)
  | [] => pure []
  | fragment :: fragments => do
    append false fragment
    let messages ← takeMessages fuel
    let others ← feed fuel fragments
    pure (messages ++ others)

/-- A call of one of the deframer's methods. -/
inductive DeframerCall where
  | append (null : Bool) (bytes : Bytes)
  | peek
  | consume
  | reset
  | buffered

/-- The call, without what it returns. -/
def DeframerCall.run : DeframerCall → DeframerM Unit
  | .append null bytes => StoredDeframer.append null bytes
  | .peek => do
    let _ ← StoredDeframer.peek
    pure ()
  | .consume => StoredDeframer.consume
  | .reset => StoredDeframer.reset
  | .buffered => do
    let _ ← StoredDeframer.buffered
    pure ()

/-- The deframers that some calls can lead to, whatever the calls return. -/
inductive DeframerRun (null : Bool) (storage : Bytes) : StoredDeframer → Prop
  | construct : DeframerRun null storage (.construct null storage)
  | call {d d' : StoredDeframer} (before : DeframerRun null storage d) (c : DeframerCall)
      (r : Except Error Unit) (step : c.run d = some (r, d')) : DeframerRun null storage d'

end XboxTls.Interface
