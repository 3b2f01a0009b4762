import XboxTls.Model.Api

/-!
# What a client may ignore

A change_cipher_spec is not protected, so that anyone on the way can send one.  A client may
ignore it while it waits for the server's Finished, if it is the single byte 1; every other one
has to end the connection.
-/

set_option autoImplicit false

namespace XboxTls.Interface

open XboxTls.Model

/-- The server's Finished was not among these events. -/
def Unfinished (evs : List Event) : Prop := ∀ th, Event.finishedVerified th ∉ evs

/-- A change_cipher_spec record that a call may ignore after these events of its own. -/
structure MayIgnore (call : Call) (before : List Event) (record : Bytes) : Prop where
  connecting : ∃ config, call = .connect config
  unfinished : Unfinished before
  payload : record.drop 5 = [1]

/-- A call with these events ignored what it may; another change_cipher_spec is the last thing
that happened in it, it returned an error, and the client is `failed`. -/
def IgnoresOnly (call : Call) (evs : List Event) (r : Except Error Bytes) (state : ClientState) :
    Prop :=
  ∀ before stage record after, evs = before ++ .changeCipherSpec stage record :: after →
    MayIgnore call before record ∨ (after = [] ∧ (∃ e, r = .error e) ∧ state = .failed)

/-- A change_cipher_spec that arrives where no loop looks at it: with another payload in the
encrypted flight, or with any payload at a client that is connected. -/
def Unchecked : Event → Prop
  | .changeCipherSpec .handshake record => record.drop 5 ≠ [1]
  | .changeCipherSpec .application _ => True
  | _ => False

instance : DecidablePred Unchecked
  | .changeCipherSpec .handshake record => inferInstanceAs (Decidable (record.drop 5 ≠ [1]))
  | .changeCipherSpec .application _ => isTrue trivial
  | .changeCipherSpec .plaintext _ => isFalse id
  | .connect _ | .clientHello _ _ | .retry _ _ | .serverHello _ _ | .sharedSecret _ _
  | .fragment _ _ _ | .chainVerified _ _ | .signatureVerified _ _ _ _ | .authenticated _ _ _ _
  | .finishedVerified _ | .flight _ | .clientFinished _ _ | .postHandshake _
  | .readKeysChanged _ _ | .keysDerived _ _ | .wrote _ | .sealed _ _ _ | .opened _ _ _
  | .appData _ _ | .delivered _ => isFalse id

end XboxTls.Interface
