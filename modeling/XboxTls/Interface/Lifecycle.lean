import XboxTls.Model.Api

/-!
# The client between two calls

What a caller can count on whenever a call has returned: no handshake is left halfway, only
a connected client holds secrets, `connect` reports truthfully what it left behind, and a
client that is not connected does not write.
-/

set_option autoImplicit false

namespace XboxTls.Interface

open XboxTls.Model

variable {P : Crypto} {W : Type}

/-- Every secret of the client is zero. -/
structure NoSecrets (c : TlsClient P) : Prop where
  privateKey : c.privateKey = .zero 32
  publicKey : c.publicKey = .zero 65
  schedule : c.schedule = .zero
  keys : ∀ slot, c.keys slot = .zero

/-- The client as every call leaves it. -/
structure Settled (c : TlsClient P) : Prop where
  state : c.state ≠ .handshaking
  secrets : c.state ≠ .connected → NoSecrets c

/-- `connect` with this configuration is refused before it does anything. -/
def Refused (config : ClientConfig) (c : TlsClient P) : Prop :=
  c.state ≠ .idle ∨ config.usable = false

/-- What `connect` can have done. -/
inductive ConnectOutcome (config : ClientConfig) (s : System P W) :
    Except Error Bytes → System P W → Prop where
  | connected {s' : System P W} (haccepted : ¬ Refused config s.client)
      (hstate : s'.client.state = .connected) : ConnectOutcome config s (.ok []) s'
  | failed {s' : System P W} {e : Error} (haccepted : ¬ Refused config s.client)
      (hstate : s'.client.state = .failed) : ConnectOutcome config s (.error e) s'
  | refused {e : Error} (hrefused : Refused config s.client) :
      ConnectOutcome config s (.error e) s

/-- The call leaves no event and does nothing outside but close the stream. -/
def Silent (E : Env W) (s s' : System P W) : Prop :=
  s'.trace = s.trace ∧
    (s'.world = s.world ∨ ∃ stream, s'.world = E.close stream s.world)

/-- The calls that may write: `connect` on an idle client, and every call on a connected
one. -/
def MayWrite (call : Call) (c : TlsClient P) : Prop :=
  c.state = .connected ∨ c.state = .idle ∧ ∃ config, call = .connect config

/-- What a call has done when it returns. -/
structure CallOutcome (E : Env W) (call : Call) (s : System P W) (r : Except Error Bytes)
    (s' : System P W) : Prop where
  settled : Settled s'.client
  connect : ∀ config, call = .connect config → ConnectOutcome config s r s'
  silent : ¬ MayWrite call s.client → Silent E s s'

end XboxTls.Interface
