import XboxTls.Model.XboxClient

/-!
# The counters of `connect`

Every `connect` is an attempt, and every attempt is a success or a failure: after each call
the number of attempts is the sum of the other two, modulo 2^32.
-/

set_option autoImplicit false

namespace XboxTls.Interface

open XboxTls.Model

variable {P : Crypto} {V : Type}

/-- The attempts are the successes and the failures; the counters have 32 bits. -/
def Balanced (stats : XboxTlsStats) : Prop :=
  stats.connectAttempts = stats.successfulConnections + stats.failedConnections

/-- The host name and the options of a `connect`, in both forms. -/
def connectArguments (x : XboxTlsClient) : XboxCall → Option (Option CString × XboxTlsOptions)
  | .connectTo hostname port alpn => some (hostname, x.defaults.towards port alpn)
  | .connect hostname options => some (hostname, options)
  | _ => none

/-- One attempt, and one success or one failure as the result says. -/
structure CountedOnce (before after : XboxTlsStats) (r : Except Error Bytes) : Prop where
  attempt : after.connectAttempts = before.connectAttempts + 1
  success : r.isOk = true → after.successfulConnections = before.successfulConnections + 1 ∧
    after.failedConnections = before.failedConnections
  failure : r.isOk = false → after.successfulConnections = before.successfulConnections ∧
    after.failedConnections = before.failedConnections + 1

/-- The counters balance after the call, and a `connect` is counted once. -/
structure StepCounted (step : XboxStep P V) : Prop where
  balanced : Balanced step.after.client.stats
  once : (connectArguments step.before.client step.call).isSome →
    CountedOnce step.before.client.stats step.after.client.stats step.result

/-- A `connect` to a host on an initialised client that is connected, with options that forbid
to reconnect. -/
def ForbidsReconnect (call : XboxCall) (s : XboxSystem P V) : Prop :=
  ∃ hostname options, connectArguments s.client call = some (some hostname, options) ∧
    hostname.val.length ≠ 0 ∧ s.client.initialized = true ∧ s.tls.client.state = .connected ∧
    options.autoReconnect = false

end XboxTls.Interface
