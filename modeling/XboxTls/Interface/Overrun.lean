import XboxTls.Interface.AppData
import XboxTls.Model.XboxClient

/-!
# Calls of `receive` that stay within `tls_`

A `recv` that keeps more than `pending_app_` holds writes over the members behind `tls_` and over
what follows the object.  Where every application-data record that a call of `receive` opens fits
the caller's buffer and `pending_app_` together, nothing is written there.
-/

set_option autoImplicit false

namespace XboxTls.Interface

open XboxTls.Model

variable {P : Crypto} {V : Type}

/-- The console on which nothing that is written behind `tls_` lands anywhere. -/
def solid (X : XboxEnv V) : XboxEnv V :=
  { X with overrun := fun _ x v => (x, v) }

/-- The size of the buffer that a call receives into, in both forms of `receive`. -/
def receiveSize : XboxCall → Option ℕ
  | .receive _ _ size | .receivePointer _ _ size => some size
  | _ => none

/-- Every application-data record that a call of `receive` opened fits the caller's buffer and
`pending_app_` together. -/
def ReceiveFits (step : XboxStep P V) : Prop :=
  ∀ size, receiveSize step.call = some size →
    ∀ evs, step.after.tls.trace = step.before.tls.trace ++ evs → OpenedFit P size evs

end XboxTls.Interface
