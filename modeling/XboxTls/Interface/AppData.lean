import XboxTls.Model.Api

/-!
# Application data that arrives

The content of an application-data record, as the record function hands it to `recv`, and
the calls of `recv` whose records leave no more behind than the pending buffer holds.
-/

set_option autoImplicit false

namespace XboxTls.Interface

open Programs XboxTls.Model

/-- The size of `pending_app_`. -/
def pendingSize : ℕ := 16384

/-- `content` is what a record holds under these keys, and it is application data. -/
def HoldsAppData (P : Crypto) (keys : TrafficKeys) (record content : Bytes) : Prop :=
  unprotectRecordAes128Gcm P keys record 16640 =
    .ok ⟨contentApplicationData, content, keys.advance⟩

/-- Every application-data record among these events fits a caller's buffer of `size` bytes
and the pending buffer together. -/
def OpenedFit (P : Crypto) (size : ℕ) (evs : List Event) : Prop :=
  ∀ keys record content, .opened .serverApp keys record ∈ evs →
    HoldsAppData P keys record content → content.length ≤ pendingSize + size

/-- Every application-data record that a call of `recv` opened fits both buffers. -/
def RecvFits {P : Crypto} {W : Type} (s : System P W) (call : Call) (s' : System P W) : Prop :=
  match call with
  | .recv _ _ size => ∀ evs, s'.trace = s.trace ++ evs → OpenedFit P size evs
  | _ => True

/-- What `recv` keeps fits the pending buffer, and so does what it has not handed out. -/
def PendingFits {P : Crypto} (c : TlsClient P) : Prop :=
  c.pendingApp.length ≤ pendingSize ∧ c.pendingAppOffset + c.pendingAppLength ≤ pendingSize

/-- What `recv` has not handed out lies in the pending buffer. -/
def PendingWithin {P : Crypto} (c : TlsClient P) : Prop :=
  c.pendingAppOffset + c.pendingAppLength ≤ pendingSize

instance {P : Crypto} (c : TlsClient P) : Decidable (PendingWithin c) :=
  inferInstanceAs (Decidable (_ ≤ _))

end XboxTls.Interface
