import XboxTls.Model.Connection

/-!
# Runs of the client

The public methods of `TlsClient` as calls, and the runs of a client: any calls in any
order, each of which returns.  A client is `ReachableClient` when some run over some
outside world ends with it.
-/

set_option autoImplicit false

namespace XboxTls.Model

open Programs

/-- `TlsClient::negotiated_alpn`: the bytes of `negotiated_alpn_` before the first zero.
SOURCE: include/xboxtls/connection.h:44-46 -/
def TlsClient.negotiatedAlpnString {P : Crypto} (c : TlsClient P) : CString :=
  ⟨c.negotiatedAlpn.takeWhile fun x => x ≠ 0, by
    intro h
    have hzero := List.mem_takeWhile_imp h
    simp at hzero⟩

/-- A call of a public method with its arguments. -/
inductive Call where
  | connect (config : ClientConfig)
  | send (null : Bool) (data : Bytes)
  | recv (receivedNull outNull : Bool) (size : ℕ)
  | keyUpdate (requestPeerUpdate : Bool)
  | reset
  | close
  deriving DecidableEq, Repr

section Runs

variable {P : Crypto} {W : Type} (E : Env W)

/-- The method behind a call; the value is the bytes that `recv` hands out. -/
def Call.run (fuel : ℕ) : Call → ClientM P W Bytes
  | .connect config => do
    Model.connect E fuel config
    pure []
  | .send null data => do
    Model.send E null data
    pure []
  | .recv receivedNull outNull size => Model.recv E fuel receivedNull outNull size
  | .keyUpdate requestPeerUpdate => do
    Model.keyUpdate E requestPeerUpdate
    pure []
  | .reset => do
    Model.reset E
    pure []
  | .close => do
    Model.close E
    pure []

/-- The call returns with this result. -/
def Returns (call : Call) (s : System P W) (r : Except Error Bytes) (s' : System P W) : Prop :=
  ∃ fuel, call.run E fuel s = some (r, s')

/-- Calls one after the other, each with its result. -/
inductive Run : System P W → List (Call × Except Error Bytes) → System P W → Prop where
  | nil (s : System P W) : Run s [] s
  | snoc {s s' s'' : System P W} {log : List (Call × Except Error Bytes)} {call : Call}
      {r : Except Error Bytes} :
      Run s log s' → Returns E call s' r s'' → Run s (log ++ [(call, r)]) s''

/-- Calls one after the other, each of which meets a condition on the system before it, the
call and the system after it. -/
inductive RunWhere (C : System P W → Call → System P W → Prop) :
    System P W → List (Call × Except Error Bytes) → System P W → Prop where
  | nil (s : System P W) : RunWhere C s [] s
  | snoc {s s' s'' : System P W} {log : List (Call × Except Error Bytes)} {call : Call}
      {r : Except Error Bytes} :
      RunWhere C s log s' → Returns E call s' r s'' → C s' call s'' →
        RunWhere C s (log ++ [(call, r)]) s''

/-- A call with the system before it, its result and the system after it. -/
structure Step (P : Crypto) (W : Type) where
  before : System P W
  call : Call
  result : Except Error Bytes
  after : System P W

/-- The events of a step. -/
def Step.events (step : Step P W) : List Event :=
  step.after.trace.drop step.before.trace.length

/-- A run with its steps. -/
inductive Steps : System P W → List (Step P W) → System P W → Prop where
  | nil (s : System P W) : Steps s [] s
  | snoc {s s' s'' : System P W} {steps : List (Step P W)} {call : Call}
      {r : Except Error Bytes} :
      Steps s steps s' → Returns E call s' r s'' → Steps s (steps ++ [⟨s', call, r, s''⟩]) s''

/-- A fresh client in a world. -/
def System.fresh (P : Crypto) (w : W) : System P W := ⟨.initial P, w, []⟩

/-- A run that starts with a call. -/
theorem Run.cons {E : Env W} {s s' s'' : System P W} {call : Call} {r : Except Error Bytes}
    {log : List (Call × Except Error Bytes)} (hret : Returns E call s r s')
    (hrun : Run E s' log s'') : Run E s ((call, r) :: log) s'' := by
  induction hrun with
  | nil => exact (Run.nil s).snoc hret
  | snoc _ hlast ih => exact ih.snoc hlast

/-- What every call keeps holds at the end of every run. -/
theorem Run.invariant {E : Env W} {I : System P W → Prop} {s s' : System P W}
    {log : List (Call × Except Error Bytes)}
    (hstep : ∀ call s r s', I s → Returns E call s r s' → I s')
    (hrun : Run E s log s') (hs : I s) : I s' := by
  induction hrun with
  | nil => exact hs
  | snoc _ hret ih => exact hstep _ _ _ _ ih hret

/-- What every call that meets the condition keeps holds at the end of every run of such
calls. -/
theorem RunWhere.invariant {E : Env W} {C : System P W → Call → System P W → Prop}
    {I : System P W → Prop} {s s' : System P W} {log : List (Call × Except Error Bytes)}
    (hstep : ∀ call s r s', I s → Returns E call s r s' → C s call s' → I s')
    (hrun : RunWhere E C s log s') (hs : I s) : I s' := by
  induction hrun with
  | nil => exact hs
  | snoc _ hret hC ih => exact hstep _ _ _ _ ih hret hC

/-- Every step of a run returns. -/
theorem Steps.returns {E : Env W} {s s' : System P W} {steps : List (Step P W)}
    (hrun : Steps E s steps s') :
    ∀ step ∈ steps, Returns E step.call step.before step.result step.after := by
  induction hrun with
  | nil => simp
  | snoc _ hret ih =>
    intro step hstep
    rcases List.mem_append.mp hstep with hold | hnew
    · exact ih step hold
    · obtain rfl := List.mem_singleton.mp hnew
      exact hret

/-- A method that keeps an invariant for every amount of fuel keeps it when it returns. -/
theorem Returns.keeps {E : Env W} {I : System P W → Prop} {call : Call} {s s' : System P W}
    {r : Except Error Bytes} (hkeeps : ∀ fuel, Prog.Keeps I (call.run (P := P) E fuel))
    (h : Returns E call s r s') (hs : I s) : I s' := by
  obtain ⟨fuel, hrun⟩ := h
  exact Prog.Keeps.run (hkeeps fuel) hs hrun

end Runs

/-- A client at the end of some run in some world. -/
def ReachableClient {P : Crypto} (c : TlsClient P) : Prop :=
  ∃ (W : Type) (E : Env W) (w : W) (log : List (Call × Except Error Bytes)) (s : System P W),
    Run E (System.fresh P w) log s ∧ s.client = c

end XboxTls.Model
