import XboxTls.Analysis.PendingData
import XboxTls.Analysis.XboxMethods
import XboxTls.Interface.Overrun

/-!
# Runs that stay within `tls_`

In a run whose records fit the caller's buffers and `pending_app_`, no call writes behind `tls_`:
it is a run of the console on which such bytes land nowhere (`xboxRun_solid`).  The step lemma
carries the bound on the pending buffer through every method.
-/

set_option autoImplicit false

namespace XboxTls.Analysis

open Programs Programs.Prog XboxTls.Model XboxTls.Interface

variable {P : Crypto} {V : Type} {X : XboxEnv V}

/-! ## One call -/

/-- The methods other than `receive` keep the bound on the pending buffer. -/
theorem pendingFits_closed :
    MethodsClosed X (fun s : XboxSystem P V => PendingFits s.tls.client) :=
  methodsClosed_of_world (fun _ _ _ hs => hs) (fun _ _ hs => hs)
    fun _ k fuel _ _ hother hrun hs => (keeps_pendingFits (tlsEnv P X) fuel k hother).run hs hrun

/-- What lands behind `tls_` changes neither its members nor the trace. -/
theorem landOverrun_tls (before after : TlsClient P) (s : XboxSystem P V) :
    ∃ s', landOverrun X before after s = some (.ok (), s') ∧ s'.tls.trace = s.tls.trace := by
  unfold landOverrun
  split
  · exact ⟨_, rfl, rfl⟩
  · exact ⟨_, rfl, rfl⟩

/-- Nothing lands behind `tls_` when the array holds what is kept. -/
theorem landOverrun_of_fits {before after : TlsClient P} (s : XboxSystem P V)
    (hfits : PendingFits after) : landOverrun X before after s = some (.ok (), s) := by
  have hlength : after.pendingApp.length ≤ 16384 := hfits.1
  unfold landOverrun
  rw [if_neg]
  rintro ⟨-, -, hlong⟩
  exact absurd hlong (by omega)

/-- What `receive` does after a `recv` that returned bytes. -/
theorem receive_of_ok {fuel : ℕ} {receivedNull outNull : Bool} {size : ℕ} {bytes : Bytes}
    {s : XboxSystem P V} {t : System P (XboxWorld V)}
    (hrecv : Model.recv (tlsEnv P X) fuel receivedNull outNull size s.tls = some (.ok bytes, t)) :
    XboxTlsClient.receive X fuel receivedNull outNull size s = (do
      landOverrun X s.tls.client t.client
      modifyStats fun s => { s with bytesReceived := s.bytesReceived + UInt64.ofNat bytes.length }
      rememberOk
      pure bytes) { s with tls := t } := by
  have hcall : callTls (Model.recv (tlsEnv P X) fuel receivedNull outNull size) s =
      some (.ok bytes, { s with tls := t }) := by
    unfold callTls
    rw [hrecv]
  unfold XboxTlsClient.receive
  rw [bind_of_ok rfl, bind_of_ok (onError_of_ok hcall), bind_of_ok rfl]

/-- **A `receive` whose records fit writes nothing behind `tls_`**, and keeps the bound. -/
theorem receive_solid {fuel : ℕ} {receivedNull outNull : Bool} {size : ℕ}
    {s s' : XboxSystem P V} {r : Except Error Bytes} (hs : PendingFits s.tls.client)
    (hrun : XboxTlsClient.receive X fuel receivedNull outNull size s = some (r, s'))
    (hfits : ∀ evs, s'.tls.trace = s.tls.trace ++ evs → OpenedFit P size evs) :
    XboxTlsClient.receive (solid X) fuel receivedNull outNull size s = some (r, s') ∧
      PendingFits s'.tls.client := by
  cases hrecv : Model.recv (tlsEnv P X) fuel receivedNull outNull size s.tls with
  | none =>
    have hnone : callTls (Model.recv (tlsEnv P X) fuel receivedNull outNull size) s = none := by
      unfold callTls
      rw [hrecv]
    unfold XboxTlsClient.receive at hrun
    rw [bind_of_ok rfl, bind_apply] at hrun
    unfold onError at hrun
    rw [hnone] at hrun
    cases hrun
  | some out =>
    obtain ⟨result, t⟩ := out
    have hstart : FitsSince s.tls.trace size s.tls := ⟨[], by simp, fun _ => hs⟩
    obtain ⟨evs, htrace, hbound⟩ := Keeps.run
      (keeps_fitsSince_recv (tlsEnv P X) s.tls.trace fuel receivedNull outNull size) hstart hrecv
    cases result with
    | error e =>
      have hcall : callTls (Model.recv (tlsEnv P X) fuel receivedNull outNull size) s =
          some (.error e, { s with tls := t }) := by
        unfold callTls
        rw [hrecv]
      have hfails : ∀ Y : XboxEnv V, tlsEnv P Y = tlsEnv P X →
          XboxTlsClient.receive Y fuel receivedNull outNull size s = some (.error e,
            { client := { s.client with lastError := some e }, tls := t }) := by
        intro Y hY
        unfold XboxTlsClient.receive
        rw [hY, bind_of_ok rfl]
        exact bind_of_error (onError_of_error hcall)
      rw [hfails X rfl] at hrun
      cases hrun
      exact ⟨hfails (solid X) rfl, hbound (hfits evs htrace)⟩
    | ok bytes =>
      rw [receive_of_ok hrecv] at hrun
      have hsolid := receive_of_ok (X := solid X) hrecv
      obtain ⟨s₁, hland, htrace₁⟩ :=
        landOverrun_tls (X := X) s.tls.client t.client { s with tls := t }
      have hend := hrun
      rw [bind_of_ok hland] at hend
      have htls : s₁.tls = s'.tls := congrArg (fun out => out.2.tls) (Option.some.inj hend)
      have hpending : PendingFits t.client := by
        refine hbound (hfits evs ?_)
        rw [← htls, htrace₁]
        exact htrace
      rw [bind_of_ok (landOverrun_of_fits _ hpending)] at hrun
      rw [bind_of_ok (landOverrun_of_fits _ hpending)] at hsolid
      cases hrun
      exact ⟨hsolid, hpending⟩

/-- On the solid console `receive` keeps what its `recv` keeps. -/
theorem keeps_receive_solid {I : XboxSystem P V → Prop} (hI : MethodsClosed (solid X) I)
    (hrecv : ∀ (s : XboxSystem P V) fuel receivedNull outNull size r t,
      Model.recv (tlsEnv P X) fuel receivedNull outNull size s.tls = some (r, t) →
        I s → I { s with tls := t })
    (fuel : ℕ) (receivedNull outNull : Bool) (size : ℕ) :
    Keeps I (XboxTlsClient.receive (solid X) fuel receivedNull outNull size :
      XboxM P V Bytes) := by
  apply keeps_receive hI
  · intro s hs r s' hrun
    unfold callTls at hrun
    split at hrun
    · cases hrun
    · next r t hcall =>
      cases hrun
      have ht := hrecv s fuel receivedNull outNull size r t hcall hs
      cases r with
      | ok a => exact ht
      | error e => exact ht
  · intro before after s hs r s' hrun
    unfold landOverrun at hrun
    split at hrun
    · cases hrun
      exact hs
    · cases hrun
      exact hs

/-- A call that is not a `receive` does not depend on what lands behind `tls_`. -/
theorem run_solid {call : XboxCall} (hother : receiveSize call = none) (fuel : ℕ) :
    call.run (solid X) fuel = (call.run X fuel : XboxM P V Bytes) := by
  cases call with
  | receive receivedNull outNull size => cases hother
  | receivePointer receivedNull outNull size => cases hother
  | _ => rfl

/-! ## Runs -/

/-- **One call of a run whose records fit.** -/
theorem returns_solid {call : XboxCall} {s s' : XboxSystem P V} {r : Except Error Bytes}
    (hs : PendingFits s.tls.client) (hret : XboxReturns X call s r s')
    (hfits : ReceiveFits ⟨s, call, r, s'⟩) :
    XboxReturns (solid X) call s r s' ∧ PendingFits s'.tls.client := by
  obtain ⟨fuel, hrun⟩ := hret
  have hreceive : ∀ receivedNull outNull size, receiveSize call = some size →
      XboxTlsClient.receive X fuel receivedNull outNull size s = some (r, s') →
      XboxTlsClient.receive (solid X) fuel receivedNull outNull size s = some (r, s') ∧
        PendingFits s'.tls.client :=
    fun _ _ size hsize hcall => receive_solid hs hcall (hfits size hsize)
  cases hsize : receiveSize call with
  | none =>
    refine ⟨⟨fuel, by rw [run_solid hsize]; exact hrun⟩, ?_⟩
    have hkeeps := keeps_everyCall pendingFits_closed (fun _ _ _ hs => hs) fuel call
      (X := X) (P := P) fun receivedNull outNull size hcall => by
        rcases hcall with rfl | rfl <;> cases hsize
    exact hkeeps.run hs hrun
  | some size =>
    cases call with
    | receive receivedNull outNull n =>
      obtain rfl : n = size := Option.some.inj hsize
      exact (hreceive receivedNull outNull n rfl hrun).imp_left fun h => ⟨fuel, h⟩
    | receivePointer receivedNull outNull n =>
      obtain rfl : n = size := Option.some.inj hsize
      have hpointer : ∀ Y : XboxEnv V,
          ((XboxCall.receivePointer receivedNull outNull n).run Y fuel : XboxM P V Bytes) =
            if outNull ∧ n ≠ 0 then rememberError .invalidArgument
            else XboxTlsClient.receive Y fuel receivedNull outNull n := fun _ => rfl
      rw [hpointer] at hrun
      by_cases hnull : outNull = true ∧ n ≠ 0
      · rw [if_pos hnull] at hrun
        refine ⟨⟨fuel, by rw [hpointer, if_pos hnull]; exact hrun⟩, ?_⟩
        exact (keeps_rememberError (X := X) pendingFits_closed .invalidArgument).run hs hrun
      · rw [if_neg hnull] at hrun
        refine (hreceive receivedNull outNull n rfl hrun).imp_left fun h => ⟨fuel, ?_⟩
        rw [hpointer, if_neg hnull]
        exact h
    | _ => cases hsize

/-- **A run whose records fit is a run on the solid console.** -/
theorem xboxRun_solid {s s' : XboxSystem P V} {steps : List (XboxStep P V)}
    (hrun : XboxRun X s steps s') (hs : PendingFits s.tls.client)
    (hfits : ∀ step ∈ steps, ReceiveFits step) :
    XboxRun (solid X) s steps s' ∧ PendingFits s'.tls.client := by
  induction hrun with
  | nil => exact ⟨.nil _, hs⟩
  | snoc _ hret ih =>
    obtain ⟨hrun', hs'⟩ := ih fun step hstep => hfits step (List.mem_append_left _ hstep)
    obtain ⟨hret', hend⟩ := returns_solid hs' hret
      (hfits _ (List.mem_append_right _ (List.mem_singleton_self _)))
    exact ⟨.snoc hrun' hret', hend⟩

/-- **What a run whose records fit keeps**: every invariant that the parts of the methods and `recv`
keep, and that does not depend on the members other than `trust_store_data_`. -/
theorem kept_of_fittingRun {I : XboxSystem P V → Prop} (hI : MethodsClosed (solid X) I)
    (hmembers : ∀ (s : XboxSystem P V) (x : XboxTlsClient),
      x.trustStoreData = s.client.trustStoreData → I s → I { s with client := x })
    (hrecv : ∀ (s : XboxSystem P V) fuel receivedNull outNull size r t,
      Model.recv (tlsEnv P X) fuel receivedNull outNull size s.tls = some (r, t) →
        I s → I { s with tls := t })
    {s s' : XboxSystem P V} {steps : List (XboxStep P V)} (hrun : XboxRun X s steps s')
    (hpending : PendingFits s.tls.client) (hfits : ∀ step ∈ steps, ReceiveFits step) (hs : I s) :
    I s' ∧ ∀ step ∈ steps, I step.before :=
  kept_of_xboxRun hI hmembers (keeps_receive_solid hI hrecv)
    (xboxRun_solid hrun hpending hfits).1 hs

/-- Calls that do not receive put nothing behind `tls_`. -/
theorem receiveFits_of_calls {steps : List (XboxStep P V)} {calls : List XboxCall}
    (hcalls : steps.map XboxStep.call = calls)
    (hnone : ∀ call ∈ calls, receiveSize call = none) : ∀ step ∈ steps, ReceiveFits step := by
  intro step hstep size hsize
  have hcall := List.mem_map_of_mem (f := XboxStep.call) hstep
  rw [hcalls] at hcall
  rw [hnone _ hcall] at hsize
  cases hsize

/-- A fresh client keeps nothing. -/
theorem pendingFits_fresh (v : V) : PendingFits (XboxSystem.fresh P v).tls.client :=
  ⟨Nat.zero_le _, Nat.zero_le _⟩

end XboxTls.Analysis
