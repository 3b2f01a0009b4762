import XboxTls.Analysis.Connected
import XboxTls.Analysis.ScriptedHandshake
import XboxTls.Interface.Lifecycle

/-!
# Every call leaves the client settled

Every way out of a handshake, and out of a call on a connected client, goes through `fail`
or its equivalents, so no call leaves a handshake halfway or secrets in a client that is not
connected (`outcome_of_run`).
-/

set_option autoImplicit false

namespace XboxTls.Analysis

open Programs Programs.Prog XboxTls.Model XboxTls.Interface

variable {P : Crypto} {W : Type} (E : Env W)

/-! ## Settled clients -/

/-- A wiped client has no secrets. -/
theorem noSecrets_wipeSecrets (c : TlsClient P) (state : ClientState) :
    NoSecrets { c.wipeSecrets with state := state } := by
  refine ⟨rfl, rfl, rfl, ?_⟩
  intro slot
  cases slot <;> rfl

/-- A failed client is settled. -/
theorem settled_wiped {s s' : System P W} (h : Wiped s s') : Settled s'.client := by
  rw [h.client]
  exact ⟨by simp, fun _ => noSecrets_wipeSecrets s.client .failed⟩

/-- A closed client is settled. -/
theorem settled_afterEnd (s : System P W) : Settled (afterEnd E .closed s).client :=
  ⟨by simp [afterEnd], fun _ => noSecrets_wipeSecrets s.client .closed⟩

/-- A connected client may hold any secrets. -/
theorem settled_of_connected {c : TlsClient P} (h : c.state = .connected) : Settled c :=
  ⟨by simp [h], fun hne => absurd h hne⟩

/-- A fresh client is settled. -/
theorem settled_fresh (w : W) : Settled (System.fresh P w).client := by
  refine ⟨by simp [System.fresh, TlsClient.initial], fun _ => ⟨rfl, rfl, rfl, ?_⟩⟩
  intro slot
  cases slot <;> rfl

/-! ## `connect` -/

/-- What `connect` does, for every outcome. -/
theorem connectOutcome_of_run {fuel : ℕ} {config : ClientConfig} {s s' : System P W}
    {r : Except Error Bytes} (hrun : (Call.connect config).run E fuel s = some (r, s')) :
    ConnectOutcome config s r s' ∧ (Settled s.client → Settled s'.client) := by
  by_cases hrefused : Refused config s.client
  · have hthrow : connect E fuel config s = some (.error .invalidArgument, s) := by
      unfold connect
      rw [bind_of_ok rfl]
      split
      · rfl
      · next haccepted => exact absurd hrefused haccepted
    rw [Call.run, bind_of_error hthrow] at hrun
    cases hrun
    exact ⟨.refused hrefused, fun h => h⟩
  · have hbody : Maintains (fun _ => True)
        (fun s => s.client.state = .failed ∧ Settled s.client)
        (connectHandshake E fuel config : ClientM P W Unit) :=
      steady_connectHandshake E (fun _ _ _ _ => trivial)
        (fun _ s' h _ => ⟨by rw [h.client], settled_wiped h⟩) fuel config
    have hwp : wp ((Call.connect config).run E fuel)
        (fun r s' => ConnectOutcome config s r s' ∧ Settled s'.client) s := by
      unfold Refused at hrefused
      unfold Call.run connect
      simp only [wp_bind, wp_getClient, thenWp_ok]
      rw [if_neg hrefused]
      simp only [wp_bind, wp_modifyClient, thenWp_ok, wp_emit]
      refine wp_mono (hbody _ trivial) ?_
      intro r s' hr
      cases r with
      | error e =>
        simp only [thenWp_error]
        exact ⟨.failed hrefused hr.1, hr.2⟩
      | ok u =>
        simp only [thenWp_ok, wp_modifyClient, wp_pure]
        exact ⟨.connected hrefused rfl, settled_of_connected rfl⟩
    have hout := hwp r s' hrun
    exact ⟨hout.1, fun _ => hout.2⟩

/-! ## Calls on a connected client -/

/-- Still connected. -/
def Alive (s : System P W) : Prop := s.client.state = .connected

/-- A firm change leaves a client alive. -/
theorem alive_firm {s s' : System P W} (h : Firm s s') (hs : Alive s) : Alive s' :=
  h.state.trans hs

/-- A steady change leaves a client alive. -/
theorem alive_steady {s s' : System P W} (h : Steady s s') (hs : Alive s) : Alive s' :=
  h.state.trans hs

/-- A client that fails settles. -/
theorem settled_of_wiped {s s' : System P W} (h : Wiped s s') (_ : Alive s) : Settled s'.client :=
  settled_wiped h

/-- A client that is alive is settled. -/
theorem settled_of_alive {s : System P W} (hs : Alive s) : Settled s.client :=
  settled_of_connected hs

/-- `recv` on a connected client leaves it connected or settled. -/
theorem alive_recv (fuel : ℕ) (receivedNull outNull : Bool) (size : ℕ) :
    Maintains Alive (fun s => Settled s.client)
      (recv E fuel receivedNull outNull size : ClientM P W Bytes) := by
  have hJ : ∀ s : System P W, Alive s → Settled s.client := fun _ => settled_of_alive
  have hW : ∀ s s' : System P W, Wiped s s' → Alive s → Settled s'.client :=
    fun _ _ => settled_of_wiped
  have hdata : ∀ (s : System P W) record content, Alive s →
      unprotectRecordAes128Gcm P s.client.serverAppKeys record 16640 =
        .ok ⟨contentApplicationData, content, s.client.serverAppKeys.advance⟩ →
      wp (recvData E content size) (ends Alive fun s => Settled s.client)
        (afterOpen s .serverApp record) := by
    intro s record content hs _
    have hs : Alive (afterOpen s .serverApp record) := alive_firm (firm_afterOpen s _ _) hs
    exact wp_recvData_of E (fun _ => hs) fun _ _ _ _ => hs
  have halert : ∀ content, Maintains Alive (fun s => Settled s.client)
      (recvAlert E content : ClientM P W Bytes) := by
    intro content
    unfold recvAlert
    apply maintains_bind (maintains_handleAlert (fun _ _ h => alive_firm h.firm) _)
    intro ae
    split
    · intro s _ r s' hrun
      rw [recvClosed_apply] at hrun
      cases hrun
      exact settled_afterEnd E s
    · exact maintains_failWith E hW _
  unfold recv
  apply maintains_bind maintains_getClient
  intro c
  split
  · exact maintains_throw hJ _
  · split
    · exact maintains_throw hJ _
    · split
      · intro s hs
        apply wp_recvPending_of
        intro bytes _
        exact hs
      · exact steady_recvRecords E (fun _ _ => alive_steady) hW size hdata halert fuel

/-- `send` and `key_update` on a connected client leave it connected or settled. -/
theorem alive_send (null : Bool) (data : Bytes) :
    Maintains Alive (fun s => Settled s.client) (send E null data : ClientM P W Unit) :=
  firm_send E (fun _ _ => alive_firm) (fun _ => settled_of_alive) (fun _ _ => settled_of_wiped) null
    data fun _ _ _ hs => hs

/-- `key_update` leaves a client alive or settled. -/
theorem alive_keyUpdate (request : Bool) :
    Maintains Alive (fun s => Settled s.client) (keyUpdate E request : ClientM P W Unit) :=
  firm_keyUpdate E (fun _ _ => alive_firm) (fun _ => settled_of_alive)
    (fun _ _ => settled_of_wiped) request

/-! ## `close` and `reset` -/

/-- `close` leaves a client settled. -/
theorem settled_close (s : System P W) (hs : Settled s.client) :
    wp (close E : ClientM P W Unit) (fun _ s' => Settled s'.client) s := by
  unfold close
  simp only [wp_bind, wp_getClient, thenWp_ok]
  split
  · rw [wp_pure]
    exact hs
  · rw [wp_bind]
    intro r s' hrun
    cases r with
    | error e =>
      -- the error of the alert is dropped, so this outcome does not exist
      unfold sendCloseNotify at hrun
      split at hrun
      · unfold Prog.attempt at hrun
        split at hrun <;> simp at hrun
      · simp at hrun
    | ok u =>
      rw [thenWp_ok, wp_bind]
      intro r₂ s₂ hclose
      rw [closeStream_apply] at hclose
      cases hclose
      rw [thenWp_ok, wp_modifyClient]
      exact ⟨by simp, fun _ => noSecrets_wipeSecrets _ .closed⟩

/-- `reset` leaves a client settled. -/
theorem settled_reset (s : System P W) (hs : Settled s.client) :
    wp (reset E : ClientM P W Unit) (fun _ s' => Settled s'.client) s := by
  unfold reset
  simp only [wp_bind, wp_getClient, thenWp_ok]
  split
  · rw [wp_throw]
    exact hs
  · rw [wp_bind]
    intro r s' hclose
    rw [closeStream_apply] at hclose
    cases hclose
    rw [thenWp_ok, wp_modifyClient]
    refine ⟨by simp, fun _ => ⟨rfl, rfl, rfl, ?_⟩⟩
    intro slot
    cases slot <;> rfl

/-! ## Clients that are not connected -/

/-- The stream was closed, or there was none. -/
theorem closedWorld_cases (config : ClientConfig) (w : W) :
    closedWorld E config w = w ∨ ∃ stream, closedWorld E config w = E.close stream w := by
  unfold closedWorld
  cases config.stream with
  | none => exact Or.inl rfl
  | some stream => exact Or.inr ⟨stream, rfl⟩

/-- Nothing happened. -/
theorem silent_refl (s : System P W) : Silent E s s := ⟨rfl, Or.inl rfl⟩

/-- Where a call may not write, it writes nothing. -/
theorem silent_of_not_mayWrite {fuel : ℕ} {call : Call} {s s' : System P W}
    {r : Except Error Bytes} (hcall : ¬ MayWrite call s.client)
    (hrun : call.run E fuel s = some (r, s')) : Silent E s s' := by
  have hconn : s.client.state ≠ .connected := fun h => hcall (Or.inl h)
  suffices hwp : wp (call.run E fuel) (fun _ s' => Silent E s s') s from hwp r s' hrun
  cases call with
  | connect config =>
    have hidle : s.client.state ≠ .idle := fun h => hcall (Or.inr ⟨h, config, rfl⟩)
    unfold Call.run connect
    simp only [wp_bind, wp_getClient, thenWp_ok]
    rw [if_pos (Or.inl hidle), wp_throw]
    exact silent_refl E s
  | send null data =>
    unfold Call.run send
    simp only [wp_bind, wp_getClient, thenWp_ok]
    rw [if_pos hconn, wp_throw]
    exact silent_refl E s
  | recv receivedNull outNull size =>
    unfold Call.run recv
    simp only [wp_bind, wp_getClient, thenWp_ok]
    split
    · rw [wp_throw]
      exact silent_refl E s
    · rw [wp_throw]
      exact silent_refl E s
  | keyUpdate request =>
    unfold Call.run keyUpdate
    simp only [wp_bind, wp_getClient, thenWp_ok]
    rw [if_pos hconn, wp_throw]
    exact silent_refl E s
  | reset =>
    unfold Call.run reset
    simp only [wp_bind, wp_getClient, thenWp_ok]
    split
    · rw [wp_throw]
      exact silent_refl E s
    · rw [wp_bind]
      intro r s₁ hclose
      rw [closeStream_apply] at hclose
      cases hclose
      simp only [thenWp_ok, wp_modifyClient, wp_pure]
      exact ⟨rfl, closedWorld_cases E _ _⟩
  | close =>
    unfold Call.run close sendCloseNotify
    simp only [wp_bind, wp_getClient, thenWp_ok]
    split
    · simp only [wp_pure, thenWp_ok]
      exact silent_refl E s
    · simp only [wp_bind, wp_pure, thenWp_ok]
      intro r s₁ hclose
      rw [closeStream_apply] at hclose
      cases hclose
      simp only [thenWp_ok, wp_modifyClient, wp_pure]
      exact ⟨rfl, closedWorld_cases E _ _⟩

/-! ## Every call -/

/-- Every call leaves a settled client settled. -/
theorem settled_of_call {fuel : ℕ} {k : Call} {s s' : System P W} {r : Except Error Bytes}
    (hs : Settled s.client) (hrun : k.run E fuel s = some (r, s')) : Settled s'.client := by
  have hunit : ∀ {x : ClientM P W Unit}, wp x (fun _ s' => Settled s'.client) s →
      wp (do x; pure []) (fun (_ : Except Error Bytes) s' => Settled s'.client) s := by
    intro x hx
    refine wp_bind_of_spec hx ?_ ?_
    · intro u s' hs'
      rw [wp_pure]
      exact hs'
    · intro e s' hs'
      exact hs'
  have hlive : ∀ {α : Type} {x : ClientM P W α}, Maintains Alive (fun s => Settled s.client) x →
      Alive s → wp x (fun _ s' => Settled s'.client) s := by
    intro α x hx halive
    refine wp_mono (hx s halive) ?_
    intro r s' hr
    cases r with
    | ok a => exact settled_of_alive hr
    | error e => exact hr
  -- without a connection, these calls return at once
  have hdead : ∀ {α : Type} {x : ClientM P W α}, ¬ Alive s → x s = some (.error .closed, s) →
      wp x (fun _ s' => Settled s'.client) s := by
    intro α x _ hx r s' hrun
    rw [hx] at hrun
    cases hrun
    exact hs
  suffices hwp : wp (k.run E fuel) (fun _ s' => Settled s'.client) s from hwp r s' hrun
  cases k with
  | connect config => exact fun r s' hrun => (connectOutcome_of_run E hrun).2 hs
  | send null data =>
    apply hunit
    by_cases halive : Alive s
    · exact hlive (alive_send E null data) halive
    · refine hdead halive ?_
      unfold send
      rw [bind_of_ok rfl, if_pos (show s.client.state ≠ .connected from halive)]
      rfl
  | keyUpdate request =>
    apply hunit
    by_cases halive : Alive s
    · exact hlive (alive_keyUpdate E request) halive
    · refine hdead halive ?_
      unfold keyUpdate
      rw [bind_of_ok rfl, if_pos (show s.client.state ≠ .connected from halive)]
      rfl
  | recv receivedNull outNull size =>
    by_cases halive : Alive s
    · exact hlive (alive_recv E fuel receivedNull outNull size) halive
    · unfold Call.run recv
      simp only [wp_bind, wp_getClient, thenWp_ok]
      rw [if_pos (show s.client.state ≠ .connected from halive)]
      split <;> rw [wp_throw] <;> exact hs
  | reset => exact hunit (settled_reset E s hs)
  | close => exact hunit (settled_close E s hs)

/-- **What holds whenever a call returns.**  In every run, over every behaviour of the
platform, the stream and the verifier, the client is settled between two calls, and the next
call does what its outcome says. -/
theorem outcome_of_run {w : W} {log : List (Call × Except Error Bytes)} {s : System P W}
    (hrun : Run E (System.fresh P w) log s) :
    Settled s.client ∧
      ∀ call r s', Returns E call s r s' → CallOutcome E call s r s' := by
  have hsettled : Settled s.client := by
    apply hrun.invariant (I := fun s => Settled s.client) _ (settled_fresh w)
    rintro call s r s' hs ⟨fuel, hret⟩
    exact settled_of_call E hs hret
  refine ⟨hsettled, ?_⟩
  rintro call r s' ⟨fuel, hret⟩
  refine ⟨settled_of_call E hsettled hret, ?_, fun hcall => silent_of_not_mayWrite E hcall hret⟩
  rintro config rfl
  exact (connectOutcome_of_run E hret).1

/-- A client that has just connected is settled. -/
theorem outcome_scripted : ∃ s : System plainCrypto Bytes, s.client.state = .connected ∧
    Settled s.client ∧
    ∀ call r s', Returns scriptEnv call s r s' → CallOutcome scriptEnv call s r s' := by
  obtain ⟨script, keys, th, fin, -, hreach⟩ := scripted_reachable keyAgreementWorks_plainCrypto 0
    [] (by decide)
  obtain ⟨s, -, hrun, hbare⟩ := hreach []
  exact ⟨s, hbare.state, outcome_of_run scriptEnv hrun⟩

end XboxTls.Analysis
