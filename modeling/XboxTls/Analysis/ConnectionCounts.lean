import XboxTls.Analysis.CertificateExtensions
import XboxTls.Analysis.Lifecycle
import XboxTls.Analysis.Overrun
import XboxTls.Interface.BlankServer
import XboxTls.Interface.ConnectionCounts

/-!
# When the counters balance

Every method leaves the three counters as they are, but for `connect` and `reset_stats`.  A
`connect` that gets past the connection it finds counts once; one that is refused because it
may not reconnect counts an attempt and nothing else.
-/

set_option autoImplicit false

namespace XboxTls.Analysis

open Programs Programs.Prog XboxTls.Model XboxTls.Interface

variable {P : Crypto} {V : Type} (X : XboxEnv V)

/-! ## Methods that count nothing -/

/-- The counters have these values, and `tls_` is as every call leaves it. -/
def Tallied (c : UInt32 × UInt32 × UInt32) (s : XboxSystem P V) : Prop :=
  counts s.client.stats = c ∧ Settled s.tls.client

variable {c : UInt32 × UInt32 × UInt32}

/-- No part of a method changes the counters. -/
theorem tallied_closed : MethodsClosed X (Tallied c : XboxSystem P V → Prop) :=
  methodsClosed_of_world
    (fun _ _ hcounts hs => ⟨hcounts.trans hs.1, hs.2⟩) (fun _ _ hs => hs)
    fun _ _ _ _ _ _ hrun hs => ⟨hs.1, settled_of_call (tlsEnv P X) hs.2 hrun⟩

/-- **Only `connect` and `reset_stats` change the counters.** -/
theorem tallied_run (fuel : ℕ) {call : XboxCall} {x : XboxTlsClient}
    (hconnect : connectArguments x call = none) (hreset : call ≠ .resetStats) :
    Keeps (Tallied c) (call.run (solid X) fuel : XboxM P V Bytes) := by
  apply keeps_xboxCall (tallied_closed (solid X))
  · intro hostname port alpn hcall
    subst hcall
    cases hconnect
  · intro hostname options hcall
    subst hcall
    cases hconnect
  · intro receivedNull outNull size _
    refine keeps_receive_solid (tallied_closed (solid X)) ?_ fuel receivedNull outNull size
    intro s fuel receivedNull outNull size r t hrun hs
    exact ⟨hs.1, settled_of_call (tlsEnv P X) hs.2
      (show (Call.recv receivedNull outNull size).run _ fuel s.tls = _ from hrun)⟩
  · intro hcall
    exact absurd hcall hreset

/-! ## `connect` -/

/-- An attempt, a success or a failure more. -/
def oneMore (which : UInt32 × UInt32 × UInt32) (c : UInt32 × UInt32 × UInt32) :
    UInt32 × UInt32 × UInt32 :=
  (c.1 + which.1, c.2.1 + which.2.1, c.2.2 + which.2.2)

/-- A program that counts a failure exactly when it fails. -/
def FailsCounted {α : Type} (x : XboxM P V α) : Prop :=
  ∀ c, Maintains (Tallied c) (Tallied (oneMore (0, 0, 1) c)) x

/-- The failing exit counts one failed connection. -/
theorem tallied_failConnect (e : Error) :
    Leads (Tallied c) (fun _ => False) (Tallied (oneMore (0, 0, 1) c))
      (failConnect e : XboxM P V Unit) := by
  intro s hs r s' hrun
  cases hrun
  refine ⟨?_, hs.2⟩
  rw [← hs.1]
  show (_, _, _) = (_ + 0, _ + 0, _)
  rw [UInt32.add_zero, UInt32.add_zero]
  rfl

/-- The failing exit counts. -/
theorem failsCounted_failConnect (e : Error) : FailsCounted (failConnect e : XboxM P V Unit) := by
  intro c s hs
  refine wp_mono (tallied_failConnect e s hs) ?_
  intro r s' hr
  cases r with
  | ok u => exact hr.elim
  | error e => exact hr

/-- Two parts whose failures are counted. -/
theorem failsCounted_bind {α β : Type} {x : XboxM P V α} {f : α → XboxM P V β}
    (hx : FailsCounted x) (hf : ∀ a, FailsCounted (f a)) : FailsCounted (x >>= f) :=
  fun c => maintains_bind (hx c) fun a => hf a c

/-- A value does not fail. -/
theorem failsCounted_pure {α : Type} (a : α) : FailsCounted (pure a : XboxM P V α) :=
  fun _ => maintains_pure a

/-- A part whose errors go to a handler that counts. -/
theorem failsCounted_handled {x : XboxM P V Unit} {handler : Error → XboxM P V Unit}
    (hx : ∀ c, Keeps (Tallied c) x) (hh : ∀ e, FailsCounted (handler e)) :
    FailsCounted (onError x handler) :=
  fun c => maintains_onError (hx c) fun e => hh e c

/-- What keeps the counters and cannot fail. -/
theorem failsCounted_modifyXbox {f : XboxTlsClient → XboxTlsClient}
    (hf : ∀ x, counts (f x).stats = counts x.stats) :
    FailsCounted (modifyXbox f : XboxM P V Unit) := by
  intro c s hs r s' hrun
  cases hrun
  exact ⟨(hf s.client).trans hs.1, hs.2⟩

/-- A read does not fail. -/
theorem failsCounted_getTls : FailsCounted (getTls : XboxM P V (TlsClient P)) := by
  intro c s hs r s' hrun
  cases hrun
  exact hs

/-- The exit that closes the socket counts. -/
theorem failsCounted_closeAndFail (e : Error) : FailsCounted (do
    closeSocket X
    failConnect e : XboxM P V Unit) :=
  failsCounted_bind (fun _ => keeps_closeSocket (tallied_closed X))
    fun _ => failsCounted_failConnect e

/-- A connection that cannot be opened is counted as failed. -/
theorem failsCounted_openConnection (fuel : ℕ) (hostname : CString) (options : XboxTlsOptions) :
    FailsCounted (openConnection X fuel hostname options : XboxM P V Unit) := by
  apply failsCounted_bind
  · exact failsCounted_handled (fun _ => keeps_callOutside (tallied_closed X) _)
      failsCounted_failConnect
  intro _
  apply failsCounted_bind
  · exact failsCounted_handled (fun _ => keeps_callOutside (tallied_closed X) _)
      (failsCounted_closeAndFail X)
  intro _
  exact failsCounted_handled (fun _ => keeps_tlsConnect (tallied_closed X) fuel _)
    (failsCounted_closeAndFail X)

/-- A connection without the protocol that is required is counted as failed. -/
theorem failsCounted_checkAlpn (options : XboxTlsOptions) :
    FailsCounted (checkAlpn X options : XboxM P V Unit) := by
  apply failsCounted_bind failsCounted_getTls
  intro t
  split
  · apply failsCounted_bind (fun _ => keeps_attempt (keeps_tlsClose (tallied_closed X)))
    intro _
    exact failsCounted_closeAndFail X .badHandshake
  · exact failsCounted_pure ()

/-- A connection whose key update fails is counted as failed. -/
theorem failsCounted_requestKeyUpdate (options : XboxTlsOptions) :
    FailsCounted (requestKeyUpdate X options : XboxM P V Unit) := by
  unfold requestKeyUpdate
  split
  · apply failsCounted_bind
    · exact failsCounted_handled (fun _ => keeps_tlsKeyUpdate (tallied_closed X) true)
        failsCounted_failConnect
    · intro _
      exact failsCounted_modifyXbox fun _ => rfl
  · exact failsCounted_pure ()

/-- The last two statements of `connect`. -/
theorem tallied_success : Leads (Tallied c) (Tallied (oneMore (0, 1, 0) c)) (fun _ => False) (do
    modifyStats fun s => { s with successfulConnections := s.successfulConnections + 1 }
    rememberOk : XboxM P V Unit) := by
  intro s hs r s' hrun
  cases hrun
  refine ⟨?_, hs.2⟩
  rw [← hs.1]
  show (_, _, _) = (_ + 0, _, _ + 0)
  rw [UInt32.add_zero, UInt32.add_zero]
  rfl

/-- A part whose failures are counted, and what follows it. -/
theorem leads_of_failsCounted {α β : Type} {I : XboxSystem P V → Prop} {x : XboxM P V α}
    {f : α → XboxM P V β} (hx : FailsCounted x)
    (hf : ∀ a, Leads (Tallied c) I (Tallied (oneMore (0, 0, 1) c)) (f a)) :
    Leads (Tallied c) I (Tallied (oneMore (0, 0, 1) c)) (x >>= f) :=
  leads_bind (K := Tallied c) (hx c) hf

/-- `connect` on an idle `tls_` counts a success or a failure. -/
theorem tallied_connectIdle (fuel : ℕ) (hostname : CString) (options : XboxTlsOptions) :
    Leads (Tallied c) (Tallied (oneMore (0, 1, 0) c)) (Tallied (oneMore (0, 0, 1) c))
      (connectIdle X fuel hostname options : XboxM P V Unit) := by
  unfold connectIdle
  split
  · intro s hs
    refine wp_mono (tallied_failConnect .invalidArgument s hs) ?_
    intro r s' hr
    cases r with
    | ok u => exact hr.elim
    | error e => exact hr
  · apply leads_of_failsCounted
    · exact failsCounted_handled (fun _ => keeps_setPin (tallied_closed X) options)
        failsCounted_failConnect
    intro _
    apply leads_of_failsCounted (failsCounted_openConnection X fuel hostname options)
    intro _
    refine leads_of_failsCounted (failsCounted_modifyXbox fun _ => rfl) fun _ => ?_
    apply leads_of_failsCounted (failsCounted_checkAlpn X options)
    intro _
    apply leads_of_failsCounted (failsCounted_requestKeyUpdate X options)
    intro _ s hs
    refine wp_mono (tallied_success s hs) ?_
    intro r s' hr
    cases r with
    | ok u => exact hr
    | error e => exact hr.elim

/-! ### The connection that `connect` finds -/

/-- Between two calls, `reset` does not fail. -/
theorem reset_of_settled {W : Type} (E : Env W) {t t' : System P W} {r : Except Error Unit}
    (ht : Settled t.client)
    (hrun : Model.reset E t = some (r, t')) : r = .ok () := by
  unfold Model.reset at hrun
  rw [bind_of_ok rfl, if_neg ht.state] at hrun
  rw [bind_of_ok (closeStream_apply E t)] at hrun
  cases hrun
  rfl

/-- The reset of `tls_` counts nothing. -/
theorem tallied_resetToIdle {J : XboxSystem P V → Prop} :
    Maintains (Tallied c) J (resetToIdle X : XboxM P V Unit) := by
  have hreset : Maintains (Tallied c) J
      (onError (callTls (Model.reset (tlsEnv P X))) rememberError : XboxM P V Unit) := by
    apply maintains_onError (K := fun _ => False)
    · intro s hs r s' hrun
      have hkept := keeps_tlsReset (tallied_closed X) s hs r s' hrun
      unfold callTls at hrun
      split at hrun
      · cases hrun
      · next r₁ t hcall =>
        cases hrun
        obtain rfl := reset_of_settled (tlsEnv P X) hs.2 hcall
        exact hkept
    · intro e s hs
      exact hs.elim
  unfold resetToIdle
  intro s hs
  rw [wp_bind]
  intro r s' hrun
  cases hrun
  rw [thenWp_ok]
  split
  · exact hreset s hs
  · exact maintains_pure () s hs

/-- A connection that may be left is left. -/
theorem tallied_leaveConnection {J : XboxSystem P V → Prop} {options : XboxTlsOptions}
    {s : XboxSystem P V} (hs : Tallied c s)
    (hmay : s.tls.client.state = .connected → options.autoReconnect = true) :
    wp (leaveConnection X options : XboxM P V Unit) (ends (Tallied c) J) s := by
  have hclose : wp (closeConnected X options : XboxM P V Unit) (ends (Tallied c) J) s := by
    unfold closeConnected
    rw [wp_bind]
    intro r s' hrun
    cases hrun
    rw [thenWp_ok]
    by_cases hconnected : s.tls.client.state = .connected
    · have hreconnect : ¬ options.autoReconnect = false := by
        rw [hmay hconnected]
        decide
      rw [if_neg (not_not.mpr hconnected), if_neg hreconnect]
      have hleave : Keeps (Tallied c) (if options.sendCloseNotify then
          callTls (Model.close (tlsEnv P X)) else callTls (Model.reset (tlsEnv P X)) :
          XboxM P V Unit) := by
        split
        · exact keeps_tlsClose (tallied_closed X)
        · exact keeps_tlsReset (tallied_closed X)
      exact maintains_bind (keeps_attempt hleave) (fun _ => keeps_closeSocket (tallied_closed X))
        s hs
    · rw [if_pos hconnected]
      exact maintains_pure () s hs
  unfold leaveConnection
  refine wp_bind_of_spec hclose ?_ ?_
  · intro u s' hs'
    exact tallied_resetToIdle X s' hs'
  · intro e s' hs'
    exact hs'

/-- A connection that may not be left ends the call. -/
theorem leaveConnection_forbidden {options : XboxTlsOptions} {s : XboxSystem P V}
    (hconnected : s.tls.client.state = .connected) (hforbids : options.autoReconnect = false) :
    (leaveConnection X options : XboxM P V Unit) s = some (.error .invalidArgument,
      { s with client := { s.client with lastError := some .invalidArgument } }) := by
  unfold leaveConnection closeConnected
  apply bind_of_error
  rw [bind_of_ok (show (getTls : XboxM P V _) s = some (.ok s.tls.client, s) from rfl),
    if_neg (not_not.mpr hconnected), if_pos hforbids]
  rfl

/-! ### The whole call -/

/-- An attempt and its outcome are counted one after the other. -/
theorem oneMore_oneMore (c : UInt32 × UInt32 × UInt32) (success failure : UInt32) :
    oneMore (0, success, failure) (oneMore (1, 0, 0) c) = oneMore (1, success, failure) c := by
  unfold oneMore
  simp only [UInt32.add_zero]

/-- The system after the first statement of `connect`. -/
def afterAttempt (s : XboxSystem P V) : XboxSystem P V :=
  { s with client := { s.client with
      stats := { s.client.stats with connectAttempts := s.client.stats.connectAttempts + 1 } } }

/-- The attempt is counted first. -/
theorem tallied_attempt {s : XboxSystem P V} (hs : Tallied c s) :
    Tallied (oneMore (1, 0, 0) c) (afterAttempt s) := by
  refine ⟨?_, hs.2⟩
  rw [← hs.1]
  show (_, _, _) = (_, _ + 0, _ + 0)
  rw [UInt32.add_zero, UInt32.add_zero]
  rfl

/-- **A `connect` that may leave the connection it finds counts once.** -/
theorem tallied_connect (fuel : ℕ) (hostname : Option CString) (options : XboxTlsOptions)
    {s : XboxSystem P V} (hs : Tallied c s)
    (hmay : ∀ name, hostname = some name → name.val.length ≠ 0 → s.client.initialized = true →
      s.tls.client.state = .connected → options.autoReconnect = true) :
    wp (XboxTlsClient.connect X fuel hostname options)
      (ends (Tallied (oneMore (1, 1, 0) c)) (Tallied (oneMore (1, 0, 1) c))) s := by
  have hfail : ∀ s, Tallied (oneMore (1, 0, 0) c) s →
      wp (failConnect .invalidArgument : XboxM P V Unit)
        (ends (Tallied (oneMore (1, 1, 0) c)) (Tallied (oneMore (1, 0, 1) c))) s := by
    intro s hs
    refine wp_mono (tallied_failConnect .invalidArgument s hs) ?_
    intro r s' hr
    cases r with
    | ok u => exact hr.elim
    | error e =>
      have hfailed : Tallied (oneMore (0, 0, 1) (oneMore (1, 0, 0) c)) s' := hr
      rw [oneMore_oneMore] at hfailed
      exact hfailed
  have hattempt := tallied_attempt hs
  unfold XboxTlsClient.connect
  rw [wp_bind]
  intro r s₁ hrun
  cases hrun
  rw [thenWp_ok, wp_bind]
  intro r s₂ hrun
  cases hrun
  rw [thenWp_ok]
  cases hostname with
  | none => exact hfail _ hattempt
  | some name =>
    dsimp only
    split
    · exact hfail _ hattempt
    next husable =>
    push Not at husable
    have hreconnect : (afterAttempt s).tls.client.state = .connected →
        options.autoReconnect = true :=
      fun hconnected => hmay name rfl husable.2 (by simpa using husable.1) hconnected
    have hleave :=
      tallied_leaveConnection X (J := Tallied (oneMore (1, 0, 1) c)) hattempt hreconnect
    refine wp_bind_of_spec hleave ?_ ?_
    · intro u s' hs'
      have hidle := tallied_connectIdle X fuel name options s' hs'
      rw [oneMore_oneMore, oneMore_oneMore] at hidle
      exact hidle
    · intro e s' hs'
      exact hs'

/-- A `connect` that may not leave the connection counts an attempt only. -/
theorem tallied_forbidden (fuel : ℕ) {name : CString} {options : XboxTlsOptions}
    {s : XboxSystem P V} (hs : Tallied c s) (hname : name.val.length ≠ 0)
    (hinit : s.client.initialized = true) (hconnected : s.tls.client.state = .connected)
    (hforbids : options.autoReconnect = false) :
    wp (XboxTlsClient.connect X fuel (some name) options)
      (fun r s' => r = .error .invalidArgument ∧ Tallied (oneMore (1, 0, 0) c) s') s := by
  intro r s' hrun
  unfold XboxTlsClient.connect at hrun
  have husable : ¬ (s.client.initialized = false ∨ name.val.length = 0) := by
    rw [hinit]
    simpa using hname
  have hattempt : (modifyStats fun st => { st with connectAttempts := st.connectAttempts + 1 } :
      XboxM P V Unit) s = some (.ok (), afterAttempt s) := rfl
  have hmembers : (getXbox : XboxM P V XboxTlsClient) (afterAttempt s) =
      some (.ok (afterAttempt s).client, afterAttempt s) := rfl
  rw [bind_of_ok hattempt, bind_of_ok hmembers] at hrun
  dsimp only at hrun
  have hleave : (leaveConnection X options : XboxM P V Unit) (afterAttempt s) = _ :=
    leaveConnection_forbidden X hconnected hforbids
  rw [if_neg
      (show ¬ ((afterAttempt s).client.initialized = false ∨ name.val.length = 0) from husable),
    bind_of_error hleave] at hrun
  cases hrun
  exact ⟨rfl, tallied_attempt hs⟩

/-! ## Every call -/

variable {X}

/-- What a `connect` with its arguments does, in both forms. -/
theorem run_of_connectArguments {call : XboxCall} {fuel : ℕ} {s s' : XboxSystem P V}
    {r : Except Error Bytes} {hostname : Option CString} {options : XboxTlsOptions}
    (hcall : connectArguments s.client call = some (hostname, options))
    (hrun : call.run X fuel s = some (r, s')) :
    withoutBytes (XboxTlsClient.connect X fuel hostname options) s = some (r, s') := by
  cases call with
  | connectTo hostname' port alpn =>
    cases hcall
    exact hrun
  | connect hostname' options' =>
    cases hcall
    exact hrun
  | _ => cases hcall

/-- A `connect` that is not forbidden is counted once. -/
theorem countedOnce_of_run {call : XboxCall} {fuel : ℕ} {s s' : XboxSystem P V}
    {r : Except Error Bytes} {hostname : Option CString} {options : XboxTlsOptions}
    (hs : Settled s.tls.client)
    (hcall : connectArguments s.client call = some (hostname, options))
    (hmay : ¬ ForbidsReconnect call s) (hrun : call.run X fuel s = some (r, s')) :
    CountedOnce s.client.stats s'.client.stats r ∧ Settled s'.tls.client := by
  have hwhole := run_of_connectArguments hcall hrun
  have hconnect := tallied_connect X fuel hostname options (c := counts s.client.stats) ⟨rfl, hs⟩
    (fun name hname hlength hinit hconnected => by
      by_contra hreconnect
      refine hmay ⟨name, options, ?_, hlength, hinit, hconnected, by simpa using hreconnect⟩
      rw [hcall, hname])
  have hends : ends (Tallied (oneMore (1, 1, 0) (counts s.client.stats)))
      (Tallied (oneMore (1, 0, 1) (counts s.client.stats))) r s' := by
    refine wp_bind_of_spec hconnect ?_ ?_ r s' hwhole
    · intro u s₁ hs₁
      exact (wp_pure _ _ _).2 hs₁
    · intro e s₁ hs₁
      exact hs₁
  cases r with
  | ok bytes =>
    have hcounts := Prod.mk.inj hends.1
    have hrest := Prod.mk.inj hcounts.2
    refine ⟨⟨hcounts.1, fun _ => ⟨hrest.1, ?_⟩, fun h => (by cases h)⟩, hends.2⟩
    rw [hrest.2]
    exact UInt32.add_zero _
  | error e =>
    have hcounts := Prod.mk.inj hends.1
    have hrest := Prod.mk.inj hcounts.2
    refine ⟨⟨hcounts.1, fun h => (by cases h), fun _ => ⟨?_, hrest.2⟩⟩, hends.2⟩
    rw [hrest.1]
    exact UInt32.add_zero _

/-- A `connect` that is forbidden counts neither. -/
theorem tallied_of_forbids {call : XboxCall} {fuel : ℕ} {s s' : XboxSystem P V}
    {r : Except Error Bytes} (hs : Settled s.tls.client) (hforbids : ForbidsReconnect call s)
    (hrun : call.run X fuel s = some (r, s')) :
    r = .error .invalidArgument ∧ Tallied (oneMore (1, 0, 0) (counts s.client.stats)) s' := by
  obtain ⟨name, options, hcall, hlength, hinit, hconnected, hreconnect⟩ := hforbids
  have hwhole := run_of_connectArguments hcall hrun
  have hconnect := tallied_forbidden X fuel (c := counts s.client.stats) ⟨rfl, hs⟩ hlength
    hinit hconnected hreconnect
  have hends : wp (withoutBytes (XboxTlsClient.connect X fuel (some name) options))
      (fun r s' => r = .error .invalidArgument ∧
        Tallied (oneMore (1, 0, 0) (counts s.client.stats)) s') s := by
    refine wp_bind_of_spec hconnect ?_ ?_
    · intro u s₁ hs₁
      cases hs₁.1
    · intro e s₁ hs₁
      exact ⟨congrArg Except.error (Except.error.inj hs₁.1), hs₁.2⟩
  exact hends r s' hwhole

/-- A reconnect that is forbidden is counted as an attempt only. -/
theorem not_countedOnce_of_forbids {call : XboxCall} {fuel : ℕ} {s s' : XboxSystem P V}
    {r : Except Error Bytes} (hs : Settled s.tls.client) (hforbids : ForbidsReconnect call s)
    (hrun : call.run X fuel s = some (r, s')) :
    ¬ CountedOnce s.client.stats s'.client.stats r := by
  obtain ⟨rfl, htally⟩ := tallied_of_forbids hs hforbids hrun
  intro honce
  have hcounts := Prod.mk.inj (Prod.mk.inj htally.1).2
  have hfailed := (honce.failure rfl).2
  rw [hcounts.2] at hfailed
  have hsame : s.client.stats.failedConnections + 0 = s.client.stats.failedConnections + 1 :=
    hfailed
  grind

/-- Every other call keeps the counters or clears them. -/
theorem balanced_of_run {call : XboxCall} {fuel : ℕ} {s s' : XboxSystem P V}
    {r : Except Error Bytes} (hs : Settled s.tls.client)
    (hcall : connectArguments s.client call = none) (hbalanced : Interface.Balanced s.client.stats)
    (hrun : call.run (solid X) fuel s = some (r, s')) :
    Interface.Balanced s'.client.stats ∧ Settled s'.tls.client := by
  by_cases hreset : call = .resetStats
  · subst hreset
    cases hrun
    exact ⟨rfl, hs⟩
  · have hkept : Tallied (counts s.client.stats) s' :=
      (tallied_run X fuel hcall hreset).run ⟨rfl, hs⟩ hrun
    have hcounts := Prod.mk.inj hkept.1
    have hrest := Prod.mk.inj hcounts.2
    refine ⟨?_, hkept.2⟩
    unfold Interface.Balanced
    rw [hcounts.1, hrest.1, hrest.2]
    exact hbalanced

/-- A call that counts once keeps the balance. -/
theorem balanced_of_countedOnce {before after : XboxTlsStats} {r : Except Error Bytes}
    (hbalanced : Interface.Balanced before) (honce : CountedOnce before after r) :
    Interface.Balanced after := by
  unfold Interface.Balanced at *
  rw [honce.attempt, hbalanced]
  cases r with
  | ok bytes =>
    rw [(honce.success rfl).1, (honce.success rfl).2]
    grind
  | error e =>
    rw [(honce.failure rfl).1, (honce.failure rfl).2]
    grind

/-- Every call leaves `tls_` settled. -/
theorem settled_of_xboxCall {call : XboxCall} {fuel : ℕ} {s s' : XboxSystem P V}
    {r : Except Error Bytes} (hs : Settled s.tls.client)
    (hrun : call.run (solid X) fuel s = some (r, s')) : Settled s'.tls.client := by
  cases hcall : connectArguments s.client call with
  | none =>
    by_cases hreset : call = .resetStats
    · subst hreset
      cases hrun
      exact hs
    · exact ((tallied_run X fuel hcall hreset).run ⟨rfl, hs⟩ hrun).2
  | some arguments =>
    by_cases hforbids : ForbidsReconnect call s
    · exact (tallied_of_forbids hs hforbids hrun).2.2
    · exact (countedOnce_of_run hs hcall hforbids hrun).2

/-- Every call of a run starts from a settled `tls_`. -/
theorem settled_of_xboxRun {v : V} {steps : List (XboxStep P V)} {s : XboxSystem P V}
    (hrun : XboxRun (solid X) (XboxSystem.fresh P v) steps s) :
    Settled s.tls.client ∧ ∀ step ∈ steps, Settled step.before.tls.client ∧
      XboxReturns (solid X) step.call step.before step.result step.after := by
  induction hrun with
  | nil =>
    refine ⟨settled_fresh _, ?_⟩
    intro step hstep
    cases hstep
  | snoc _ hret ih =>
    obtain ⟨hsettled, hsteps⟩ := ih
    refine ⟨?_, ?_⟩
    · obtain ⟨fuel, hcall⟩ := hret
      exact settled_of_xboxCall hsettled hcall
    · intro step hstep
      rcases List.mem_append.mp hstep with hbefore | hlast
      · exact hsteps step hbefore
      · obtain rfl := List.mem_singleton.mp hlast
        exact ⟨hsettled, hret⟩

/-- A call that is not forbidden counts as it should. -/
theorem stepCounted_of_returns {call : XboxCall} {s s' : XboxSystem P V} {r : Except Error Bytes}
    (hs : Settled s.tls.client) (hbalanced : Interface.Balanced s.client.stats)
    (hmay : ¬ ForbidsReconnect call s) (hret : XboxReturns (solid X) call s r s') :
    StepCounted ⟨s, call, r, s'⟩ := by
  obtain ⟨fuel, hrun⟩ := hret
  cases hcall : connectArguments s.client call with
  | none =>
    refine ⟨(balanced_of_run hs hcall hbalanced hrun).1, ?_⟩
    intro hsome
    rw [show connectArguments _ _ = none from hcall] at hsome
    cases hsome
  | some arguments =>
    have honce := (countedOnce_of_run hs hcall hmay hrun).1
    exact ⟨balanced_of_countedOnce hbalanced honce, fun _ => honce⟩

/-- **When the counters balance.**  In a run of a fresh client whose records fit the caller's
buffers and `pending_app_`, over every behaviour of the network, the file system and the server,
every call leaves the counters balanced and counts as
it should, exactly when no `connect` of the run finds a connection that it may not leave. -/
theorem stepCounted_iff {v : V} {steps : List (XboxStep P V)} {s : XboxSystem P V}
    (hrun : XboxRun X (XboxSystem.fresh P v) steps s) (hfits : ∀ step ∈ steps, ReceiveFits step) :
    (∀ step ∈ steps, StepCounted step) ↔
      ∀ step ∈ steps, ¬ ForbidsReconnect step.call step.before := by
  replace hrun := (xboxRun_solid hrun (pendingFits_fresh v) hfits).1
  clear hfits
  have hsettled := settled_of_xboxRun hrun
  constructor
  · intro hcounted step hstep hforbids
    obtain ⟨hs, fuel, hcall⟩ := hsettled.2 step hstep
    obtain ⟨name, options, harguments, -⟩ := id hforbids
    have hsome : (connectArguments step.before.client step.call).isSome := by
      rw [harguments]
      rfl
    exact not_countedOnce_of_forbids hs hforbids hcall ((hcounted step hstep).once hsome)
  · intro hmay
    suffices hall : Interface.Balanced s.client.stats ∧ ∀ step ∈ steps, StepCounted step from hall.2
    clear hsettled
    induction hrun with
    | nil =>
      refine ⟨rfl, ?_⟩
      intro step hstep
      cases hstep
    | snoc hbefore hret ih =>
      obtain ⟨hbalanced, hsteps⟩ := ih fun step hstep =>
        hmay step (List.mem_append_left _ hstep)
      have hlast := stepCounted_of_returns (settled_of_xboxRun hbefore).1 hbalanced
        (hmay _ (List.mem_append_right _ (List.mem_singleton_self _))) hret
      refine ⟨hlast.balanced, ?_⟩
      intro step hstep
      rcases List.mem_append.mp hstep with hearlier | hnew
      · exact hsteps step hearlier
      · obtain rfl := List.mem_singleton.mp hnew
        exact hlast

/-! ## Two runs -/

/-- The host `a`. -/
def hostA : CString := ⟨[97], zero_notMem_a⟩

/-- A console with a trust store of one certificate. -/
def console : XboxEnv Bytes := scriptedXbox (trustStoreOf onceCertificate)

/-- A fresh client of it, to which the server sends a handshake. -/
def consoleClient : XboxSystem blankCrypto Bytes :=
  .fresh blankCrypto (blankHandshake blankFinished)

/-- The counters after these calls. -/
def countsAfter (calls : List XboxCall) : Option (UInt32 × UInt32 × UInt32) :=
  (runCalls console 5 calls consoleClient).map fun run => counts run.2.client.stats

/-- Calls whose counters can be read have a run. -/
theorem run_of_countsAfter {calls : List XboxCall} {c : UInt32 × UInt32 × UInt32}
    (h : countsAfter calls = some c) :
    ∃ steps s, XboxRun console consoleClient steps s ∧ steps.map XboxStep.call = calls ∧
      counts s.client.stats = c := by
  unfold countsAfter at h
  obtain ⟨⟨steps, s⟩, hcalls, hcounts⟩ := Option.map_eq_some_iff.mp h
  obtain ⟨hrun, hsame⟩ := xboxRun_of_runCalls hcalls
  exact ⟨steps, s, hrun, hsame, hcounts⟩

/-- A run in which the client connects twice and leaves its first connection. -/
theorem stepCounted_iff_twice : ∃ steps s, XboxRun console consoleClient steps s ∧
    steps.map XboxStep.call =
      [.initializeDefault, .connect (some hostA) .default, .connect (some hostA) .default] ∧
    counts s.client.stats = (2, 1, 1) ∧ ∀ step ∈ steps, StepCounted step := by
  have hafter : countsAfter [.initializeDefault, .connect (some hostA) .default,
      .connect (some hostA) .default] = some (2, 1, 1) := by decide +kernel
  obtain ⟨steps, s, hrun, hcalls, hcounts⟩ := run_of_countsAfter hafter
  have hfits := receiveFits_of_calls hcalls (by decide)
  refine ⟨steps, s, hrun, hcalls, hcounts, (stepCounted_iff hrun hfits).2 ?_⟩
  intro step hstep hforbids
  obtain ⟨name, options, harguments, -, -, -, hreconnect⟩ := hforbids
  have hcall := List.mem_map_of_mem (f := XboxStep.call) hstep
  rw [hcalls] at hcall
  simp only [List.mem_cons, List.not_mem_nil, or_false, or_self] at hcall
  rcases hcall with hcall | hcall
  · rw [hcall] at harguments
    cases harguments
  · rw [hcall] at harguments
    cases harguments
    cases hreconnect

/-- **A refused reconnect is not counted**: two attempts, one success and no failure. -/
theorem refused_not_counted : ∃ steps s, XboxRun console consoleClient steps s ∧
    steps.map XboxStep.call = [.initializeDefault, .connect (some hostA) .default,
      .connect (some hostA) { XboxTlsOptions.default with autoReconnect := false }] ∧
    s.client.stats.connectAttempts = 2 ∧ s.client.stats.successfulConnections = 1 ∧
    s.client.stats.failedConnections = 0 ∧ ¬ Interface.Balanced s.client.stats := by
  have hafter : countsAfter [.initializeDefault, .connect (some hostA) .default,
      .connect (some hostA) { XboxTlsOptions.default with autoReconnect := false }] =
      some (2, 1, 0) := by decide +kernel
  obtain ⟨steps, s, hrun, hcalls, hcounts⟩ := run_of_countsAfter hafter
  have hfirst := Prod.mk.inj hcounts
  have hrest := Prod.mk.inj hfirst.2
  refine ⟨steps, s, hrun, hcalls, hfirst.1, hrest.1, hrest.2, ?_⟩
  unfold Interface.Balanced
  rw [hfirst.1, hrest.1, hrest.2]
  decide

end XboxTls.Analysis
