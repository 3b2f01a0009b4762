import XboxTls.Model.XboxClient

/-!
# What the methods of `XboxTlsClient` keep

Every method but `connect` and `receive` is made of assignments to members, calls of `tls_`,
calls to the console and three operations on the trust store.  An invariant that these preserve
is kept by all of them; if it does not depend on the counters, by `connect` too.  What `receive`
keeps depends on what it writes behind `tls_`, and is a hypothesis of `kept_of_xboxRun`.
-/

set_option autoImplicit false

namespace XboxTls.Analysis

open Programs Programs.Prog XboxTls.Model

variable {P : Crypto} {V : Type}

/-- The three counters of `connect`. -/
def counts (stats : XboxTlsStats) : UInt32 × UInt32 × UInt32 :=
  (stats.connectAttempts, stats.successfulConnections, stats.failedConnections)

/-- An invariant that the parts of the methods other than `receive` preserve. -/
structure MethodsClosed (X : XboxEnv V) (I : XboxSystem P V → Prop) : Prop where
  members : ∀ (s : XboxSystem P V) (x : XboxTlsClient),
    x.trustStoreData = s.client.trustStoreData → counts x.stats = counts s.client.stats →
      I s → I { s with client := x }
  call : ∀ (s : XboxSystem P V) (k : Call) (fuel : ℕ) r t,
    (∀ receivedNull outNull size, k ≠ .recv receivedNull outNull size) →
      k.run (tlsEnv P X) fuel s.tls = some (r, t) → I s → I { s with tls := t }
  outside : ∀ (s : XboxSystem P V) (v : V), I s →
    I { s with tls := { s.tls with world := { s.tls.world with outside := v } } }
  pin : ∀ (s : XboxSystem P V) (v : VerifierObject), v.anchors = s.tls.world.verifier.anchors →
    I s → I { s with tls := { s.tls with world := { s.tls.world with verifier := v } } }
  free : Keeps I (freeTrustStore : XboxM P V Unit)
  read : ∀ size, Keeps I (readTrustStore X size : XboxM P V Unit)

/-- The calls of a run returned. -/
theorem returns_of_xboxRun {X : XboxEnv V} {s s' : XboxSystem P V} {steps : List (XboxStep P V)}
    (hrun : XboxRun X s steps s') :
    ∀ step ∈ steps, XboxReturns X step.call step.before step.result step.after := by
  induction hrun with
  | nil => simp
  | snoc _ hret ih =>
    intro step hstep
    rcases List.mem_append.mp hstep with hearlier | hnew
    · exact ih step hearlier
    · rw [List.mem_singleton.mp hnew]
      exact hret

section Methods

variable {X : XboxEnv V} {I : XboxSystem P V → Prop} {α : Type}

/-- A read of the members changes nothing. -/
theorem keeps_getXbox : Keeps I (getXbox : XboxM P V XboxTlsClient) := by
  intro s hs r s' hrun
  cases hrun
  exact hs

/-- A read of `tls_` changes nothing. -/
theorem keeps_getTls {J : XboxSystem P V → Prop} :
    Maintains I J (getTls : XboxM P V (TlsClient P)) := by
  intro s hs r s' hrun
  cases hrun
  exact hs

/-- A method without bytes keeps what it keeps. -/
theorem keeps_withoutBytes {x : XboxM P V Unit} (hx : Keeps I x) : Keeps I (withoutBytes x) :=
  maintains_bind hx fun _ => maintains_pure []

variable (hI : MethodsClosed X I)
include hI

/-- A change that touches neither the store nor the counters. -/
theorem keeps_modifyXbox {f : XboxTlsClient → XboxTlsClient}
    (hdata : ∀ x, (f x).trustStoreData = x.trustStoreData)
    (hcounts : ∀ x, counts (f x).stats = counts x.stats) :
    Keeps I (modifyXbox f : XboxM P V Unit) := by
  intro s hs r s' hrun
  cases hrun
  exact hI.members s _ (hdata _) (hcounts _) hs

/-- `remember(XT_OK)` touches neither the store nor the counters. -/
theorem keeps_rememberOk : Keeps I (rememberOk : XboxM P V Unit) :=
  keeps_modifyXbox hI (fun _ => rfl) fun _ => rfl

/-- `remember` of an error touches neither the store nor the counters. -/
theorem keeps_rememberError (e : Error) : Keeps I (rememberError e : XboxM P V α) :=
  maintains_bind (keeps_modifyXbox hI (fun _ => rfl) fun _ => rfl) fun _ =>
    maintains_throw (fun _ h => h) e

/-- An error is remembered. -/
theorem keeps_orRemember {x : XboxM P V α} (hx : Keeps I x) :
    Keeps I (onError x rememberError) :=
  maintains_onError hx fun e => keeps_rememberError hI e

/-! ## `tls_` -/

/-- A method of `tls_` other than `recv` keeps the invariant. -/
theorem keeps_callTls {x : ClientM P (XboxWorld V) α} (k : Call) (n : ℕ) (f : α → Bytes)
    (hother : ∀ receivedNull outNull size, k ≠ .recv receivedNull outNull size)
    (hk : k.run (tlsEnv P X) n = (do let a ← x; pure (f a))) :
    Keeps I (callTls x : XboxM P V α) := by
  intro s hs r s' hrun
  unfold callTls at hrun
  split at hrun
  · cases hrun
  · next r t hcall =>
    cases hrun
    have hwhole : k.run (tlsEnv P X) n s.tls = some (r.map f, t) := by
      rw [hk, bind_apply, hcall]
      cases r with
      | ok a => rfl
      | error e => rfl
    have ht := hI.call s k n _ t hother hwhole hs
    cases r with
    | ok a => exact ht
    | error e => exact ht

/-- `tls_.close()` is a call of `tls_` that receives nothing. -/
theorem keeps_tlsClose : Keeps I (callTls (Model.close (tlsEnv P X)) : XboxM P V Unit) :=
  keeps_callTls hI .close 0 (fun _ => []) (fun _ _ _ h => nomatch h) rfl

/-- `tls_.reset()` is a call of `tls_` that receives nothing. -/
theorem keeps_tlsReset : Keeps I (callTls (Model.reset (tlsEnv P X)) : XboxM P V Unit) :=
  keeps_callTls hI .reset 0 (fun _ => []) (fun _ _ _ h => nomatch h) rfl

/-- `tls_.connect()` is a call of `tls_` that receives nothing. -/
theorem keeps_tlsConnect (fuel : ℕ) (config : ClientConfig) :
    Keeps I (callTls (Model.connect (tlsEnv P X) fuel config) : XboxM P V Unit) :=
  keeps_callTls hI (.connect config) fuel (fun _ => []) (fun _ _ _ h => nomatch h) rfl

/-- `tls_.key_update()` is a call of `tls_` that receives nothing. -/
theorem keeps_tlsKeyUpdate (request : Bool) :
    Keeps I (callTls (Model.keyUpdate (tlsEnv P X) request) : XboxM P V Unit) :=
  keeps_callTls hI (.keyUpdate request) 0 (fun _ => []) (fun _ _ _ h => nomatch h) rfl

/-- `tls_.send()` is a call of `tls_` that receives nothing. -/
theorem keeps_tlsSend (null : Bool) (data : Bytes) :
    Keeps I (callTls (Model.send (tlsEnv P X) null data) : XboxM P V Unit) :=
  keeps_callTls hI (.send null data) 0 (fun _ => []) (fun _ _ _ h => nomatch h) rfl

/-! ## The console -/

/-- A call to the console changes the console only. -/
theorem keeps_callOutside (x : Prog V Error α) :
    Keeps I (callXboxWorld (callOutside x) : XboxM P V α) := by
  intro s hs r s' hrun
  unfold callXboxWorld callTls callWorld callOutside at hrun
  cases hx : x s.tls.world.outside with
  | none =>
    rw [hx] at hrun
    cases hrun
  | some out =>
    obtain ⟨_, v⟩ := out
    rw [hx] at hrun
    cases hrun
    have hv := hI.outside s v hs
    cases r with
    | ok a => exact hv
    | error e => exact hv

/-- What cannot fail does not fail. -/
theorem keeps_updateOutside {J : XboxSystem P V → Prop} (f : V → α × V) :
    Maintains I J (updateXboxWorld (updateOutside f) : XboxM P V α) := by
  intro s hs r s' hrun
  cases hrun
  exact hI.outside s _ hs

/-- A change of the outside world leaves the members. -/
theorem keeps_changeOutside {J : XboxSystem P V → Prop} (f : V → V) :
    Maintains I J (updateXboxWorld fun w => ((), { w with outside := f w.outside }) :
      XboxM P V Unit) := by
  intro s hs r s' hrun
  cases hrun
  exact hI.outside s _ hs

/-- Closing the socket leaves the members. -/
theorem keeps_closeSocket {J : XboxSystem P V → Prop} :
    Maintains I J (closeSocket X : XboxM P V Unit) :=
  keeps_changeOutside hI _

/-- The exit that closes the file leaves the members. -/
theorem keeps_closeFileAndFail (e : Error) :
    Keeps I (closeFileAndFail X e : XboxM P V Unit) :=
  maintains_bind (keeps_changeOutside hI _) fun _ => keeps_rememberError hI e

/-- Setting the pin leaves store and counters. -/
theorem keeps_setPin (options : XboxTlsOptions) :
    Keeps I (setPin options : XboxM P V Unit) := by
  unfold setPin
  cases options.certificateSha256Pin with
  | some pin =>
    have hlength : ¬ pin.val.length ≠ 32 := by simp [pin.property]
    intro s hs r s' hrun
    unfold VerifierObject.setLeafCertificateSha256Pin at hrun
    dsimp only at hrun
    rw [if_neg hlength] at hrun
    cases hrun
    exact hI.pin s _ rfl hs
  | none =>
    intro s hs r s' hrun
    cases hrun
    exact hI.pin s _ rfl hs

/-! ## The methods -/

/-- `load_trust_store_file` puts the new block in the place of the old one. -/
theorem keeps_loadTrustStoreFile (path : Option CString) :
    Keeps I (loadTrustStoreFile X path : XboxM P V Unit) := by
  unfold loadTrustStoreFile
  cases path with
  | none => exact keeps_rememberError hI _
  | some path =>
    dsimp only
    split
    · exact keeps_rememberError hI _
    apply maintains_bind (keeps_updateOutside hI _)
    intro opened
    split
    · exact keeps_rememberError hI _
    apply maintains_bind (keeps_updateOutside hI _)
    intro atEnd
    split
    · exact keeps_closeFileAndFail hI _
    apply maintains_bind (keeps_updateOutside hI _)
    intro fileSize
    split
    · exact keeps_closeFileAndFail hI _
    apply maintains_bind (keeps_updateOutside hI _)
    intro atStart
    split
    · exact keeps_closeFileAndFail hI _
    · exact hI.read _

/-- `close` leaves store and counters. -/
theorem keeps_xboxClose : Keeps I (XboxTlsClient.close X : XboxM P V Unit) := by
  unfold XboxTlsClient.close
  apply maintains_bind keeps_getXbox
  intro x
  apply maintains_bind keeps_getTls
  intro t
  have hleave : Keeps I
      (if t.state = .connected ∧ x.activeOptions.sendCloseNotify then
        callTls (Model.close (tlsEnv P X))
      else if t.state ≠ .idle then callTls (Model.reset (tlsEnv P X))
      else pure () : XboxM P V Unit) := by
    split
    · exact keeps_tlsClose hI
    · split
      · exact keeps_tlsReset hI
      · exact maintains_pure ()
  apply maintains_bind (keeps_attempt hleave)
  intro error
  apply maintains_bind (keeps_closeSocket hI)
  intro _
  cases error with
  | error e => exact keeps_rememberError hI e
  | ok u => exact keeps_rememberOk hI

/-- Stopping the network leaves store and counters. -/
theorem keeps_stopNetwork : Keeps I (stopNetwork X : XboxM P V Unit) := by
  unfold stopNetwork
  apply maintains_bind keeps_getXbox
  intro x
  split
  · refine maintains_bind (keeps_changeOutside hI _) fun _ => ?_
    exact keeps_modifyXbox hI (fun _ => rfl) fun _ => rfl
  · exact maintains_pure ()

/-- `shutdown` frees the store. -/
theorem keeps_shutdown : Keeps I (XboxTlsClient.shutdown X : XboxM P V Unit) := by
  unfold XboxTlsClient.shutdown
  apply maintains_bind (keeps_attempt (keeps_xboxClose hI))
  intro _
  apply maintains_bind hI.free
  intro _
  apply maintains_bind (keeps_stopNetwork hI)
  intro _
  exact keeps_modifyXbox hI (fun _ => rfl) fun _ => rfl

/-- Starting the network leaves store and counters. -/
theorem keeps_startNetwork : Keeps I (startNetwork X : XboxM P V Unit) := by
  unfold startNetwork
  apply maintains_bind keeps_getXbox
  intro x
  split
  · exact maintains_pure ()
  · apply maintains_bind (keeps_orRemember hI (keeps_callOutside hI _))
    intro _
    exact keeps_modifyXbox hI (fun _ => rfl) fun _ => rfl

/-- `initialize` starts the network and loads the store. -/
theorem keeps_initializeWith (options : XboxTlsOptions) :
    Keeps I (XboxTlsClient.initializeWith X options : XboxM P V Unit) := by
  unfold XboxTlsClient.initializeWith
  refine maintains_bind (keeps_modifyXbox hI (fun _ => rfl) fun _ => rfl) fun _ => ?_
  apply maintains_bind (keeps_startNetwork hI)
  intro _
  apply maintains_bind
  · apply maintains_onError (keeps_loadTrustStoreFile hI options.trustStorePath)
    intro e
    exact maintains_bind (keeps_shutdown hI) fun _ => keeps_rememberError hI e
  · intro _
    exact maintains_bind (keeps_modifyXbox hI (fun _ => rfl) fun _ => rfl) fun _ =>
      keeps_rememberOk hI

/-- `send` leaves store and counters. -/
theorem keeps_xboxSend (null : Bool) (data : Bytes) :
    Keeps I (XboxTlsClient.send X null data : XboxM P V Unit) := by
  apply maintains_bind (keeps_orRemember hI (keeps_tlsSend hI null data))
  intro _
  exact maintains_bind (keeps_modifyXbox hI (fun _ => rfl) fun _ => rfl) fun _ =>
    keeps_rememberOk hI

/-- `receive`, if its `recv` and what lands behind `tls_` keep the invariant. -/
theorem keeps_receive (fuel : ℕ) (receivedNull outNull : Bool) (size : ℕ)
    (hrecv : Keeps I (callTls (Model.recv (tlsEnv P X) fuel receivedNull outNull size) :
      XboxM P V Bytes))
    (hland : ∀ before after, Keeps I (landOverrun X before after : XboxM P V Unit)) :
    Keeps I (XboxTlsClient.receive X fuel receivedNull outNull size : XboxM P V Bytes) := by
  apply maintains_bind keeps_getTls
  intro before
  apply maintains_bind (keeps_orRemember hI hrecv)
  intro bytes
  apply maintains_bind keeps_getTls
  intro after
  apply maintains_bind (hland before after)
  intro _
  refine maintains_bind (keeps_modifyXbox hI (fun _ => rfl) fun _ => rfl) fun _ => ?_
  exact maintains_bind (keeps_rememberOk hI) fun _ => maintains_pure bytes

/-- `key_update` leaves store and counters. -/
theorem keeps_xboxKeyUpdate (request : Bool) :
    Keeps I (XboxTlsClient.keyUpdate X request : XboxM P V Unit) := by
  apply maintains_bind (keeps_orRemember hI (keeps_tlsKeyUpdate hI request))
  intro _
  exact maintains_bind (keeps_modifyXbox hI (fun _ => rfl) fun _ => rfl) fun _ =>
    keeps_rememberOk hI

/-- `reload_trust_store` loads the store again. -/
theorem keeps_reloadTrustStore (path : Option CString) :
    Keeps I (XboxTlsClient.reloadTrustStore X path : XboxM P V Unit) := by
  apply maintains_bind keeps_getXbox
  intro x
  split
  · exact keeps_rememberError hI _
  · exact keeps_loadTrustStoreFile hI path

/-- **The methods keep the invariant**, if `connect`, `receive` and `reset_stats` do. -/
theorem keeps_xboxCall (fuel : ℕ) (call : XboxCall)
    (hconnectTo : ∀ hostname port alpn, call = .connectTo hostname port alpn →
      Keeps I (call.run X fuel : XboxM P V Bytes))
    (hconnect : ∀ hostname options, call = .connect hostname options →
      Keeps I (call.run X fuel : XboxM P V Bytes))
    (hreceive : ∀ receivedNull outNull size, call = .receive receivedNull outNull size ∨
      call = .receivePointer receivedNull outNull size →
      Keeps I (XboxTlsClient.receive X fuel receivedNull outNull size : XboxM P V Bytes))
    (hreset : call = .resetStats → Keeps I (call.run X fuel : XboxM P V Bytes)) :
    Keeps I (call.run X fuel : XboxM P V Bytes) := by
  cases call with
  | initializeDefault =>
    apply keeps_withoutBytes
    exact maintains_bind keeps_getXbox fun x => keeps_initializeWith hI x.defaults
  | initializePath path =>
    apply keeps_withoutBytes
    exact maintains_bind keeps_getXbox fun x => keeps_initializeWith hI _
  | initializeWith options => exact keeps_withoutBytes (keeps_initializeWith hI options)
  | connectTo hostname port alpn => exact hconnectTo hostname port alpn rfl
  | connect hostname options => exact hconnect hostname options rfl
  | send null data => exact keeps_withoutBytes (keeps_xboxSend hI null data)
  | sendPointer null data =>
    apply keeps_withoutBytes
    split
    · exact keeps_rememberError hI _
    · exact keeps_xboxSend hI null data
  | receive receivedNull outNull size => exact hreceive receivedNull outNull size (Or.inl rfl)
  | receivePointer receivedNull outNull size =>
    show Keeps I (if outNull ∧ size ≠ 0 then rememberError .invalidArgument
      else XboxTlsClient.receive X fuel receivedNull outNull size)
    split
    · exact keeps_rememberError hI _
    · exact hreceive receivedNull outNull size (Or.inr rfl)
  | keyUpdate request => exact keeps_withoutBytes (keeps_xboxKeyUpdate hI request)
  | reloadTrustStore path => exact keeps_withoutBytes (keeps_reloadTrustStore hI path)
  | close => exact keeps_withoutBytes (keeps_xboxClose hI)
  | shutdown => exact keeps_withoutBytes (keeps_shutdown hI)
  | setDefaultOptions options =>
    exact keeps_withoutBytes (keeps_modifyXbox hI (fun _ => rfl) fun _ => rfl)
  | resetStats => exact hreset rfl

/-! ## `connect` and `reset_stats` -/

variable (hM : ∀ (s : XboxSystem P V) (x : XboxTlsClient),
  x.trustStoreData = s.client.trustStoreData → I s → I { s with client := x })

include hM in
omit hI in
/-- Any assignment that keeps `trust_store_data_`. -/
theorem keeps_members {f : XboxTlsClient → XboxTlsClient}
    (hdata : ∀ x, (f x).trustStoreData = x.trustStoreData) :
    Keeps I (modifyXbox f : XboxM P V Unit) := by
  intro s hs r s' hrun
  cases hrun
  exact hM s _ (hdata _) hs

include hM

/-- The exit that counts a failed connection. -/
theorem keeps_failConnect (e : Error) : Keeps I (failConnect e : XboxM P V Unit) :=
  maintains_bind (keeps_members hM fun _ => rfl) fun _ => keeps_rememberError hI e

/-- The exit that closes the socket and counts a failed connection. -/
theorem keeps_closeAndFail (e : Error) : Keeps I (do
    closeSocket X
    failConnect e : XboxM P V Unit) :=
  maintains_bind (keeps_closeSocket hI) fun _ => keeps_failConnect hI hM e

omit hM in
/-- Leaving a connection leaves store and counters. -/
theorem keeps_leaveConnection (options : XboxTlsOptions) :
    Keeps I (leaveConnection X options : XboxM P V Unit) := by
  unfold leaveConnection
  apply maintains_bind
  · unfold closeConnected
    apply maintains_bind keeps_getTls
    intro t
    split
    · exact maintains_pure ()
    split
    · exact keeps_rememberError hI _
    apply maintains_bind
    · apply keeps_attempt
      split
      · exact keeps_tlsClose hI
      · exact keeps_tlsReset hI
    · intro _
      exact keeps_closeSocket hI
  intro _
  unfold resetToIdle
  apply maintains_bind keeps_getTls
  intro t
  split
  · exact keeps_orRemember hI (keeps_tlsReset hI)
  · exact maintains_pure ()

/-- `connect` on an idle client. -/
theorem keeps_connectIdle (fuel : ℕ) (hostname : CString) (options : XboxTlsOptions) :
    Keeps I (connectIdle X fuel hostname options : XboxM P V Unit) := by
  have hfail := keeps_failConnect hI hM
  have hclose := keeps_closeAndFail hI hM
  unfold connectIdle
  split
  · exact hfail _
  apply maintains_bind (maintains_onError (keeps_setPin hI options) hfail)
  intro _
  apply maintains_bind
  · unfold openConnection
    apply maintains_bind (maintains_onError (keeps_callOutside hI _) hfail)
    intro _
    apply maintains_bind (maintains_onError (keeps_callOutside hI _) hclose)
    intro _
    exact maintains_onError (keeps_tlsConnect hI fuel _) hclose
  intro _
  refine maintains_bind (keeps_members hM fun _ => rfl) fun _ => ?_
  apply maintains_bind
  · unfold checkAlpn
    apply maintains_bind keeps_getTls
    intro t
    split
    · refine maintains_bind (keeps_attempt (keeps_tlsClose hI)) fun _ => ?_
      exact hclose .badHandshake
    · exact maintains_pure ()
  intro _
  apply maintains_bind
  · unfold requestKeyUpdate
    split
    · apply maintains_bind (maintains_onError (keeps_tlsKeyUpdate hI true) hfail)
      intro _
      exact keeps_members hM fun _ => rfl
    · exact maintains_pure ()
  intro _
  exact maintains_bind (keeps_members hM fun _ => rfl) fun _ => keeps_rememberOk hI

/-- `connect` keeps whatever its parts keep. -/
theorem keeps_xboxConnect (fuel : ℕ) (hostname : Option CString) (options : XboxTlsOptions) :
    Keeps I (XboxTlsClient.connect X fuel hostname options : XboxM P V Unit) := by
  unfold XboxTlsClient.connect
  refine maintains_bind (keeps_members hM fun _ => rfl) fun _ => ?_
  apply maintains_bind keeps_getXbox
  intro x
  cases hostname with
  | none => exact keeps_failConnect hI hM _
  | some hostname =>
    dsimp only
    split
    · exact keeps_failConnect hI hM _
    · exact maintains_bind (keeps_leaveConnection hI options) fun _ =>
        keeps_connectIdle hI hM fuel hostname options

/-- **Every call keeps the invariant**, if `receive` does and the members other than
`trust_store_data_` do not matter to it. -/
theorem keeps_everyCall (fuel : ℕ) (call : XboxCall)
    (hreceive : ∀ receivedNull outNull size, call = .receive receivedNull outNull size ∨
      call = .receivePointer receivedNull outNull size →
      Keeps I (XboxTlsClient.receive X fuel receivedNull outNull size : XboxM P V Bytes)) :
    Keeps I (call.run X fuel : XboxM P V Bytes) := by
  refine keeps_xboxCall hI fuel call ?_ ?_ hreceive ?_
  · rintro hostname port alpn rfl
    apply keeps_withoutBytes
    exact maintains_bind keeps_getXbox fun x => keeps_xboxConnect hI hM fuel hostname _
  · rintro hostname options rfl
    exact keeps_withoutBytes (keeps_xboxConnect hI hM fuel hostname options)
  · rintro rfl
    exact keeps_withoutBytes (keeps_members hM fun _ => rfl)

/-- Every run keeps the invariant. -/
theorem kept_of_xboxRun {s s' : XboxSystem P V} {steps : List (XboxStep P V)}
    (hreceive : ∀ fuel receivedNull outNull size,
      Keeps I (XboxTlsClient.receive X fuel receivedNull outNull size : XboxM P V Bytes))
    (hrun : XboxRun X s steps s') (hs : I s) : I s' ∧ ∀ step ∈ steps, I step.before := by
  induction hrun with
  | nil => exact ⟨hs, by simp⟩
  | @snoc s₁ s₂ steps call r _ hret ih =>
    obtain ⟨hs₁, hsteps⟩ := ih
    obtain ⟨fuel, hcall⟩ := hret
    have hkeeps := keeps_everyCall hI hM fuel call fun receivedNull outNull size _ =>
      hreceive fuel receivedNull outNull size
    refine ⟨hkeeps.run hs₁ hcall, ?_⟩
    intro step hstep
    rcases List.mem_append.mp hstep with hearlier | hnew
    · exact hsteps step hearlier
    · rw [List.mem_singleton.mp hnew]
      exact hs₁

end Methods

/-! ## Invariants of `tls_` and the counters -/

section World

variable {X : XboxEnv V} {I : XboxSystem P V → Prop}
variable (hmembers : ∀ (s : XboxSystem P V) (x : XboxTlsClient),
  counts x.stats = counts s.client.stats → I s → I { s with client := x })
variable (hworld : ∀ (s : XboxSystem P V) (w : XboxWorld V),
  I s → I { s with tls := { s.tls with world := w } })

include hmembers in
/-- Assignments that leave the counters. -/
theorem keeps_uncounted {f : XboxTlsClient → XboxTlsClient}
    (hf : ∀ x, counts (f x).stats = counts x.stats) :
    Keeps I (modifyXbox f : XboxM P V Unit) := by
  intro s hs r s' hrun
  cases hrun
  exact hmembers s _ (hf s.client) hs

include hworld in
/-- What cannot fail does not fail. -/
theorem keeps_updateXboxWorld {α : Type} {J : XboxSystem P V → Prop}
    (f : XboxWorld V → α × XboxWorld V) :
    Maintains I J (updateXboxWorld f : XboxM P V α) := by
  intro s hs r s' hrun
  cases hrun
  exact hworld s _ hs

include hworld in
/-- A call outside changes the world only. -/
theorem keeps_callXboxWorld {α : Type} (x : Prog (XboxWorld V) Error α) :
    Keeps I (callXboxWorld x : XboxM P V α) := by
  intro s hs r s' hrun
  unfold callXboxWorld callTls callWorld at hrun
  cases hx : x s.tls.world with
  | none =>
    rw [hx] at hrun
    cases hrun
  | some out =>
    obtain ⟨_, w⟩ := out
    rw [hx] at hrun
    cases hrun
    have hw := hworld s w hs
    cases r with
    | ok a => exact hw
    | error e => exact hw

include hmembers hworld

/-- Giving back the trust store. -/
theorem keeps_freeTrustStore : Keeps I (freeTrustStore : XboxM P V Unit) := by
  unfold freeTrustStore
  apply maintains_bind keeps_getXbox
  intro x
  have hrest : Keeps I (do
      modifyXbox fun x => { x with trustStoreSize := 0 }
      updateXboxWorld fun w => ((), { w with verifier := w.verifier.clearTrustAnchors }) :
      XboxM P V Unit) :=
    maintains_bind (keeps_uncounted hmembers fun _ => rfl) fun _ =>
      keeps_updateXboxWorld hworld _
  cases x.trustStoreData with
  | none => exact hrest
  | some block =>
    refine maintains_bind (keeps_updateXboxWorld hworld _) fun _ => ?_
    exact maintains_bind (keeps_uncounted hmembers fun _ => rfl) fun _ => hrest

/-- Reading a trust store from the file that is open. -/
theorem keeps_readTrustStore (size : ℕ) :
    Keeps I (readTrustStore X size : XboxM P V Unit) := by
  have hremember : ∀ e, Keeps I (rememberError e : XboxM P V Unit) := fun e =>
    maintains_bind (keeps_uncounted hmembers fun _ => rfl) fun _ =>
      maintains_throw (fun _ h => h) e
  have hupdate : ∀ {α : Type} (f : XboxWorld V → α × XboxWorld V),
      Keeps I (updateXboxWorld f : XboxM P V α) := fun f => keeps_updateXboxWorld hworld f
  unfold readTrustStore
  apply maintains_bind (hupdate _)
  intro memory
  split
  · exact maintains_bind (hupdate _) fun _ => hremember _
  apply maintains_bind (hupdate _)
  intro data
  apply maintains_bind (hupdate _)
  intro block
  split
  · refine maintains_bind (hupdate _) fun _ => ?_
    exact maintains_bind (hupdate _) fun _ => hremember _
  apply maintains_bind (hupdate _)
  intro _
  unfold useTrustStore
  apply maintains_bind (keeps_freeTrustStore hmembers hworld)
  intro _
  apply maintains_bind (keeps_attempt (keeps_callXboxWorld hworld _))
  intro loaded
  match loaded with
  | .error e => exact maintains_bind (hupdate _) fun _ => hremember e
  | .ok 0 => exact maintains_bind (hupdate _) fun _ => hremember .verify
  | .ok (n + 1) =>
    refine maintains_bind (keeps_uncounted hmembers fun _ => rfl) fun _ => ?_
    exact maintains_bind (keeps_uncounted hmembers fun _ => rfl) fun _ =>
      keeps_uncounted hmembers fun _ => rfl

/-- **An invariant of `tls_` and the counters** that the methods of `tls_` keep. -/
theorem methodsClosed_of_world
    (hcall : ∀ (s : XboxSystem P V) (k : Call) (fuel : ℕ) r t,
      (∀ receivedNull outNull size, k ≠ .recv receivedNull outNull size) →
        k.run (tlsEnv P X) fuel s.tls = some (r, t) → I s → I { s with tls := t }) :
    MethodsClosed X I where
  members s x _ hcounts hs := hmembers s x hcounts hs
  call := hcall
  outside s _ hs := hworld s _ hs
  pin s _ _ hs := hworld s _ hs
  free := keeps_freeTrustStore hmembers hworld
  read := keeps_readTrustStore hmembers hworld

end World

end XboxTls.Analysis
