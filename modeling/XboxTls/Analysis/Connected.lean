import XboxTls.Analysis.Steady

/-!
# Connected clients have a usable configuration

Only `connect` sets a configuration, and it refuses one without a platform, a stream, a
verifier or a host name; only `connect` makes a client connected.  So the null pointers
that some methods do not test for never reach them.
-/

set_option autoImplicit false

namespace XboxTls.Analysis

open Programs Programs.Prog XboxTls.Model

variable {P : Crypto} {W : Type} (E : Env W)

/-- While a handshake runs and while connected, the configuration is usable. -/
def Configured (s : System P W) : Prop :=
  s.client.state = .handshaking ∨ s.client.state = .connected → s.client.config.usable = true

/-- During a handshake. -/
def Handshaking (s : System P W) : Prop :=
  s.client.state = .handshaking ∧ s.client.config.usable = true

/-- A client that is in no connection needs no configuration. -/
theorem configured_of_state {s : System P W} (h1 : s.client.state ≠ .handshaking)
    (h2 : s.client.state ≠ .connected) : Configured s := by
  rintro (h | h)
  · exact absurd h h1
  · exact absurd h h2

/-- A steady change leaves the configuration. -/
theorem configured_steady {s s' : System P W} (h : Steady s s') (hs : Configured s) :
    Configured s' := by
  unfold Configured
  rw [h.state, h.config]
  exact hs

/-- A failed client needs no configuration. -/
theorem configured_wiped {s s' : System P W} (h : Wiped s s') : Configured s' := by
  apply configured_of_state <;> rw [h.client] <;> simp

/-- A steady change leaves the handshake going on. -/
theorem handshaking_steady {s s' : System P W} (h : Steady s s') (hs : Handshaking s) :
    Handshaking s' := by
  unfold Handshaking
  rw [h.state, h.config]
  exact hs

/-- `connect` keeps the configuration usable. -/
theorem keeps_configured_connect (fuel : ℕ) (config : ClientConfig) :
    Keeps Configured (connect E fuel config : ClientM P W Unit) := by
  have hbody : Maintains Handshaking Configured
      (connectHandshake E fuel config : ClientM P W Unit) :=
    steady_connectHandshake E (fun _ _ => handshaking_steady)
      (fun _ _ h _ => configured_wiped h) fuel config
  intro s hs
  unfold connect
  rw [wp_bind, wp_getClient, thenWp_ok]
  split
  · rw [wp_throw]
    exact hs
  · next hargs =>
    have husable : config.usable = true := by
      by_contra h
      exact hargs (Or.inr (by simpa using h))
    simp only [wp_bind, wp_modifyClient, thenWp_ok, wp_emit]
    refine wp_mono (hbody _ ⟨rfl, husable⟩) ?_
    intro r s' hr
    cases r with
    | error e => exact hr
    | ok u =>
      rw [thenWp_ok, wp_modifyClient]
      exact fun _ => hr.2

/-- `recv` keeps the configuration usable. -/
theorem keeps_configured_recv (fuel : ℕ) (receivedNull outNull : Bool) (size : ℕ) :
    Keeps Configured (recv E fuel receivedNull outNull size : ClientM P W Bytes) := by
  have hQ : ∀ s s' : System P W, Quiet s s' → Configured s → Configured s' :=
    fun _ _ h => configured_steady h.steady
  have hW : ∀ s s' : System P W, Wiped s s' → Configured s → Configured s' :=
    fun _ _ h _ => configured_wiped h
  have hdata : ∀ (s : System P W) record content, Configured s →
      unprotectRecordAes128Gcm P s.client.serverAppKeys record 16640 =
        .ok ⟨contentApplicationData, content, s.client.serverAppKeys.advance⟩ →
      wp (recvData E content size) (ends Configured Configured)
        (afterOpen s .serverApp record) := by
    intro s record content hs _
    have hs : Configured (afterOpen s .serverApp record) :=
      configured_steady (firm_afterOpen s _ _).steady hs
    exact wp_recvData_of E (fun _ => hs) fun _ _ _ _ => hs
  have halert : ∀ content, Keeps Configured (recvAlert E content : ClientM P W Bytes) := by
    intro content
    unfold recvAlert
    refine maintains_bind (maintains_handleAlert (Quiet.still_closed hQ) _) fun ae => ?_
    split
    · intro s _ r s' hrun
      rw [recvClosed_apply] at hrun
      cases hrun
      exact configured_of_state (by simp [afterEnd]) (by simp [afterEnd])
    · exact maintains_failWith E hW _
  unfold recv
  refine maintains_bind maintains_getClient fun c => ?_
  split
  · exact maintains_throw (fun _ h => h) _
  · split
    · exact maintains_throw (fun _ h => h) _
    · split
      · intro s hs
        apply wp_recvPending_of
        intro bytes _
        exact hs
      · exact steady_recvRecords E (fun _ _ => configured_steady) hW size hdata halert fuel

/-- Every call keeps the configuration usable. -/
theorem keeps_configured (fuel : ℕ) (call : Call) :
    Keeps Configured (call.run E fuel : ClientM P W Bytes) := by
  refine keeps_call E (fun _ _ h => configured_steady h.steady) ?_
    (fun _ _ h _ => configured_wiped h) fuel call
    (fun config _ => keeps_configured_connect E fuel config)
    (fun null data _ => firm_send E (fun _ _ h => configured_steady h.steady) (fun _ h => h)
      (fun _ _ h _ => configured_wiped h) null data fun _ _ _ hs => hs)
    (fun a b size _ => keeps_configured_recv E fuel a b size)
  intro s s' hended _
  rcases hended.state with hidle | hclosed
  · exact configured_of_state (by simp [hidle]) (by simp [hidle])
  · exact configured_of_state (by simp [hclosed]) (by simp [hclosed])

/-- A reachable client has a usable configuration while it is connected. -/
theorem usable_of_reachable {c : TlsClient P} (hreach : ReachableClient c)
    (hconn : c.state = .connected) : c.config.usable = true := by
  obtain ⟨W, E, w, log, s, hrun, rfl⟩ := hreach
  have hinv : Configured s := by
    refine hrun.invariant ?_ (configured_of_state (by simp [System.fresh,
      TlsClient.initial]) (by simp [System.fresh, TlsClient.initial]))
    intro call s r s' hs hret
    exact hret.keeps (fun fuel => keeps_configured E fuel call) hs
  exact hinv (Or.inr hconn)

/-- In particular it has a stream. -/
theorem stream_of_reachable {c : TlsClient P} (hreach : ReachableClient c)
    (hconn : c.state = .connected) : ∃ stream, c.config.stream = some stream := by
  have h := usable_of_reachable hreach hconn
  unfold ClientConfig.usable at h
  simp only [Bool.and_eq_true] at h
  exact Option.isSome_iff_exists.mp h.1.1.2

/-! ## What a client has in store -/

/-- The deframer has its whole storage, and the bytes that `recv` has not handed out are there. -/
structure Stored (c : TlsClient P) : Prop where
  capacity : c.deframer.capacity = 32768
  pending : c.pendingAppLength = 0 ∨ c.pendingAppOffset + c.pendingAppLength ≤ c.pendingApp.length

/-- Only these members matter. -/
theorem stored_same {c c' : TlsClient P} (hcapacity : c'.deframer.capacity = c.deframer.capacity)
    (happ : c'.pendingApp = c.pendingApp) (hoffset : c'.pendingAppOffset = c.pendingAppOffset)
    (hlength : c'.pendingAppLength = c.pendingAppLength) (hc : Stored c) : Stored c' := by
  refine ⟨hcapacity.trans hc.capacity, ?_⟩
  rw [happ, hoffset, hlength]
  exact hc.pending

/-- A firm change leaves the lengths of what is stored. -/
theorem stored_firm {s s' : System P W} (h : Firm s s') (hs : Stored s.client) :
    Stored s'.client :=
  stored_same (by rw [h.deframer]) h.pendingApp h.pendingAppOffset h.pendingAppLength hs

/-- Wiping the secrets leaves the lengths of what is stored. -/
theorem stored_wiped {s s' : System P W} (h : Wiped s s') (hs : Stored s.client) :
    Stored s'.client := by
  rw [h.client]
  exact ⟨hs.capacity, hs.pending⟩

/-- Another content of the deframer has room in it. -/
theorem stored_deframer (s : System P W) (d : HandshakeDeframer)
    (h : d.capacity = s.client.deframer.capacity) (hs : Stored s.client) :
    Stored { s.client with deframer := d } :=
  stored_same (c := s.client) h rfl rfl rfl hs

/-- The steps of a handshake keep the lengths of what is stored. -/
theorem stored_between : BetweenClosed (fun s : System P W => Stored s.client) where
  firm _ _ := stored_firm
  deframer := stored_deframer
  event _ _ _ hs := hs

/-- The hello loop keeps the lengths of what is stored. -/
theorem stored_hello : HelloClosed (fun s : System P W => Stored s.client) where
  still _ _ h := stored_firm h.firm
  shorten s d h := stored_deframer s d h.capacity
  clientHello _ _ _ hs := hs
  retry _ _ _ hs := hs
  serverHello _ _ _ hs := hs

/-- The encrypted flight keeps the lengths of what is stored. -/
theorem stored_flight : FlightClosed (fun s : System P W => Stored s.client) where
  still _ _ h := stored_firm h.firm
  alpn _ _ hs := ⟨hs.capacity, hs.pending⟩
  finishedVerified _ _ hs := hs

/-- `connect` keeps the lengths of what is stored. -/
theorem keeps_stored_connect (fuel : ℕ) (config : ClientConfig) :
    Keeps (fun s => Stored s.client) (connect E fuel config : ClientM P W Unit) := by
  have hbody : Keeps (fun s => Stored s.client)
      (connectHandshake E fuel config : ClientM P W Unit) :=
    between_connectHandshake E stored_between (fun _ _ => stored_wiped) (fun _ h => h)
      (fun _ _ => stored_wiped) stored_hello (fun _ _ _ hs => hs)
      (fun msg l => leads_handleHandshakeMessage E (fun _ h => h) stored_flight msg l
        fun _ hs => hs) fuel config
  unfold connect
  apply maintains_bind maintains_getClient
  intro c
  split
  · exact maintains_throw (fun _ h => h) _
  · intro s hs
    rw [wp_bind, wp_modifyClient, thenWp_ok, wp_bind, wp_emit, thenWp_ok]
    refine wp_bind_of_spec (hbody _ ?_) ?_ fun e s' hs' => hs'
    · exact ⟨hs.capacity, Or.inl rfl⟩
    · intro _ s' hs'
      rw [ends_ok] at hs'
      rw [wp_modifyClient]
      exact ⟨hs'.capacity, hs'.pending⟩

/-- `recv` keeps the lengths of what is stored. -/
theorem keeps_stored_recv (fuel : ℕ) (receivedNull outNull : Bool) (size : ℕ) :
    Keeps (fun s => Stored s.client)
      (recv E fuel receivedNull outNull size : ClientM P W Bytes) := by
  have hW : ∀ s s' : System P W, Wiped s s' → Stored s.client → Stored s'.client :=
    fun _ _ => stored_wiped
  have hdata : ∀ (s : System P W) record content, Stored s.client →
      unprotectRecordAes128Gcm P s.client.serverAppKeys record 16640 =
        .ok ⟨contentApplicationData, content, s.client.serverAppKeys.advance⟩ →
      wp (recvData E content size) (ends (fun s => Stored s.client) fun s => Stored s.client)
        (afterOpen s .serverApp record) := by
    intro s record content hs _
    have hopened := stored_firm (firm_afterOpen s .serverApp record) hs
    refine wp_recvData_of E (fun _ => hopened) ?_
    intro _ level description w
    refine ⟨hopened.capacity, Or.inr ?_⟩
    dsimp only
    rw [List.length_drop]
    omega
  have halert : ∀ content, Keeps (fun s => Stored s.client)
      (recvAlert E content : ClientM P W Bytes) := by
    intro content
    unfold recvAlert
    apply maintains_bind (maintains_handleAlert (fun _ _ h => stored_firm h.firm) _)
    intro ae
    split
    · intro s hs r s' hrun
      rw [recvClosed_apply] at hrun
      cases hrun
      exact ⟨hs.capacity, hs.pending⟩
    · exact maintains_failWith E hW _
  unfold recv
  apply maintains_bind maintains_getClient
  intro c
  split
  · exact maintains_throw (fun _ h => h) _
  · split
    · exact maintains_throw (fun _ h => h) _
    · split
      · intro s hs
        apply wp_recvPending_of
        intro bytes _
        refine ⟨hs.capacity, ?_⟩
        have hpending := hs.pending
        dsimp only
        split <;> omega
      · exact leads_recvRecords E (fun _ _ => stored_firm) hW size (fun _ _ hs => hs) hdata halert
          (fun content => maintains_orFail E hW
            (between_processPostHandshake E stored_between (fun _ h => h) content)) fuel

/-- A reachable client stores no more than there is room for. -/
theorem stored_of_reachable {c : TlsClient P} (hreach : ReachableClient c) : Stored c := by
  obtain ⟨W, E, w, log, s, hrun, rfl⟩ := hreach
  have hfresh : Stored (System.fresh P w).client := ⟨rfl, Or.inl rfl⟩
  apply hrun.invariant (I := fun s => Stored s.client) _ hfresh
  intro call s r s' hs hret
  refine hret.keeps (I := fun s => Stored s.client) (fun fuel => ?_) hs
  refine keeps_call E (fun _ _ => stored_firm) ?_ (fun _ _ => stored_wiped) fuel call
    (fun config _ => keeps_stored_connect E fuel config)
    (fun null data _ => firm_send E (fun _ _ => stored_firm) (fun _ h => h)
      (fun _ _ => stored_wiped) null data fun _ _ _ hs => hs)
    (fun a b size _ => keeps_stored_recv E fuel a b size)
  intro s s' hended hs
  refine ⟨hended.capacity.trans hs.capacity, ?_⟩
  rcases hended.pending with ⟨hoffset, hlength⟩ | ⟨-, hlength⟩
  · rw [hended.pendingApp, hoffset, hlength]
    exact hs.pending
  · exact Or.inl hlength

end XboxTls.Analysis
