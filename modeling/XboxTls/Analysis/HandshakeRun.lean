import XboxTls.Analysis.HelloRun

/-!
# What a successful `connect` has done

When `connect` returns `XT_OK`, its events are the log of a handshake, its schedule was
derived from the transcripts of that log, and the messages of the log are the bytes that
the records brought (`connect_log`).
-/

set_option autoImplicit false

namespace XboxTls.Analysis

open Programs Programs.Prog XboxTls.Model XboxTls.Interface

variable {P : Crypto} {W : Type} (E : Env W)

/-! ## The first ClientHello -/

/-- Before the first ClientHello nothing is hashed and nothing is buffered. -/
structure Pristine (s : System P W) : Prop where
  transcript : s.client.transcript = P.shaReset
  deframer : s.client.deframer.buffer = []

/-- A client that has sent its first ClientHello is in the hello loop. -/
theorem wpOk_startHello (config : ClientConfig) {s₀ : System P W} (hs : Pristine s₀) :
    wpOk (startHello E config) (InHello s₀ config) s₀ := by
  unfold startHello
  rw [wpOk_bind]
  apply wpOk_deref
  intro platform
  rw [wpOk_bind]
  apply wpOk_orFail
  apply wpOk_callWorld
  intro random w
  rw [wpOk_bind]
  apply wpOk_orFail
  apply wpOk_callWorld
  intro sid w'
  rw [wpOk_bind]
  apply wpOk_generateKeyShare
  intro n k pub w'' hshare
  rw [wpOk_bind, wpOk_getClient]
  refine wpOk_bind_of_spec (wpOk_sendClientHello E _ _) ?_
  rintro _ s' ⟨hsame, hprivate, hdeframer, encoded, evs, hbuild, htrace, hevs, hreceived,
    htranscript⟩
  rw [wpOk_bind, wpOk_modifyClient, wpOk_pure]
  refine ⟨⟨hsame.state, hsame.config, hsame.schedule⟩, ⟨evs, htrace, ?_, ?_, ?_, ?_⟩, ?_, rfl⟩
  · rw [hevs]
    exact .first rfl hbuild
  · dsimp only
    rw [htranscript, hevs]
    simp only [withKey, hs.transcript]
    rfl
  · rw [hreceived, hevs]
    rfl
  · exact hreceived .handshake
  · dsimp only
    rw [hprivate]
    exact hshare

/-! ## The handshake keys -/

/-- The client has the handshake keys, and its log is that of the parts so far. -/
structure KeysDone (s₀ : System P W) (config : ClientConfig) (h : HandshakeParts)
    (s : System P W) : Prop where
  state : s.client.state = s₀.client.state
  configured : s.client.config = s₀.client.config
  schedule : HandshakeSchedule P s₀.client.schedule h.shared (h.helloBytes P) h.schedule
  held : s.client.schedule = h.schedule
  transcript : s.client.transcript = P.shaUpdate P.shaReset (h.helloBytes P)
  deframer : s.client.deframer.buffer = []
  log : ∃ evs, s.trace = s₀.trace ++ evs ∧
    handshakeEvents evs =
      h.hellos ++ [.serverHello h.serverHello h.info, .sharedSecret h.privateKey h.shared] ∧
    received .plaintext evs = serverHellos h.hellos ++ h.serverHello ∧
    received .handshake evs = []
  hellos : HelloLog config h.retried h.params h.hellos
  parsed : parseServerHello h.serverHello = .ok h.info
  accepted : h.info.helloRetryRequest = false
  group : h.info.group = h.params.group
  keyShare : KeyShareOf P h.params.group h.privateKey h.params.keyShare
  shared : computeShared (P := P) h.privateKey h.info = .ok h.shared

/-- Keys that were derived are in the trace. -/
theorem wpOk_deriveKeys (slot : KeySlot) (secret : FixedBytes 32) {Q : Unit → System P W → Prop}
    {s : System P W} (h : ∀ keys, Q () (afterDerive s slot keys)) :
    wpOk (deriveKeys slot secret) Q s := by
  obtain ⟨keys, hkeys, -⟩ := deriveTrafficKeysSha256_isOk P secret
  intro a s' hrun
  rw [deriveKeys_run slot hkeys] at hrun
  cases hrun
  exact h keys

/-- The handshake keys come from the private key of the last ClientHello and the transcript. -/
theorem wpOk_deriveHandshakeKeys {s₀ s : System P W} {config : ClientConfig}
    {sh : ServerHelloInfo} {l : HelloLocals} (hs : HelloDone s₀ config sh l s) :
    wpOk (deriveHandshakeKeys E sh l.activeGroup) (fun _ s' => ∃ h, KeysDone s₀ config h s') s := by
  obtain ⟨hsame, ⟨evs, hellos, encoded, htrace, hevs, hlog, hparse, htranscript, hplain, hnone⟩,
    haccepted, hkey, hgroup⟩ := hs
  unfold deriveHandshakeKeys
  rw [wpOk_bind, wpOk_getClient, wpOk_bind, wpOk_modifyClient]
  split
  · exact wpOk_failWith E _ _ _
  · next hsame_group =>
    rw [wpOk_bind, wpOk_getClient, wpOk_bind]
    apply wpOk_orFail
    rw [wpOk_lift]
    intro shared hshared
    rw [wpOk_bind, wpOk_emit, wpOk_bind, wpOk_modifyClient, wpOk_bind, wpOk_getClient, wpOk_bind]
    apply wpOk_orFail
    rw [wpOk_lift]
    intro schedule hschedule
    rw [wpOk_bind, wpOk_modifyClient, wpOk_bind]
    apply wpOk_orFail
    apply wpOk_deriveKeys
    intro clientHs
    rw [wpOk_bind]
    apply wpOk_orFail
    apply wpOk_deriveKeys
    intro serverHs
    rw [wpOk_emit]
    refine ⟨⟨0, l.hadHrr, l.params, hellos, encoded, sh, s.client.privateKey, shared, schedule,
      [], ⟨false, ⟨[], []⟩, false⟩, [], []⟩, ?_⟩
    refine ⟨hsame.state, hsame.config, ?_, rfl, htranscript, rfl, ⟨evs ++
      [.sharedSecret s.client.privateKey shared, .keysDerived .clientHs clientHs,
        .keysDerived .serverHs serverHs, .readKeysChanged .handshake s.client.deframer.buffer],
      ?_, ?_, ?_, ?_⟩, hlog, hparse, haccepted, ?_, hkey, hshared⟩
    · unfold HandshakeSchedule
      dsimp only at hschedule ⊢
      rw [← hsame.schedule]
      have hhash : transcriptSnapshot P s.client.transcript =
          P.sha256 (transcriptBytes P hellos ++ encoded) := by
        rw [htranscript]
        rfl
      rw [hhash] at hschedule
      exact hschedule
    · simp only [afterDerive, TlsClient.setKeys]
      rw [htrace]
      simp only [List.append_assoc]
      rfl
    · rw [handshakeEvents_append, hevs, List.append_assoc]
      rfl
    · rw [received_append, hplain]
      exact List.append_nil _
    · rw [received_append, hnone]
      rfl
    · dsimp only
      rw [← hgroup]
      exact not_not.mp hsame_group

/-! ## The end of the handshake -/

/-- A protected record that was sent is no part of the log. -/
theorem wpOk_sendProtected (innerType : UInt8) (payload : Bytes) {Q : Unit → System P W → Prop}
    {s : System P W}
    (h : ∀ slot w evs, handshakeEvents evs = [] → (∀ stage, received stage evs = []) →
      Q () ⟨s.client.setKeys slot (s.client.keys slot).advance, w, s.trace ++ evs⟩) :
    wpOk (sendProtected E innerType payload) Q s := by
  unfold sendProtected
  rw [wpOk_bind, wpOk_getClient, wpOk_bind]
  generalize (if s.client.state = .connected then KeySlot.clientApp else KeySlot.clientHs) = slot
  have hseal : wp (protectRecord E slot innerType payload 0) (fun r s' => ∀ record,
      r = .ok record → wpOk (do
        let stream ← deref s.client.config.stream
        writeStream E stream record) Q s') s := by
    apply wp_protectRecord
    · intro e w record hrecord
      cases hrecord
    · intro w _ record hrecord
      cases hrecord
      rw [wpOk_bind]
      apply wpOk_deref
      intro stream
      apply wpOk_writeStream
      intro w'
      simp only [afterSeal, List.append_assoc]
      exact h slot w' _ rfl fun _ => rfl
  exact wpOk_mono (wpOk_of_wp hseal) fun record s' hrecord => hrecord record rfl

/-- The secrets of the handshake stay when those of the application come. -/
theorem deriveMasterSecret_keeps {schedule schedule' : KeySchedule} {th : FixedBytes 32}
    (h : schedule.deriveMasterSecret P th = .ok schedule') :
    schedule'.clientHandshakeTrafficSecret = schedule.clientHandshakeTrafficSecret ∧
      schedule'.serverHandshakeTrafficSecret = schedule.serverHandshakeTrafficSecret := by
  unfold KeySchedule.deriveMasterSecret at h
  obtain ⟨derived, -, h⟩ := (except_bind_eq_ok _ _ _).mp h
  obtain ⟨client, -, h⟩ := (except_bind_eq_ok _ _ _).mp h
  obtain ⟨server, -, h⟩ := (except_bind_eq_ok _ _ _).mp h
  cases h
  exact ⟨rfl, rfl⟩

/-- The last step: the application secrets, and the client's Finished. -/
structure FinishDone (flight : Bytes) (s s' : System P W) : Prop where
  state : s'.client.state = s.client.state
  configured : s'.client.config = s.client.config
  schedule : s.client.schedule.deriveMasterSecret P (P.sha256 flight) = .ok s'.client.schedule
  sent : ∃ fin evs, s'.trace = s.trace ++ evs ∧
    buildFinishedSha256 P s'.client.schedule.clientHandshakeTrafficSecret (P.sha256 flight) 64 =
      .ok fin ∧
    handshakeEvents evs = [.clientFinished (P.sha256 flight) fin] ∧
    ∀ stage, received stage evs = []

/-- The client's Finished is built over the transcript of the flight. -/
theorem wpOk_finishHandshake {flight : Bytes} {s : System P W}
    (htranscript : s.client.transcript = P.shaUpdate P.shaReset flight) :
    wpOk (finishHandshake E) (fun _ => FinishDone flight s) s := by
  have hhash : transcriptSnapshot P s.client.transcript = P.sha256 flight := by
    rw [htranscript]
    rfl
  unfold finishHandshake
  rw [wpOk_bind, wpOk_getClient, wpOk_bind, wpOk_lift]
  intro schedule hschedule
  rw [hhash] at hschedule
  rw [wpOk_bind, wpOk_modifyClient, wpOk_bind]
  apply wpOk_deriveKeys
  intro clientApp
  rw [wpOk_bind]
  apply wpOk_deriveKeys
  intro serverApp
  rw [wpOk_bind, wpOk_getClient, wpOk_bind, wpOk_emit, wpOk_bind, wpOk_lift]
  intro fin hfin
  have hhash' : transcriptSnapshot P
      (afterDerive (afterDerive (⟨{ s.client with schedule := schedule }, s.world, s.trace⟩ :
        System P W) .clientApp clientApp) .serverApp serverApp).client.transcript =
      P.sha256 flight := hhash
  rw [hhash'] at hfin ⊢
  rw [wpOk_bind]
  apply wpOk_sendProtected
  intro slot w evs hevs hreceived
  simp only [hashMessage, wpOk_bind, wpOk_modifyClient, wpOk_emit]
  have hkeys : ∀ (c : TlsClient P) (k : TrafficKeys), (c.setKeys slot k).state = c.state ∧
      (c.setKeys slot k).config = c.config ∧ (c.setKeys slot k).schedule = c.schedule := by
    intro c k
    cases slot <;> exact ⟨rfl, rfl, rfl⟩
  refine ⟨(hkeys _ _).1, (hkeys _ _).2.1, ?_, fin, [.keysDerived .clientApp clientApp,
    .keysDerived .serverApp serverApp, .readKeysChanged .application s.client.deframer.buffer] ++
      evs ++ [.clientFinished (P.sha256 flight) fin], ?_, ?_, ?_, ?_⟩
  · dsimp only
    rw [(hkeys _ _).2.2]
    exact hschedule
  · simp only [afterDerive, List.append_assoc]
    rfl
  · dsimp only
    rw [(hkeys _ _).2.2]
    exact hfin
  · rw [handshakeEvents_append, handshakeEvents_append, hevs]
    rfl
  · intro stage
    rw [received_append, received_append, hreceived]
    rfl

/-! ## `connect` -/

/-- What a successful `connect` leaves behind. -/
structure Connection (verdicts : Verdicts) (config : ClientConfig) (hostname : CString)
    (h : HandshakeParts) (s s' : System P W) : Prop where
  state : s'.client.state = .connected
  configured : s'.client.config = config
  early : HandshakeSchedule P s.client.schedule h.shared (h.helloBytes P) h.schedule
  master : h.schedule.deriveMasterSecret P (P.sha256 (h.flightBytes P)) =
    .ok s'.client.schedule
  log : ∃ evs, s'.trace = s.trace ++ evs ∧
    IsHandshake P verdicts config hostname h (handshakeEvents evs) ∧
    received .plaintext evs = serverHellos h.hellos ++ h.serverHello ∧
    ∃ rest, received .handshake evs = encodings h.messages ++ rest

/-- The arguments that `connect` accepts. -/
theorem connect_started {fuel : ℕ} {config : ClientConfig} {s s' : System P W}
    {r : Except Error Unit} (hidle : s.client.state = .idle) (husable : config.usable = true)
    (hrun : connect E fuel config s = some (r, s')) :
    (do connectHandshake E fuel config
        modifyClient fun c => { c with state := .connected } : ClientM P W Unit)
      ⟨beginConnect config s.client, s.world, s.trace ++ [.connect config]⟩ = some (r, s') := by
  unfold connect at hrun
  rw [bind_of_ok rfl, if_neg (by simp [hidle, husable])] at hrun
  exact hrun

/-- An idle client and usable arguments are the only way to `XT_OK`. -/
theorem connect_ok_started {fuel : ℕ} {config : ClientConfig} {s s' : System P W}
    (hrun : connect E fuel config s = some (.ok (), s')) :
    s.client.state = .idle ∧ config.usable = true := by
  by_contra hargs
  unfold connect at hrun
  rw [bind_of_ok rfl, if_pos] at hrun
  · simp at hrun
  · by_cases hidle : s.client.state = .idle
    · right
      by_contra husable
      exact hargs ⟨hidle, by simpa using husable⟩
    · exact Or.inl hidle

/-- A usable configuration has a host name. -/
theorem hostname_of_usable {config : ClientConfig} (h : config.usable = true) :
    ∃ hostname, config.hostname = some hostname := by
  unfold ClientConfig.usable at h
  cases hhost : config.hostname with
  | none => simp [hhost] at h
  | some hostname => exact ⟨hostname, rfl⟩

/-- A usable configuration has a verifier. -/
theorem verifier_of_usable {config : ClientConfig} (h : config.usable = true) :
    ∃ verifier, config.verifier = some verifier := by
  unfold ClientConfig.usable at h
  cases hverifier : config.verifier with
  | none => simp [hverifier] at h
  | some verifier => exact ⟨verifier, rfl⟩

/-- **What `XT_OK` means.**  Whenever `connect` returns `XT_OK`, its events are the log of a
handshake, in which the verifier's answers mean what is known of all its answers. -/
theorem connect_log {verdicts : Verdicts} (hE : Abides E verdicts) {fuel : ℕ}
    {config : ClientConfig} {s s' : System P W}
    (hrun : connect E fuel config s = some (.ok (), s')) :
    ∃ hostname h, Connection verdicts config hostname h s s' := by
  obtain ⟨hidle, husable⟩ := connect_ok_started E hrun
  obtain ⟨hostname, hhost⟩ := hostname_of_usable husable
  obtain ⟨verifier, hverifier⟩ := verifier_of_usable husable
  have hbody := connect_started E hidle husable hrun
  refine ⟨hostname, ?_⟩
  generalize hs₀ : (⟨beginConnect config s.client, s.world, s.trace ++ [.connect config]⟩ :
    System P W) = s₀ at hbody
  have hconfig₀ : s₀.client.config = config := by rw [← hs₀]; rfl
  have hpristine : Pristine s₀ := by rw [← hs₀]; exact ⟨rfl, rfl⟩
  suffices hwp : wpOk (do
      connectHandshake E fuel config
      modifyClient fun c => { c with state := .connected } : ClientM P W Unit)
      (fun _ s' => ∃ h, Connection verdicts config hostname h s s') s₀ from hwp () s' hbody
  rw [wpOk_bind]
  unfold connectHandshake
  refine wpOk_bind_of_spec (wpOk_startHello E config hpristine) ?_
  intro l s₁ hs₁
  refine wpOk_bind_of_spec (wpOk_helloLoop E fuel hs₁) ?_
  rintro ⟨sh, l'⟩ s₂ hs₂
  refine wpOk_bind_of_spec (wpOk_deriveHandshakeKeys E hs₂) ?_
  rintro _ s₃ ⟨h, hs₃⟩
  apply wpOk_orFail
  unfold processServerHandshake
  have hterms : Judges E ⟨verifier, hostname, h.schedule.serverHandshakeTrafficSecret, verdicts⟩
      s₃ := by
    refine ⟨?_, ?_, ?_, hE⟩
    · rw [hs₃.configured, hconfig₀, hverifier]
    · rw [hs₃.configured, hconfig₀, hhost]
    · rw [hs₃.held]
  have hflight : InFlight s₃ (h.helloBytes P)
      ⟨verifier, hostname, h.schedule.serverHandshakeTrafficSecret, verdicts⟩
      ⟨false, ⟨[], []⟩, false⟩ s₃ := by
    refine ⟨⟨rfl, rfl, rfl⟩, [], [], by simp, .nil, ?_, ?_, rfl⟩
    · rw [hs₃.transcript]
      simp [encodings]
    · rw [hs₃.deframer]
      rfl
  refine wpOk_bind_of_spec (wpOk_flightLoop E fuel hterms hflight) ?_
  rintro _ s₄ ⟨locals, hdone, hsame₄, evs₄, msgs, htrace₄, hlog₄, htranscript₄, hreceived₄,
    hplain₄⟩
  refine wpOk_mono (wpOk_finishHandshake E htranscript₄) ?_
  rintro _ s₅ ⟨hstate₅, hconfig₅, hschedule₅, fin, evs₅, htrace₅, hfin₅, hevs₅, hreceived₅⟩
  rw [wpOk_modifyClient]
  obtain ⟨evs₃, htrace₃, hevs₃, hplain₃, hhandshake₃⟩ := hs₃.log
  let parts : HandshakeParts :=
    { h with
      verifier := verifier
      messages := msgs
      locals := locals
      flight := handshakeEvents evs₄
      finished := fin }
  have hmaster : h.schedule.deriveMasterSecret P (P.sha256 (h.helloBytes P ++ encodings msgs)) =
      .ok s₅.client.schedule := by
    rw [← hs₃.held, ← hsame₄.schedule]
    exact hschedule₅
  rw [(deriveMasterSecret_keeps hmaster).1] at hfin₅
  refine ⟨parts, rfl, ?_, ?_, hmaster, ⟨[.connect config] ++ evs₃ ++ evs₄ ++ evs₅, ?_, ?_, ?_,
    s₄.client.deframer.buffer, ?_⟩⟩
  · exact (hconfig₅.trans hsame₄.config).trans (hs₃.configured.trans hconfig₀)
  · have hschedule₃ := hs₃.schedule
    rw [← hs₀] at hschedule₃
    exact hschedule₃
  · dsimp only
    rw [htrace₅, htrace₄, htrace₃, ← hs₀]
    simp only [List.append_assoc]
  · refine ⟨?_, hhost, hverifier, hs₃.hellos, hs₃.parsed, hs₃.accepted, hs₃.group, hs₃.keyShare,
      hs₃.shared, ⟨_, hs₃.schedule⟩, hlog₄, hdone, hfin₅⟩
    rw [handshakeEvents_append, handshakeEvents_append, handshakeEvents_append, hevs₃, hevs₅]
    rfl
  · rw [received_append, received_append, received_append, hplain₃, hreceived₅]
    rw [hplain₄]
    simp [received, parts]
  · rw [received_append, received_append, received_append, hhandshake₃, hreceived₅, hreceived₄]
    simp [received, parts]

end XboxTls.Analysis
