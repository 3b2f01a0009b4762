import XboxTls.Analysis.FlightRun

/-!
# The hello loop writes a hello log

Whenever the hello loop ends, the events since its start are a `HelloLog` and a
ServerHello: the transcript is the one that the log prescribes, with the `message_hash`
message exactly after a retry, and the private key of the client is the one whose public
value went out last (`wpOk_helloLoop`).
-/

set_option autoImplicit false

namespace XboxTls.Analysis

open Programs Programs.Prog XboxTls.Model XboxTls.Interface

variable {P : Crypto} {W : Type} (E : Env W)

/-! ## Key shares and ClientHellos -/

/-- The client with another key. -/
def withKey (s : System P W) (privateKey : FixedBytes 32) (publicKey : FixedBytes 65) (w : W) :
    System P W :=
  { s with
    client := { s.client with privateKey := privateKey, publicKey := publicKey }, world := w }

/-- A P-256 key that was drawn is one that the key agreement accepts. -/
theorem wpOk_generateP256 (report : Error → Error) (attempts : ℕ) (last : Error)
    {Q : Unit → System P W → Prop} {s : System P W}
    (h : ∀ k pub w, P.p256PublicFromPrivate k = .ok pub → Q () (withKey s k pub w)) :
    wpOk (generateP256 E report attempts last) Q s := by
  induction attempts generalizing last s with
  | zero => exact wpOk_failWith E last Q s
  | succ attempts ih =>
    unfold generateP256
    rw [wpOk_bind, wpOk_getClient, wpOk_bind]
    apply wpOk_deref
    intro platform
    rw [wpOk_bind, wpOk_attempt, wp_callWorld]
    intro r w _
    cases r with
    | error e => exact wpOk_failWith E _ Q _
    | ok k =>
      dsimp only
      rw [wpOk_bind, wpOk_modifyClient]
      cases hpub : P.p256PublicFromPrivate k with
      | error e =>
        apply ih
        intro k' pub' w' hpub'
        exact h k' pub' w' hpub'
      | ok pub =>
        rw [wpOk_modifyClient]
        exact h k pub w hpub

/-- A key for a group, with the bytes of its share. -/
theorem wpOk_generateKeyShare (report : Error → Error) (group : NamedGroup)
    {Q : ℕ → System P W → Prop} {s : System P W}
    (h : ∀ n k pub w, KeyShareOf P group k (pub.val.take n) → Q n (withKey s k pub w)) :
    wpOk (generateKeyShare E report group) Q s := by
  unfold generateKeyShare
  split
  · next hgroup =>
    rw [wpOk_bind]
    apply wpOk_generateP256
    intro k pub w hpub
    rw [wpOk_pure]
    apply h
    refine Or.inr ⟨hgroup, pub, hpub, ?_⟩
    exact List.take_of_length_le (by rw [pub.property])
  · split
    · next hgroup =>
      rw [wpOk_bind]
      unfold generateX25519
      rw [wpOk_bind, wpOk_getClient, wpOk_bind]
      apply wpOk_deref
      intro platform
      rw [wpOk_bind, wpOk_attempt, wp_callWorld]
      intro r w _
      cases r with
      | error e => exact wpOk_failWith E _ _ _
      | ok bytes =>
        dsimp only
        rw [wpOk_modifyClient, wpOk_pure]
        apply h 32 (clampPrivateKey bytes)
        exact Or.inl ⟨hgroup, FixedBytes.take_overwrite _ _ _⟩
    · exact wpOk_failWith E _ Q s

/-- The system after a ClientHello went out. -/
structure HelloSent (p : ClientHelloParams) (s s' : System P W) : Prop where
  same : SameSession s s'
  privateKey : s'.client.privateKey = s.client.privateKey
  deframer : s'.client.deframer = s.client.deframer
  sent : ∃ encoded evs, buildClientHello p 2048 = .ok encoded ∧ s'.trace = s.trace ++ evs ∧
    handshakeEvents evs = [.clientHello p encoded] ∧ (∀ stage, received stage evs = []) ∧
    s'.client.transcript = P.shaUpdate s.client.transcript encoded

/-- Only writes happen while a record goes out. -/
theorem wpOk_sendPlainRecord (type : UInt8) (payload : Bytes) {Q : Unit → System P W → Prop}
    {s : System P W}
    (h : ∀ evs w, handshakeEvents evs = [] → (∀ stage, received stage evs = []) →
      Q () { s with world := w, trace := s.trace ++ evs }) :
    wpOk (sendPlainRecord E type payload) Q s := by
  unfold sendPlainRecord
  rw [wpOk_bind, wpOk_getClient]
  split
  · exact wpOk_throw _ _ _
  · split
    · exact wpOk_throw _ _ _
    · rw [wpOk_bind]
      apply wpOk_writeStream
      intro w
      split
      · apply wpOk_writeStream
        intro w'
        dsimp only
        rw [List.append_assoc]
        exact h _ w' rfl fun _ => rfl
      · rw [wpOk_pure]
        exact h _ w rfl fun _ => rfl

/-- A ClientHello that was sent is hashed and logged. -/
theorem wpOk_sendClientHello (p : ClientHelloParams) (s : System P W) :
    wpOk (sendClientHello E p) (fun _ => HelloSent p s) s := by
  unfold sendClientHello
  split
  · rw [wpOk_bind, wpOk_modifyClient]
    exact wpOk_failWith E _ _ _
  · next encoded hbuild =>
    simp only [hashMessage, wpOk_bind, wpOk_modifyClient]
    apply wpOk_orFail
    apply wpOk_sendPlainRecord
    intro evs w hevs hreceived
    rw [wpOk_emit]
    refine ⟨⟨rfl, rfl, rfl⟩, rfl, rfl, encoded, evs ++ [.clientHello p encoded], hbuild, ?_, ?_,
      ?_, transcriptUpdate_eq _ _ _⟩
    · exact List.append_assoc _ _ _
    · rw [handshakeEvents_append, hevs]
      rfl
    · intro stage
      rw [received_append, hreceived]
      rfl

/-! ## The loop -/

/-- The hello messages so far. -/
structure InHello (s₀ : System P W) (config : ClientConfig) (h : HelloLocals)
    (s : System P W) : Prop where
  same : SameSession s₀ s
  log : ∃ evs, s.trace = s₀.trace ++ evs ∧
    HelloLog config h.hadHrr h.params (handshakeEvents evs) ∧
    s.client.transcript =
      P.shaUpdate P.shaReset (transcriptBytes P (handshakeEvents evs)) ∧
    received .plaintext evs = serverHellos (handshakeEvents evs) ++ s.client.deframer.buffer ∧
    received .handshake evs = []
  keyShare : KeyShareOf P h.params.group s.client.privateKey h.params.keyShare
  group : h.activeGroup = h.params.group

/-- The hello messages are complete, and nothing is left in the deframer. -/
structure HelloDone (s₀ : System P W) (config : ClientConfig) (sh : ServerHelloInfo)
    (h : HelloLocals) (s : System P W) : Prop where
  same : SameSession s₀ s
  log : ∃ evs hellos encoded, s.trace = s₀.trace ++ evs ∧
    handshakeEvents evs = hellos ++ [.serverHello encoded sh] ∧
    HelloLog config h.hadHrr h.params hellos ∧
    parseServerHello encoded = .ok sh ∧
    s.client.transcript = P.shaUpdate P.shaReset (transcriptBytes P hellos ++ encoded) ∧
    received .plaintext evs = serverHellos hellos ++ encoded ∧ received .handshake evs = []
  accepted : sh.helloRetryRequest = false
  keyShare : KeyShareOf P h.params.group s.client.privateKey h.params.keyShare
  group : h.activeGroup = h.params.group

section Loop

variable {s₀ : System P W} {config : ClientConfig}

/-- A record of the hello loop adds its content to the deframer, or nothing. -/
theorem wpOk_readHelloRecord {h : HelloLocals} {s : System P W} (hs : InHello s₀ config h s) :
    wpOk (readHelloRecord E) (fun _ => InHello s₀ config h) s := by
  obtain ⟨hsame, ⟨evs, htrace, hlog, htranscript, hreceived, hnone⟩, hkey, hgroup⟩ := hs
  unfold readHelloRecord
  rw [wpOk_bind]
  apply wpOk_orFail
  apply wpOk_readRecord
  intro record w
  rw [wpOk_bind]
  apply wpOk_orFail
  rw [wpOk_lift]
  intro rh _
  split
  · rw [wpOk_bind, wpOk_emit]
    split
    · exact wpOk_failWith E _ _ _
    · rw [wpOk_pure]
      have hevs : handshakeEvents (evs ++ [.changeCipherSpec .plaintext record]) =
          handshakeEvents evs := by
        rw [handshakeEvents_append]
        exact List.append_nil _
      refine ⟨⟨hsame.state, hsame.config, hsame.schedule⟩, ⟨evs ++ [.changeCipherSpec .plaintext
        record], ?_, ?_, ?_, ?_, ?_⟩, hkey, hgroup⟩
      · dsimp only
        rw [htrace, List.append_assoc]
      · rw [hevs]
        exact hlog
      · rw [hevs]
        exact htranscript
      · rw [received_append, hevs, hreceived]
        exact List.append_nil _
      · rw [received_append, hnone]
        rfl
  · split
    · rw [wpOk_bind]
      exact fun e s' _ => wpOk_failWith E _ _ _
    · split
      · exact wpOk_failWith E _ _ _
      · apply wpOk_orFail
        apply wpOk_appendFragment
        intro d hbuffer
        refine ⟨⟨hsame.state, hsame.config, hsame.schedule⟩, ⟨evs ++ [.fragment .plaintext
          s.client.deframer.buffer (slice record 5 rh.length)], ?_, ?_, ?_, ?_, ?_⟩, hkey,
          hgroup⟩
        · dsimp only
          rw [htrace, List.append_assoc]
        · rw [handshakeEvents_append]
          simpa [handshakeEvents, handshakeEvent] using hlog
        · rw [handshakeEvents_append]
          simpa [handshakeEvents, handshakeEvent] using htranscript
        · dsimp only
          rw [received_append, handshakeEvents_append, serverHellos_append, hreceived, hbuffer]
          simp [received, handshakeEvents, handshakeEvent, serverHellos]
        · rw [received_append, hnone]
          rfl

/-- Consuming a hello message empties the deframer. -/
theorem wpOk_consumeHello {Q : Unit → System P W → Prop} {s : System P W}
    {msg : HandshakeMessage} (hpeek : s.client.deframer.peek = .ok msg)
    (h : ∀ d, d.buffer = [] → s.client.deframer.buffer = msg.encoded →
      Q () { s with client := { s.client with deframer := d } }) :
    wpOk (consumeHello E) Q s := by
  obtain ⟨n, hparse⟩ := peek_ok hpeek
  have hfront := parseHandshakeMessage_front hparse
  have hconsume : wp (consumeMessage : ClientM P W Unit) (fun r s₁ => ∀ u, r = .ok u → ∃ d,
      d.buffer = s.client.deframer.buffer.drop n ∧
        s₁ = { s with client := { s.client with deframer := d } }) s := by
    unfold consumeMessage
    rw [wp_bind, wp_getClient, thenWp_ok, wp_bind, wp_lift]
    unfold HandshakeDeframer.consume
    rw [hparse, except_ok_bind]
    show wp _ _ _
    rw [wp_modifyClient]
    intro _ _
    exact ⟨_, rfl, rfl⟩
  unfold consumeHello
  rw [wpOk_bind, wpOk_attempt]
  refine wp_mono hconsume ?_
  intro r s₁ hr
  cases r with
  | error e => exact wpOk_failWith E _ _ _
  | ok u =>
    obtain ⟨d, hbuffer, rfl⟩ := hr u rfl
    dsimp only
    rw [wpOk_bind, wpOk_getClient]
    split
    · exact wpOk_failWith E _ _ _
    · next hempty =>
      have hnil : d.buffer = [] := List.eq_nil_of_length_eq_zero (by simpa using hempty)
      rw [wpOk_pure]
      apply h d hnil
      have hrest : s.client.deframer.buffer.drop n = [] := by rw [← hbuffer, hnil]
      have hwhole := hfront.2.2
      rw [hrest, List.append_nil] at hwhole
      exact hwhole.symm

/-- A HelloRetryRequest restarts the transcript, and another ClientHello goes out. -/
theorem wpOk_retryHello {h : HelloLocals} {hm : HandshakeMessage} {sh : ServerHelloInfo}
    {s : System P W} (hs : InHello s₀ config h s) (hpeek : s.client.deframer.peek = .ok hm)
    (hparse : parseServerHello hm.encoded = .ok sh) (hretry : sh.helloRetryRequest = true) :
    wpOk (retryHello E h hm sh) (InHello s₀ config) s := by
  obtain ⟨hsame, ⟨evs, htrace, hlog, htranscript, hreceived, hnone⟩, hkey, hgroup⟩ := hs
  unfold retryHello
  split
  · exact wpOk_failWith E _ _ _
  · next hfirst =>
    have hhad : h.hadHrr = false := by
      by_contra hcontra
      exact hfirst (Or.inl (by simpa using hcontra))
    have hchange : sh.group ≠ h.params.group := by
      intro heq
      exact hfirst (Or.inr (by rw [heq, hgroup]))
    rw [hhad] at hlog
    simp only [hashMessage, wpOk_bind, wpOk_modifyClient]
    refine wpOk_consumeHello E (show HandshakeDeframer.peek _ = .ok hm from hpeek) ?_
    intro d hempty hbuffer
    rw [wpOk_bind, wpOk_emit, wpOk_bind]
    apply wpOk_generateKeyShare
    intro n k pub w hshare
    rw [wpOk_bind, wpOk_getClient]
    refine wpOk_bind_of_spec (wpOk_sendClientHello E _ _) ?_
    rintro _ s' ⟨hsame', hprivate, hdeframer, encoded, evs', hbuild, htrace', hevs', hreceived',
      htranscript'⟩
    rw [wpOk_pure]
    have hlog' : handshakeEvents (evs ++ [.retry hm.encoded sh] ++ evs') =
        handshakeEvents evs ++ [.retry hm.encoded sh, .clientHello
          { h.params with
            group := sh.group
            keyShare := pub.val.take n
            cookie := sh.cookie } encoded] := by
      rw [handshakeEvents_append, handshakeEvents_append, hevs', List.append_assoc]
      rfl
    refine ⟨⟨hsame'.state.trans hsame.state, hsame'.config.trans hsame.config,
      hsame'.schedule.trans hsame.schedule⟩, ⟨evs ++ [.retry hm.encoded sh] ++ evs', ?_, ?_, ?_, ?_,
      ?_⟩, ?_, rfl⟩
    · rw [htrace']
      simp only [withKey]
      rw [htrace]
      simp only [List.append_assoc]
    · rw [hlog']
      exact hlog.retry hparse hretry hchange rfl hbuild
    · rw [htranscript', hlog', List.append_cons (handshakeEvents evs), transcriptBytes_concat,
        transcriptBytes_concat]
      simp only [withKey, hashEvent, retryTranscript, transcriptUpdate_eq, P.shaUpdate_append]
      rw [htranscript]
      rfl
    · rw [hdeframer, hlog', received_append, received_append, hreceived', hreceived, hbuffer,
        serverHellos_append]
      simp [withKey, received, serverHellos, hempty]
    · rw [received_append, received_append, hreceived', hnone]
      rfl
    · dsimp only
      rw [hprivate]
      exact hshare

/-- **The hello loop.** -/
theorem wpOk_helloLoop (fuel : ℕ) {h : HelloLocals} {s : System P W}
    (hs : InHello s₀ config h s) :
    wpOk (helloLoop E fuel h) (fun r => HelloDone s₀ config r.1 r.2) s := by
  induction fuel generalizing h s with
  | zero => exact wpOk_diverge _ _
  | succ fuel ih =>
    unfold helloLoop
    rw [wpOk_bind, wpOk_getClient]
    split
    · refine wpOk_bind_of_spec (wpOk_readHelloRecord E hs) ?_
      intro _ s' hs'
      exact ih hs'
    · exact wpOk_failWith E _ _ _
    · next hm hpeek =>
      split
      · exact wpOk_failWith E _ _ _
      · rw [wpOk_bind]
        apply wpOk_orFail
        rw [wpOk_lift]
        intro sh hparse
        split
        · exact wpOk_failWith E _ _ _
        · split
          · next hretry =>
            refine wpOk_bind_of_spec (wpOk_retryHello E hs hpeek hparse hretry) ?_
            intro h' s' hs'
            exact ih hs'
          · next hretry =>
            obtain ⟨hsame, ⟨evs, htrace, hlog, htranscript, hreceived, hnone⟩, hkey, hgroup⟩ := hs
            simp only [hashMessage, wpOk_bind, wpOk_modifyClient]
            refine wpOk_consumeHello E (show HandshakeDeframer.peek _ = .ok hm from hpeek) ?_
            intro d hempty hbuffer
            rw [wpOk_bind, wpOk_emit, wpOk_pure]
            refine ⟨⟨hsame.state, hsame.config, hsame.schedule⟩,
              ⟨evs ++ [.serverHello hm.encoded sh], handshakeEvents evs, hm.encoded, ?_, ?_, hlog,
                hparse, ?_, ?_, ?_⟩, by simpa using hretry, hkey, hgroup⟩
            · dsimp only
              rw [htrace, List.append_assoc]
            · rw [handshakeEvents_append]
              rfl
            · dsimp only
              rw [transcriptUpdate_eq, htranscript, P.shaUpdate_append]
            · rw [received_append, hreceived, hbuffer]
              simp [received]
            · rw [received_append, hnone]
              rfl

end Loop

end XboxTls.Analysis
