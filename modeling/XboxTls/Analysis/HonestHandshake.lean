import XboxTls.Analysis.CertificateExtensions
import XboxTls.Analysis.HonestHello

/-!
# A handshake with a server of the profile

Every stage of `connect` succeeds when nothing fails on the client's side and the server plays
its part, and both sides end with the same secrets.
-/

set_option autoImplicit false

namespace XboxTls.Analysis

open Programs Programs.Prog XboxTls.Model XboxTls.Interface

variable {P : Crypto} {W : Type} {E : Env W} {S : Segmentation} {ended : Option Error}

/-! ## The messages of the flight -/

/-- A protocol name that fits is stored. -/
theorem storeAlpn_ok {alpn : Option Bytes} (hbound : ∀ name, alpn = some name → name.length < 256)
    {s : System P W} (hnone : s.client.negotiatedAlpn = []) :
    storeAlpn alpn s =
      some (.ok (), { s with client := { s.client with negotiatedAlpn := alpn.getD [] } }) := by
  unfold storeAlpn
  cases alpn with
  | none =>
    dsimp only [Option.getD_none]
    rw [← hnone]
    rfl
  | some name =>
    have hlt := hbound name rfl
    dsimp only
    rw [if_neg (by omega)]
    rfl

/-- The end of every branch of `handle_handshake_message`. -/
theorem hashFlight_ok {hello : Bytes} {s : System P W}
    (htranscript : s.client.transcript = P.shaUpdate P.shaReset hello) (m : OutgoingMessage)
    (l : FlightLocals) :
    (do hashMessage m.encode; emit (.flight m.received); pure l : ClientM P W FlightLocals) s =
      some (.ok l, ⟨{ s.client with transcript := P.shaUpdate P.shaReset (hello ++ m.encode) },
        s.world, s.trace ++ [.flight m.received]⟩) := by
  rw [bind_of_ok rfl, bind_of_ok rfl, ← P.shaUpdate_append, ← htranscript, ← transcriptUpdate_eq]
  rfl

/-- The server's EncryptedExtensions are taken. -/
theorem handleEncryptedExtensions_ok {config : ClientConfig} {server : Server}
    (hshows : server.Shows E config) {hello : Bytes} {s : System P W}
    (htranscript : s.client.transcript = P.shaUpdate P.shaReset hello)
    (hnone : s.client.negotiatedAlpn = []) (l : FlightLocals) :
    handleHandshakeMessage E server.extensions.received l s = some (.ok l, ⟨{ s.client with
      transcript := P.shaUpdate P.shaReset (hello ++ server.extensions.encode)
      negotiatedAlpn := server.alpn.getD [] }, s.world,
      s.trace ++ [.flight server.extensions.received]⟩) := by
  have htype : server.extensions.received.type = hsEncryptedExtensions := hshows.extensions
  unfold handleHandshakeMessage handleEncryptedExtensions
  rw [if_pos htype, bind_of_ok (lift_of_ok hshows.selects s),
    bind_of_ok (storeAlpn_ok hshows.alpnBound hnone)]
  exact hashFlight_ok
    (s := { s with client := { s.client with negotiatedAlpn := server.alpn.getD [] } })
    htranscript server.extensions l

/-- The server's Certificate is taken. -/
theorem handleCertificate_ok {config : ClientConfig} {server : Server}
    (hshows : server.Shows E config) {info : CertificateInfo}
    (hparse : parseCertificate server.certificate.received = .ok info) {hello : Bytes}
    {s : System P W} (htranscript : s.client.transcript = P.shaUpdate P.shaReset hello)
    (l : FlightLocals) :
    handleHandshakeMessage E server.certificate.received l s =
      some (.ok { l with certInfo := info, haveCert := true }, ⟨{ s.client with
        transcript := P.shaUpdate P.shaReset (hello ++ server.certificate.encode)
        certificateStorage := server.certificate.encode }, s.world,
        s.trace ++ [.flight server.certificate.received]⟩) := by
  have htype : server.certificate.received.type = hsCertificate := hshows.certificate
  have hlen : ¬ server.certificate.received.encoded.length > 24576 :=
    Nat.not_lt.mpr hshows.certificateBound
  have hsaved : parseHandshakeMessage server.certificate.received.encoded =
      .ok (server.certificate.received, server.certificate.encode.length) := by
    have hmessage := parseHandshakeMessage_encode server.certificate []
    rw [List.append_nil] at hmessage
    exact hmessage
  unfold handleHandshakeMessage handleCertificate
  rw [if_neg (by rw [htype]; decide), if_pos htype, if_neg hlen, bind_of_ok rfl,
    bind_of_ok (lift_of_ok hsaved _), bind_of_ok (lift_of_ok hparse _)]
  exact hashFlight_ok
    (s := { s with client := { s.client with certificateStorage := server.certificate.encode } })
    htranscript server.certificate _

/-- An algorithm that is known has 16 bits. -/
theorem algorithm_lt {algorithm : ℕ} {scheme : SignatureScheme}
    (h : signatureScheme algorithm = .ok scheme) : algorithm < 65536 := by
  unfold signatureScheme at h
  split at h
  · omega
  split at h
  · omega
  split at h
  · omega
  · cases h

/-- The client reads the algorithm and the signature that the server wrote. -/
theorem parseCertificateVerify_server {server : Server} {scheme : SignatureScheme}
    (hscheme : signatureScheme server.algorithm = .ok scheme)
    (hsigns : ∀ content, server.sign content ≠ []) (messages : Bytes) :
    parseCertificateVerify (server.certificateVerify P messages).received =
      .ok ⟨server.algorithm,
        server.sign (Standard.signedContent (Standard.digest P) messages)⟩ := by
  have halgorithm := algorithm_lt hscheme
  have hbound := server.signBound (Standard.signedContent (Standard.digest P) messages)
  have hpos := List.length_pos_of_ne_nil
    (hsigns (Standard.signedContent (Standard.digest P) messages))
  have hbody : (server.certificateVerify P messages).received.body =
      storeBe16 server.algorithm ++
        storeBe16 (server.sign (Standard.signedContent (Standard.digest P) messages)).length ++
        server.sign (Standard.signedContent (Standard.digest P) messages) := rfl
  generalize server.sign (Standard.signedContent (Standard.digest P) messages) = signature
    at hbound hpos hbody ⊢
  have hlength : (server.certificateVerify P messages).received.body.length =
      4 + signature.length := by
    rw [hbody, List.length_append, List.length_append, storeBe16_length, storeBe16_length]
  have hload : loadBe16 (server.certificateVerify P messages).received.body 2 =
      signature.length := by
    have hdrop := loadBe16_drop (server.certificateVerify P messages).received.body 2 0
    rw [← hdrop, hbody, List.append_assoc, List.drop_left' (storeBe16_length _)]
    exact loadBe16_storeBe16 _ (by omega) _
  have halg : loadBe16 (server.certificateVerify P messages).received.body 0 =
      server.algorithm := by
    rw [hbody, List.append_assoc]
    exact loadBe16_storeBe16 _ halgorithm _
  have hslice : slice (server.certificateVerify P messages).received.body 4 signature.length =
      signature := by
    rw [hbody, slice_append_right (n := 4) rfl]
    exact List.take_length
  have htype : (server.certificateVerify P messages).received.type = hsCertificateVerify := rfl
  unfold parseCertificateVerify
  rw [if_neg (by rw [htype, hlength]; simp), hload, halg]
  dsimp only
  rw [if_neg (by omega), hslice]

/-- The server's CertificateVerify is taken, since the verifier accepts chain and signature. -/
theorem handleCertificateVerify_ok {config : ClientConfig} {server : Server}
    (hshows : server.Shows E config) {info : CertificateInfo}
    (hparse : parseCertificate server.certificate.received = .ok info) {hello : Bytes}
    {s : System P W} (htranscript : s.client.transcript = P.shaUpdate P.shaReset hello)
    (hconfig : s.client.config = config) {l : FlightLocals} (hhave : l.haveCert = true)
    (hinfo : l.certInfo = info) :
    succeeds (handleHandshakeMessage E (server.certificateVerify P hello).received l)
      (fun l' s' => l' = l ∧ ∃ w evs, s' = ⟨{ s.client with
        transcript := P.shaUpdate P.shaReset (hello ++ (server.certificateVerify P hello).encode) },
        w, s.trace ++ evs⟩) s := by
  obtain ⟨info', chain, leaf, scheme, verifier, hostname, hverifier, hhostname, hparse', hchain,
    hleaf, hname, hscheme, hkind, haccepts, hchecks⟩ := hshows.accepted
  obtain rfl : info = info' := Except.ok.inj (hparse.symm.trans hparse')
  have hcv := parseCertificateVerify_server (P := P) hscheme hshows.signs hello
  have htype : (server.certificateVerify P hello).received.type = hsCertificateVerify := rfl
  have hsnapshot : transcriptSnapshot P s.client.transcript = P.sha256 hello := by
    rw [htranscript]
    rfl
  have hmessage : buildServerCertificateVerifyMessage (P.sha256 hello) 160 =
      .ok (Standard.signedContent (Standard.digest P) hello) := rfl
  obtain ⟨w₁, hw₁⟩ := haccepts s.world
  obtain ⟨w₂, hw₂⟩ := hchecks (Standard.signedContent (Standard.digest P) hello) w₁
  unfold handleHandshakeMessage handleCertificateVerify
  rw [if_neg (by rw [htype]; decide), if_neg (by rw [htype]; decide), if_pos htype,
    if_neg (by rw [hhave]; decide)]
  refine succeeds_bind (succeeds_lift hcv (succeeds_bind (succeeds_getClient ?_)))
  rw [hconfig, hverifier, hhostname, hsnapshot, hinfo]
  have hauthenticated : succeeds (authenticateServerFlight E info
      ⟨server.algorithm, server.sign (Standard.signedContent (Standard.digest P) hello)⟩
      (P.sha256 hello) (some hostname) (some verifier) : ClientM P W Unit)
      (fun _ s' => ∃ w evs, s' = ⟨s.client, w, s.trace ++ evs⟩) s := by
    unfold authenticateServerFlight
    refine succeeds_bind (succeeds_lift hchain (succeeds_bind (succeeds_lift hleaf ?_)))
    refine succeeds_bind (succeeds_lift hname ?_)
    refine succeeds_bind (succeeds_of_eq (callWorld_run hw₁) (succeeds_bind (succeeds_emit ?_)))
    refine succeeds_bind (succeeds_lift hscheme (succeeds_bind (succeeds_lift hkind ?_)))
    refine succeeds_bind (succeeds_lift hmessage ?_)
    refine succeeds_bind (succeeds_of_eq (callWorld_run hw₂) (succeeds_bind (succeeds_emit ?_)))
    refine succeeds_emit ⟨w₂, [.chainVerified chain hostname, .signatureVerified scheme leaf
      (Standard.signedContent (Standard.digest P) hello)
      (server.sign (Standard.signedContent (Standard.digest P) hello)), .authenticated info
      ⟨server.algorithm, server.sign (Standard.signedContent (Standard.digest P) hello)⟩
      (P.sha256 hello) hostname], ?_⟩
    simp only [List.append_assoc, List.cons_append, List.nil_append]
  refine succeeds_bind_of_spec hauthenticated ?_
  rintro _ _ ⟨w, evs, rfl⟩
  refine succeeds_of_eq (hashFlight_ok (s := ⟨s.client, w, s.trace ++ evs⟩) htranscript
    (server.certificateVerify P hello) l)
    ⟨rfl, w, evs ++ [.flight (server.certificateVerify P hello).received], ?_⟩
  rw [List.append_assoc]

/-- The right Finished is taken. -/
theorem handleFinished_ok {hello : Bytes} {s : System P W}
    (htranscript : s.client.transcript = P.shaUpdate P.shaReset hello) (l : FlightLocals) :
    succeeds (handleHandshakeMessage E (finishedOf P
        s.client.schedule.serverHandshakeTrafficSecret.val hello).received l)
      (fun l' s' => l' = { l with gotFinished := true } ∧ ∃ w evs, s' = ⟨{ s.client with
        transcript := P.shaUpdate P.shaReset (hello ++
          (finishedOf P s.client.schedule.serverHandshakeTrafficSecret.val hello).encode) },
        w, s.trace ++ evs⟩) s := by
  obtain ⟨verifyData, hcompute⟩ := computeFinishedVerifyDataSha256_isOk P
    s.client.schedule.serverHandshakeTrafficSecret (P.sha256 hello)
  have hdata := verifyData_eq hcompute
  have hsnapshot : transcriptSnapshot P s.client.transcript = P.sha256 hello := by
    rw [htranscript]
    rfl
  have hverify := verifyFinishedSha256_of_compute P _ _ _ (finishedOf P
    s.client.schedule.serverHandshakeTrafficSecret.val hello).received.encoded hcompute
  rw [hdata] at hverify
  have htype : (finishedOf P s.client.schedule.serverHandshakeTrafficSecret.val
    hello).received.type = hsFinished := rfl
  unfold handleHandshakeMessage handleFinished
  rw [if_neg (by rw [htype]; decide), if_neg (by rw [htype]; decide),
    if_neg (by rw [htype]; decide), if_pos htype]
  refine succeeds_bind (succeeds_getClient ?_)
  dsimp only
  rw [hsnapshot]
  refine succeeds_bind (succeeds_lift hverify (succeeds_bind (succeeds_emit ?_)))
  have hend := hashFlight_ok
    (s := ⟨s.client, s.world, s.trace ++ [.finishedVerified (P.sha256 hello)]⟩) htranscript
    (finishedOf P s.client.schedule.serverHandshakeTrafficSecret.val hello)
    { l with gotFinished := true }
  refine succeeds_of_eq hend ⟨rfl, s.world, [.finishedVerified (P.sha256 hello),
    .flight (finishedOf P
      s.client.schedule.serverHandshakeTrafficSecret.val hello).received], ?_⟩
  simp only [List.append_assoc, List.cons_append, List.nil_append]

/-- **The flight of a server that plays its part is taken.** -/
theorem takeFlight_server {config : ClientConfig} {server : Server}
    (hshows : server.Shows E config) {hello : Bytes} {s : System P W}
    (htranscript : s.client.transcript = P.shaUpdate P.shaReset hello)
    (hconfig : s.client.config = config) (hnone : s.client.negotiatedAlpn = []) :
    succeeds (takeFlight E
        (server.flight P s.client.schedule.serverHandshakeTrafficSecret.val hello)
        ⟨false, ⟨[], []⟩, false⟩)
      (fun l s' => l.gotFinished = true ∧ ∃ w evs, s' = ⟨{ s.client with
        transcript := P.shaUpdate P.shaReset (hello ++ flightBytes
          (server.flight P s.client.schedule.serverHandshakeTrafficSecret.val hello))
        certificateStorage := server.certificate.encode
        negotiatedAlpn := server.alpn.getD [] }, w, s.trace ++ evs⟩) s := by
  obtain ⟨info, -, -, -, -, -, -, -, hparse, -⟩ := hshows.accepted
  unfold Server.flight Server.signedFlight
  simp only [List.cons_append, List.nil_append, takeFlight]
  rw [if_neg Bool.false_ne_true]
  refine succeeds_bind (succeeds_of_eq (handleEncryptedExtensions_ok hshows htranscript hnone _) ?_)
  rw [if_neg Bool.false_ne_true]
  refine succeeds_bind (succeeds_of_eq (handleCertificate_ok hshows hparse rfl _) ?_)
  rw [if_neg Bool.false_ne_true]
  refine succeeds_bind_of_spec (handleCertificateVerify_ok hshows hparse ?_ ?_ ?_ ?_) ?_
  · rfl
  · exact hconfig
  · rfl
  · rfl
  rintro _ _ ⟨rfl, w₁, evs₁, rfl⟩
  rw [if_neg Bool.false_ne_true]
  have hbytes : hello ++ flightBytes [server.extensions, server.certificate,
      server.certificateVerify P (hello ++ server.extensions.encode ++ server.certificate.encode)] =
      hello ++ server.extensions.encode ++ server.certificate.encode ++
        (server.certificateVerify P
          (hello ++ server.extensions.encode ++ server.certificate.encode)).encode := by
    simp only [flightBytes, List.flatMap_cons, List.flatMap_nil, List.append_nil,
      List.append_assoc]
  rw [hbytes]
  refine succeeds_bind_of_spec (handleFinished_ok rfl _) ?_
  rintro _ _ ⟨rfl, w₂, evs₂, rfl⟩
  rw [succeeds_pure]
  refine ⟨rfl, w₂, [.flight server.extensions.received] ++
    ([.flight server.certificate.received] ++ (evs₁ ++ evs₂)), ?_⟩
  simp only [flightBytes, List.flatMap_cons, List.flatMap_nil, List.append_nil, List.append_assoc,
    List.cons_append, List.nil_append]

/-! ## The flight in its records -/

/-- A Finished ends the flight. -/
theorem finishes_takeFlight (front : List OutgoingMessage) {m : OutgoingMessage}
    (hm : m.type = hsFinished) (l : FlightLocals) (s : System P W) :
    wpOk (takeFlight E (front ++ [m]) l) (fun l' _ => l'.gotFinished = true) s := by
  have hlast : ∀ (l : FlightLocals) (s : System P W),
      wpOk (takeFlight E [m] l) (fun l' _ => l'.gotFinished = true) s := by
    intro l s
    unfold takeFlight
    split
    · next hfinished =>
      intro l' s' hrun
      cases hrun
      exact hfinished
    · have htype : m.received.type = hsFinished := hm
      unfold handleHandshakeMessage handleFinished hashMessage
      rw [if_neg (by rw [htype]; decide), if_neg (by rw [htype]; decide),
        if_neg (by rw [htype]; decide), if_pos htype]
      refine wpOk_bind_of_spec (R := fun l' _ => l'.gotFinished = true) ?_ ?_
      · rw [wpOk_bind, wpOk_getClient, wpOk_bind, wpOk_lift]
        intro _ _
        rw [wpOk_bind, wpOk_emit, wpOk_bind, wpOk_modifyClient, wpOk_bind, wpOk_emit, wpOk_pure]
      · intro l' s' hfinished
        unfold takeFlight
        rw [wpOk_pure]
        exact hfinished
  intro l' s' hrun
  rw [takeFlight_append] at hrun
  have hback : wpOk (takeFlight E front l >>= takeFlight E [m])
      (fun l' _ => l'.gotFinished = true) s := by
    rw [wpOk_bind]
    intro l₁ s₁ _
    exact hlast l₁ s₁
  exact hback l' s' hrun

/-- The change_cipher_spec records before the flight do not count. -/
theorem flightFrom_changeCipherSpecs (next : FlightLocals → ClientM P W Unit)
    (messages : List OutgoingMessage) (n : ℕ) (l : FlightLocals) (s : System P W) :
    ∃ evs, flightFrom E next messages (List.replicate n changeCipherSpecRecord) l s =
      flightOf E next messages l { s with trace := s.trace ++ evs } := by
  induction n generalizing s with
  | zero => exact ⟨[], by rw [List.append_nil]; rfl⟩
  | succ n ih =>
    obtain ⟨evs, hevs⟩ := ih
      { s with trace := s.trace ++ [.changeCipherSpec .handshake changeCipherSpecRecord] }
    refine ⟨[.changeCipherSpec .handshake changeCipherSpecRecord] ++ evs, ?_⟩
    have hparse : parseRecordHeader changeCipherSpecRecord =
        .ok ⟨contentChangeCipherSpec, 0x0303, 1⟩ :=
      parseRecordHeader_header contentChangeCipherSpec 1 (by decide) [1]
    rw [List.replicate_succ]
    unfold flightFrom
    rw [bind_of_ok (lift_of_ok hparse s), if_pos rfl, bind_of_ok rfl, ← List.append_assoc]
    exact hevs

/-! ## The end -/

/-- A Finished is its header and the verify data. -/
theorem finishedOf_encode (secret messages : Bytes) :
    (finishedOf P secret messages).encode =
      [hsFinished, 0, 0, 32] ++ Standard.verifyData (Standard.digest P) secret messages := by
  unfold OutgoingMessage.encode finishedOf
  rw [Standard.verifyData_length]
  rfl

/-- A client in the handshake seals with its handshake keys. -/
theorem sendProtected_handshaking (hE : Accepting E) {type : UInt8} {payload : Bytes} {stream : ℕ}
    {s : System P W} (hstate : s.client.state = .handshaking)
    (hstream : s.client.config.stream = some stream)
    (hcheck : checkProtect type payload 0 16645 = .ok ()) :
    ∃ w, sendProtected E type payload s = some (.ok (),
      ⟨{ s.client with clientHsKeys := s.client.clientHsKeys.advance }, w, s.trace ++
        [.sealed .clientHs s.client.clientHsKeys
            (sealedRecord P s.client.clientHsKeys type payload 0),
          .wrote (sealedRecord P s.client.clientHsKeys type payload 0)]⟩) := by
  have hseal := protectRecord_run .clientHs type payload 0 s hcheck (hE.malloc _ _)
  have hderef : ∀ s₁ : System P W, (deref s.client.config.stream : ClientM P W ℕ) s₁ =
      some (.ok stream, s₁) := by
    intro s₁
    rw [hstream]
    rfl
  have hkeys : s.client.keys .clientHs = s.client.clientHsKeys := rfl
  rw [hkeys] at hseal
  obtain ⟨w, hwrite⟩ := writeStream_run hE stream
    (sealedRecord P s.client.clientHsKeys type payload 0) (afterSeal s .clientHs
      (E.malloc (payload.length + 1 + 0) s.world).2
      (sealedRecord P s.client.clientHsKeys type payload 0))
  refine ⟨w, ?_⟩
  unfold sendProtected
  rw [bind_of_ok rfl, if_neg (by rw [hstate]; decide), bind_of_ok hseal, bind_of_ok (hderef _),
    hwrite]
  unfold afterSeal
  rw [List.append_assoc]
  rfl

/-- The application keys, and the Finished of the client. -/
theorem finishHandshake_ok (hE : Accepting E) {s : System P W} {stream : ℕ}
    (hstream : s.client.config.stream = some stream) (hstate : s.client.state = .handshaking)
    {shared : FixedBytes 32} (hello : Bytes) {flight : Bytes}
    (htranscript : s.client.transcript = P.shaUpdate P.shaReset flight)
    (hsecret : s.client.schedule.handshakeSecret.val =
      Standard.handshakeSecret (Standard.digest P) [] shared.val) :
    succeeds (finishHandshake E) (fun _ s' => ∃ schedule w evs, s' = ⟨{ s.client with
        schedule := schedule
        clientAppKeys := Standard.trafficKeys (Standard.digest P) (Standard.trafficSecrets
          (Standard.digest P) [] shared.val hello flight).clientApplication
        serverAppKeys := Standard.trafficKeys (Standard.digest P) (Standard.trafficSecrets
          (Standard.digest P) [] shared.val hello flight).serverApplication
        clientHsKeys := s.client.clientHsKeys.advance
        transcript := P.shaUpdate P.shaReset (flight ++
          (finishedOf P s.client.schedule.clientHandshakeTrafficSecret.val flight).encode) },
        w, s.trace ++ evs⟩ ∧
      schedule.clientHandshakeTrafficSecret = s.client.schedule.clientHandshakeTrafficSecret ∧
      schedule.serverHandshakeTrafficSecret = s.client.schedule.serverHandshakeTrafficSecret ∧
      schedule.clientApplicationTrafficSecret.val = (Standard.trafficSecrets
        (Standard.digest P) [] shared.val hello flight).clientApplication ∧
      schedule.serverApplicationTrafficSecret.val = (Standard.trafficSecrets
        (Standard.digest P) [] shared.val hello flight).serverApplication ∧
      (writtenRecords evs).getLast? = some (sealedRecord P s.client.clientHsKeys contentHandshake
        (finishedOf P s.client.schedule.clientHandshakeTrafficSecret.val flight).encode 0)) s := by
  obtain ⟨schedule, hschedule⟩ := s.client.schedule.deriveMasterSecret_isOk P (P.sha256 flight)
  obtain ⟨hclientHs, hserverHs, hclient, hserver⟩ := masterSchedule_eq hello hsecret hschedule
  obtain ⟨clientKeys, hclientKeys, -⟩ :=
    deriveTrafficKeysSha256_isOk P schedule.clientApplicationTrafficSecret
  obtain ⟨serverKeys, hserverKeys, -⟩ :=
    deriveTrafficKeysSha256_isOk P schedule.serverApplicationTrafficSecret
  obtain ⟨verifyData, hcompute⟩ := computeFinishedVerifyDataSha256_isOk P
    schedule.clientHandshakeTrafficSecret (P.sha256 flight)
  have hsnapshot : transcriptSnapshot P s.client.transcript = P.sha256 flight := by
    rw [htranscript]
    rfl
  have hfin : buildFinishedSha256 P schedule.clientHandshakeTrafficSecret (P.sha256 flight) 64 =
      .ok (finishedOf P s.client.schedule.clientHandshakeTrafficSecret.val flight).encode := by
    unfold buildFinishedSha256
    rw [if_neg (by decide), hcompute, except_ok_bind, verifyData_eq hcompute, hclientHs,
      finishedOf_encode]
    rfl
  rw [← hclient, ← hserver, ← trafficKeys_eq hclientKeys, ← trafficKeys_eq hserverKeys]
  have hlen : (finishedOf P s.client.schedule.clientHandshakeTrafficSecret.val
      flight).encode.length = 36 := by
    rw [finishedOf_encode, List.length_append, Standard.verifyData_length]
    rfl
  generalize (finishedOf P s.client.schedule.clientHandshakeTrafficSecret.val flight).encode = fin
    at hfin hlen ⊢
  have hcheck : checkProtect contentHandshake fin 0 16645 = .ok () := by
    unfold checkProtect
    dsimp only
    rw [if_neg (by decide), if_neg (by omega), if_neg (by omega), if_neg (by omega)]
  unfold finishHandshake
  refine succeeds_bind (succeeds_getClient ?_)
  rw [hsnapshot]
  refine succeeds_bind (succeeds_lift hschedule (succeeds_bind (succeeds_modifyClient ?_)))
  refine succeeds_bind (succeeds_of_eq (deriveKeys_run .clientApp hclientKeys _) ?_)
  refine succeeds_bind (succeeds_of_eq (deriveKeys_run .serverApp hserverKeys _) ?_)
  refine succeeds_bind (succeeds_getClient (succeeds_bind (succeeds_emit ?_)))
  dsimp only [afterDerive, TlsClient.setKeys]
  rw [hsnapshot]
  refine succeeds_bind (succeeds_lift hfin ?_)
  obtain ⟨w, hsend⟩ := sendProtected_handshaking hE (s := ⟨{ s.client with
    schedule := schedule, clientAppKeys := clientKeys, serverAppKeys := serverKeys }, s.world,
    s.trace ++ [.keysDerived .clientApp clientKeys] ++ [.keysDerived .serverApp serverKeys] ++
      [.readKeysChanged .application s.client.deframer.buffer]⟩) hstate hstream hcheck
  refine succeeds_bind (succeeds_of_eq hsend (succeeds_bind (succeeds_modifyClient ?_)))
  refine succeeds_emit ⟨schedule, w, [.keysDerived .clientApp clientKeys,
    .keysDerived .serverApp serverKeys, .readKeysChanged .application s.client.deframer.buffer,
    .sealed .clientHs s.client.clientHsKeys (sealedRecord P s.client.clientHsKeys contentHandshake
      fin 0), .wrote (sealedRecord P s.client.clientHsKeys contentHandshake fin 0),
    .clientFinished (P.sha256 flight) fin], ?_, hclientHs, hserverHs, rfl, rfl, rfl⟩
  rw [← P.shaUpdate_append, ← htranscript, ← transcriptUpdate_eq]
  simp only [List.append_assoc, List.cons_append, List.nil_append]

/-! ## The whole handshake -/

/-- The client passes over change_cipher_spec records in the hello loop. -/
theorem awaits_changeCipherSpecs {config : ClientConfig} {s u : System P W} {heard sent : Bytes}
    {h : HelloLocals} (hu : Awaits E config s heard h u) (hgreeted : Greeted config sent h u.client)
    {stream : ℕ} (hstream : config.stream = some stream) (n : ℕ) :
    ∃ u' : System P W, u'.client = u.client ∧
      Awaits E config s (heard ++ (List.replicate n changeCipherSpecRecord).flatten) h u' := by
  induction n with
  | zero => exact ⟨u, rfl, by rw [List.replicate_zero, List.flatten_nil, List.append_nil]; exact hu⟩
  | succ n ih =>
    obtain ⟨u', hclient, hu'⟩ := ih
    have hmore := awaits_changeCipherSpec hu' (hclient ▸ hgreeted) hstream
    refine ⟨{ u' with trace := u'.trace ++ [.changeCipherSpec .plaintext changeCipherSpecRecord] },
      hclient, ?_⟩
    rw [List.replicate_succ', List.flatten_append, List.flatten_singleton, ← List.append_assoc]
    exact hmore

/-- The flight loop takes the records of the flight. -/
theorem flightLoop_server {config : ClientConfig} {server : Server}
    (hshows : server.Shows E config) {stream : ℕ} (hstream : config.stream = some stream)
    {hello rest : Bytes} {cut : List FlightRecord} {u : System P W}
    (htranscript : u.client.transcript = P.shaUpdate P.shaReset hello)
    (hconfig : u.client.config = config) (hnone : u.client.negotiatedAlpn = [])
    (hdeframer : u.client.deframer = .empty 32768)
    (hcuts : Cuts (server.flight P u.client.schedule.serverHandshakeTrafficSecret.val hello) cut)
    (hroom : HasRoom (server.flight P u.client.schedule.serverHandshakeTrafficSecret.val hello)
      cut) (n : ℕ) {fuel : ℕ} (hfuel : n + cut.length < fuel) (ended : Option Error) {t : S.State}
    (hleft : S.left t = (List.replicate n changeCipherSpecRecord).flatten ++
      (sealFlight P u.client.serverHsKeys cut ++ rest)) :
    succeeds (flightLoop (segmented S ended E) fuel ⟨false, ⟨[], []⟩, false⟩)
      (fun _ s' => S.left s'.world.1 = rest ∧ ∃ D k, D.buffer = [] ∧ s'.client = { u.client with
        transcript := P.shaUpdate P.shaReset (hello ++ flightBytes
          (server.flight P u.client.schedule.serverHandshakeTrafficSecret.val hello))
        certificateStorage := server.certificate.encode
        negotiatedAlpn := server.alpn.getD []
        deframer := D
        serverHsKeys := k }) (onStream t u) := by
  have hbeside : Beside u.client.deframer u.client.serverHsKeys
      ((List.replicate n changeCipherSpecRecord).flatten ++
        (sealFlight P u.client.serverHsKeys cut ++ rest)) (onStream t u) u := ⟨rfl, rfl, hleft⟩
  have hplain : ∀ record ∈ List.replicate n changeCipherSpecRecord, IsPlain record := by
    intro record hrecord
    rw [List.eq_of_mem_replicate hrecord]
    exact ⟨isRecord_changeCipherSpec, by decide⟩
  have hlast : EndsLast (server.flight P u.client.schedule.serverHandshakeTrafficSecret.val
      hello) := by
    intro m hm
    unfold Server.flight at hm
    rw [List.dropLast_concat] at hm
    unfold Server.signedFlight at hm
    simp only [List.mem_cons, List.not_mem_nil, or_false] at hm
    rcases hm with rfl | rfl | rfl
    · rw [hshows.extensions]
      decide
    · rw [hshows.certificate]
      decide
    · show hsCertificateVerify ≠ hsFinished
      decide
  have hfollows : ∀ v : System P W, Follows (S := S) E ended u.client.serverHsKeys True rest
      (fun _ => diverge) (server.flight P u.client.schedule.serverHandshakeTrafficSecret.val hello)
      ⟨false, ⟨[], []⟩, false⟩ v := by
    intro v l' v' hrun hnot
    have hfinished : l'.gotFinished = true := finishes_takeFlight (server.signedFlight P hello)
      (E := E) rfl ⟨false, ⟨[], []⟩, false⟩ v l' v' hrun
    exact absurd (hfinished.symm.trans hnot) (by decide)
  have hbehind := flightLoop_plain (List.replicate n changeCipherSpecRecord) fuel
    ⟨false, ⟨[], []⟩, false⟩ hbeside hplain (hconfig.symm ▸ hstream) rfl
    (by rw [hdeframer]; rfl) (by rw [hdeframer]; rfl) hcuts (fun _ : ¬ False => hroom)
    (by rw [List.length_replicate]; exact hfuel) (fun _ => hlast) hfollows
  have hrun := hbehind.coupled not_false not_false
  obtain ⟨evs, hplainRun⟩ := flightFrom_changeCipherSpecs (E := E) (fun _ => diverge)
    (server.flight P u.client.schedule.serverHandshakeTrafficSecret.val hello) n
    ⟨false, ⟨[], []⟩, false⟩ u
  obtain ⟨l, v, htake, hfinished, w, evs', hv⟩ := takeFlight_server hshows
    (s := { u with trace := u.trace ++ evs }) htranscript hconfig hnone
  have hmessages : flightOf E (fun _ => diverge)
      (server.flight P u.client.schedule.serverHandshakeTrafficSecret.val hello)
      ⟨false, ⟨[], []⟩, false⟩ { u with trace := u.trace ++ evs } = some (.ok (), v) := by
    unfold flightOf
    rw [bind_of_ok htake, if_pos hfinished]
    rfl
  rw [hplainRun, hmessages] at hrun
  obtain ⟨s', hloop, D, k, left, -, -, -, hs', hend⟩ := hrun.symm.run
  obtain ⟨hempty, rfl⟩ := hend trivial rfl
  refine ⟨(), s', hloop, hs'.left, D, k, hempty, ?_⟩
  rw [hs'.client, hv]

/-- The client with the handshake keys of the server. -/
structure KeyedWith (P : Crypto) (config : ClientConfig) (server : Server) (shared : FixedBytes 32)
    (hello : Bytes) (c : TlsClient P) : Prop where
  configured : c.config = config
  state : c.state = .handshaking
  transcript : c.transcript = P.shaUpdate P.shaReset hello
  deframer : c.deframer = .empty 32768
  alpn : c.negotiatedAlpn = []
  pending : c.pendingAppLength = 0
  secret : c.schedule.handshakeSecret.val =
    Standard.handshakeSecret (Standard.digest P) [] shared.val
  clientSecret : c.schedule.clientHandshakeTrafficSecret.val =
    (server.secrets P shared hello).clientHandshake
  serverSecret : c.schedule.serverHandshakeTrafficSecret.val =
    (server.secrets P shared hello).serverHandshake
  clientKeys : c.clientHsKeys =
    Standard.trafficKeys (Standard.digest P) (server.secrets P shared hello).clientHandshake
  serverKeys : c.serverHsKeys =
    Standard.trafficKeys (Standard.digest P) (server.secrets P shared hello).serverHandshake

/-- The hello of the server that the client waits for gives both sides the handshake keys. -/
theorem Awaits.helloPhase {config : ClientConfig} (husable : config.usable = true)
    {s u : System P W} (hidle : s.client.state = .idle) {heard sent tail : Bytes} {h : HelloLocals}
    (hu : Awaits E config (startOf config s) heard h u) (hgreeted : Greeted config sent h u.client)
    {server : Server} {reply : Reply} {shared : FixedBytes 32}
    (hagree : KeysAgree P h.params.group) (hreplies : server.Replies P h.params sent shared reply)
    (S : Segmentation) (ended : Option Error) {t : S.State}
    (hleft : S.left t = heard ++ (List.replicate reply.before changeCipherSpecRecord).flatten ++
      (plainRecord contentHandshake reply.hello.encode ++ tail)) :
    ∃ (rounds : ℕ) (t' : S.State) (v : System P W), S.left t' = tail ∧
      KeyedWith P config server shared (sent ++ reply.hello.encode) v.client ∧
      ∀ fuel, Interface.helloPhase (segmented S ended E) (fuel + rounds) config (onStream t s) =
        some (.ok (), onStream t' v) := by
  obtain ⟨-, stream, hstream⟩ := objects_of_usable husable
  obtain ⟨u', hclient, rounds, hawaits⟩ := awaits_changeCipherSpecs hu hgreeted hstream reply.before
  have hgreeted' : Greeted config sent h u'.client := hclient ▸ hgreeted
  obtain ⟨t₁, hleft₁, hhellos⟩ := hawaits S ended t _ hleft
  obtain ⟨t₂, evs₁, hleft₂, hhello⟩ :=
    helloLoop_serverHello (E := E) hgreeted' hstream hreplies.kind
    hreplies.session hreplies.short S ended hleft₁
  have hgroup : h.activeGroup = server.share.group :=
    hgreeted'.group.trans hreplies.group.symm
  have hshared : sharedSecret P server.share.group u'.client.privateKey server.share.share =
      .ok shared := by
    rw [hreplies.group]
    exact hagree _ _ _ _ _ hreplies.ownShare hgreeted'.share hreplies.agrees
  obtain ⟨schedule, evs, hderive, hsecret, hclientHs, hserverHs⟩ := deriveHandshakeKeys_ok
    (segmented S ended E) ((HelloKind.serverHello reply.random reply.fresh server.share).info
      reply.hello.sessionId) (s := onStream t₂ ⟨{ u'.client with
        transcript := P.shaUpdate P.shaReset (sent ++ reply.hello.encode)
        deframer := .empty 32768 }, u'.world, u'.trace ++ evs₁⟩) rfl hshared
      (sent ++ reply.hello.encode ++ flightBytes
        (server.messages P shared (sent ++ reply.hello.encode)))
  refine ⟨rounds + 2, t₂, ⟨{ u'.client with
      transcript := P.shaUpdate P.shaReset (sent ++ reply.hello.encode)
      deframer := .empty 32768
      schedule := schedule
      clientHsKeys := Standard.trafficKeys (Standard.digest P)
        (server.secrets P shared (sent ++ reply.hello.encode)).clientHandshake
      serverHsKeys := Standard.trafficKeys (Standard.digest P)
        (server.secrets P shared (sent ++ reply.hello.encode)).serverHandshake },
    u'.world, u'.trace ++ evs₁ ++ evs⟩, hleft₂, ⟨hgreeted'.configured, hgreeted'.state, rfl, rfl,
    hgreeted'.alpn, hgreeted'.pending, hsecret, hclientHs, hserverHs, rfl, rfl⟩, fun fuel => ?_⟩
  unfold Interface.helloPhase
  rw [bind_of_ok rfl, if_neg (by
    rintro (hne | hne)
    · exact hne hidle
    · rw [husable] at hne
      cases hne), bind_of_ok rfl, bind_of_ok rfl]
  have hassoc := bind_assoc_apply (startHello (segmented S ended E) config)
    (helloLoop (segmented S ended E) (fuel + (rounds + 2)))
    (fun out => deriveHandshakeKeys (segmented S ended E) out.1 out.2.activeGroup)
    (onStream t (startOf config s))
  refine hassoc.symm.trans ?_
  rw [bind_apply, show fuel + (rounds + 2) = fuel + 2 + rounds by omega, hhellos, hhello]
  dsimp only
  rw [hgroup]
  exact hderive

/-- With the handshake keys, the flight of the server completes the handshake. -/
theorem KeyedWith.processServerHandshake {config : ClientConfig} (hE : Accepting E)
    (husable : config.usable = true) {server : Server} (hshows : server.Shows E config)
    {shared : FixedBytes 32} {hello rest : Bytes} {u : System P W}
    (hu : KeyedWith P config server shared hello u.client) {cut : List FlightRecord}
    (hcuts : Cuts (server.messages P shared hello) cut)
    (hroom : HasRoom (server.messages P shared hello) cut) (n : ℕ) {fuel : ℕ}
    (hfuel : n + cut.length < fuel) (S : Segmentation) (ended : Option Error) {t : S.State}
    (hleft : S.left t = (List.replicate n changeCipherSpecRecord).flatten ++
      (sealFlight P (Standard.trafficKeys (Standard.digest P)
        (server.secrets P shared hello).serverHandshake) cut ++ rest)) :
    succeeds (do
        orFail (segmented S ended E) (Model.processServerHandshake (segmented S ended E) fuel)
        modifyClient fun c => { c with state := .connected } : ClientM P (S.State × W) Unit)
      (fun _ s' => Agreed P config server shared hello s' ∧ S.left s'.world.1 = rest)
      (onStream t u) := by
  obtain ⟨-, stream, hstream⟩ := objects_of_usable husable
  have hmessages : server.flight P u.client.schedule.serverHandshakeTrafficSecret.val hello =
      server.messages P shared hello := by
    rw [hu.serverSecret]
    rfl
  have hflight := flightLoop_server hshows hstream hu.transcript hu.configured
    hu.alpn hu.deframer (hmessages ▸ hcuts) (hmessages ▸ hroom) n hfuel
    ended (by rw [hu.serverKeys]; exact hleft)
  rw [hmessages] at hflight
  unfold orFail Model.processServerHandshake
  refine succeeds_bind (succeeds_onError (succeeds_bind_of_spec hflight ?_))
  rintro _ s₁ ⟨hleft₁, D, k, hempty, hclient₁⟩
  have hsecrets : Standard.trafficSecrets (Standard.digest P) [] shared.val hello
      (hello ++ flightBytes (server.messages P shared hello)) = server.secrets P shared hello := rfl
  have hstream₁ : s₁.client.config.stream = some stream := by
    rw [hclient₁, ← hstream, ← hu.configured]
  have hsecret : s₁.client.schedule.handshakeSecret.val =
      Standard.handshakeSecret (Standard.digest P) [] shared.val := by
    rw [hclient₁]
    exact hu.secret
  have hfinish := finishHandshake_ok hE (s := ⟨s₁.client, s₁.world.2, s₁.trace⟩) hstream₁
    (by rw [hclient₁]; exact hu.state) hello (by rw [hclient₁]) hsecret
  rw [hsecrets] at hfinish
  have hjoined : Joined (fun w (v : S.State × W) => v = (s₁.world.1, w)) E (segmented S ended E) :=
    joined_onStream s₁.world.1
  have hlifted := succeeds_onStream (related_finishHandshake hjoined) hfinish
  have hbeside : onStream s₁.world.1 ⟨s₁.client, s₁.world.2, s₁.trace⟩ = s₁ := rfl
  rw [hbeside] at hlifted
  refine succeeds_mono hlifted ?_
  rintro _ _ ⟨s₂, rfl, schedule, w, evs, hs₂, hclientHs, hserverHs, hclientApp, hserverApp,
    hwritten⟩
  have hclient : s₂.client = _ := congrArg System.client hs₂
  have htrace : s₂.trace = s₁.trace ++ evs := congrArg System.trace hs₂
  have hschedule : s₂.client.schedule = schedule := by rw [hclient]
  have hclientKeys : s₁.client.clientHsKeys = Standard.trafficKeys (Standard.digest P)
      (server.secrets P shared hello).clientHandshake := by
    rw [hclient₁]
    exact hu.clientKeys
  have hclientSecret : s₁.client.schedule.clientHandshakeTrafficSecret.val =
      (server.secrets P shared hello).clientHandshake := by
    rw [hclient₁]
    exact hu.clientSecret
  have hserverSecret : s₁.client.schedule.serverHandshakeTrafficSecret.val =
      (server.secrets P shared hello).serverHandshake := by
    rw [hclient₁]
    exact hu.serverSecret
  refine succeeds_modifyClient ⟨⟨rfl, ?_, ?_, ?_, ?_, ?_, ?_, ?_, ?_⟩, hleft₁⟩
  · show s₂.client.config = config
    rw [hclient, hclient₁]
    exact hu.configured
  · show s₂.client.negotiatedAlpn = server.alpn.getD []
    rw [hclient, hclient₁]
  · show Standard.secretsOf s₂.client.schedule = server.secrets P shared hello
    unfold Standard.secretsOf
    rw [hschedule, hclientHs, hserverHs, hclientApp, hserverApp, hclientSecret, hserverSecret]
  · show s₂.client.clientAppKeys = _
    rw [hclient]
  · show s₂.client.serverAppKeys = _
    rw [hclient]
  · show s₂.client.deframer.buffer = []
    rw [hclient, hclient₁]
    exact hempty
  · show s₂.client.pendingAppLength = 0
    rw [hclient, hclient₁]
    exact hu.pending
  · show (writtenRecords s₂.trace).getLast? = _
    rw [htrace, writtenRecords_append, List.getLast?_append, hwritten, hclientKeys, hclientSecret]
    rfl

/-- **A client that waits for a server completes with every server of the profile.** -/
theorem Awaits.completes {config : ClientConfig} (hE : Accepting E) (husable : config.usable = true)
    {s u : System P W} (hidle : s.client.state = .idle) {heard sent : Bytes} {h : HelloLocals}
    (hu : Awaits E config (startOf config s) heard h u)
    (hgreeted : Greeted config sent h u.client) :
    Completes P E config s heard h.params sent := by
  intro S ended t server reply shared rest hagree hshows hreplies hleft
  unfold Server.replyBytes at hleft
  simp only [List.append_assoc] at hleft
  obtain ⟨rounds, t', v, hleft', hkeyed, hphase⟩ := hu.helloPhase husable hidle hgreeted hagree
    hreplies S ended (by rw [hleft, List.append_assoc])
  have hfuel : reply.after + reply.cut.length < reply.after + reply.cut.length + 1 + rounds := by
    omega
  obtain ⟨_, s', hrun, hagreed, hrest⟩ := hkeyed.processServerHandshake hE husable hshows
    hreplies.cuts hreplies.room reply.after hfuel S ended hleft'
  refine ⟨s', ⟨reply.after + reply.cut.length + 1 + rounds, ?_⟩, hagreed, hrest⟩
  have hconnect : connect (segmented S ended E) (reply.after + reply.cut.length + 1 + rounds) config
      (onStream t s) = some (.ok (), s') := by
    rw [connect_eq, bind_of_ok (hphase _)]
    exact hrun
  exact bind_of_ok hconnect

/-- From every reachable idle client there is a ClientHello, the same whatever the stream brings,
behind which the client waits for a server, and so it does behind one HelloRetryRequest for the
other group. -/
theorem waits_behind_hellos (E : Env W) {config : ClientConfig} (husable : config.usable = true)
    (hgroup : config.preferredGroup = .x25519 ∨ config.preferredGroup = .secp256r1)
    (hfits : HelloFits config) (hE : ∀ group, Cooperates P E group) {s : System P W}
    (hstored : Stored s.client) {Goal : Bytes → ClientHelloParams → Bytes → Prop}
    (hgoal : ∀ heard sent h u, Awaits E config (startOf config s) heard h u →
      Greeted config sent h u.client → Goal heard h.params sent) :
    ∃ p ch, Offers P config config.preferredGroup p ch ∧ Goal [] p ch ∧
      ∀ group (hother : group = .x25519 ∨ group = .secp256r1) cookie hcookie,
        group ≠ config.preferredGroup → ∀ m : HelloParts,
          m.OfKind (.retry group hother cookie hcookie) → m.sessionId = p.sessionId →
          m.encode.length ≤ 16384 → ∃ p' ch', Offers P config group p' ch' ∧
            p' = { p with
              group := group, keyShare := p'.keyShare, cookie := cookie.getD [] } ∧
            Goal (plainRecord contentHandshake m.encode) p'
              (messageHash (P.sha256 ch) ++ m.encode ++ ch') := by
  obtain ⟨h, u, hstart, ch, hch, hfirst, hpreferred, hgreeted⟩ := startHello_ok
    (hE config.preferredGroup) hgroup husable hfits hstored
  have hawaits := awaits_start hstart
  refine ⟨h.params, ch, ⟨hch, hpreferred, ⟨_, hgreeted.share⟩, hgreeted.name, hgreeted.offers⟩,
    hgoal _ _ h u hawaits hgreeted, ?_⟩
  intro group hother cookie hcookie hne m hm hsession hlen
  obtain ⟨h', ch', u', hch', hparams, hgreeted', hawaits'⟩ := awaits_retry hawaits hgreeted
    (hE group) hfits husable hfirst (by rw [hpreferred]; exact hne) hm hsession hlen
  exact ⟨h'.params, ch', ⟨hch', by rw [hparams], ⟨_, hgreeted'.share⟩, hgreeted'.name,
    hgreeted'.offers⟩, hparams, hgoal _ _ h' u' hawaits' hgreeted'⟩

/-- **A handshake with a server of the profile completes, and both sides agree.**  From every
reachable idle client, when nothing fails on its side, there is a ClientHello, the same whatever
the stream brings; with every server that replies to it `connect` returns `XT_OK`, on a stream
that hands out the bytes in any pieces, and the two have the same secrets, keys and protocol and
have taken the same bytes.  The same holds behind one HelloRetryRequest for the other group. -/
theorem honest_handshake (E : Env W) {config : ClientConfig} (husable : config.usable = true)
    (hgroup : config.preferredGroup = .x25519 ∨ config.preferredGroup = .secp256r1)
    (hfits : HelloFits config) (hE : ∀ group, Cooperates P E group) {c : TlsClient P}
    (hreach : ReachableClient c) (hidle : c.state = .idle) (w : W) (trace : List Event) :
    ∃ p ch, Offers P config config.preferredGroup p ch ∧
      Completes P E config ⟨c, w, trace⟩ [] p ch ∧
      ∀ group (hother : group = .x25519 ∨ group = .secp256r1) cookie hcookie,
        group ≠ config.preferredGroup → ∀ m : HelloParts,
          m.OfKind (.retry group hother cookie hcookie) → m.sessionId = p.sessionId →
          m.encode.length ≤ 16384 → ∃ p' ch', Offers P config group p' ch' ∧
            p' = { p with
              group := group, keyShare := p'.keyShare, cookie := cookie.getD [] } ∧
            Completes P E config ⟨c, w, trace⟩ (plainRecord contentHandshake m.encode) p'
              (messageHash (P.sha256 ch) ++ m.encode ++ ch') :=
  waits_behind_hellos E husable hgroup hfits hE (stored_of_reachable hreach)
    fun _ _ _ _ hawaits hgreeted =>
      hawaits.completes (hE .x25519).toAccepting husable hidle hgreeted

/-! ## A server with one certificate -/

/-- A `Crypto` in which both sides always agree. -/
def agreeingCrypto : Crypto where
  __ := blankCrypto
  x25519SharedSecret _ _ := .ok (.zero 32)
  p256PublicFromPrivate _ := .ok (.zero 65)

/-- A list with one certificate. -/
def onceList : Bytes := storeBe24 onceCertificate.length ++ onceCertificate ++ [0, 0]

/-- The body of a Certificate message with it. -/
def onceBody : Bytes := [0] ++ storeBe24 onceList.length ++ onceList

/-- The body of the certificate fits a message. -/
theorem onceBody_fits : onceBody.length ≤ 0xFFFFFF := by
  decide +kernel

/-- The share is one of X25519. -/
theorem onceShare_supported :
    (NamedGroup.x25519 = .x25519 ∧ (List.replicate 32 (0 : UInt8)).length = 32) ∨
      (NamedGroup.x25519 = .secp256r1 ∧ (List.replicate 32 (0 : UInt8)).length = 65 ∧
        byteAt (List.replicate 32 0) 0 = 0x04) :=
  .inl ⟨rfl, rfl⟩

/-- The extensions fit a message. -/
theorem onceExtensions_fit : ([0, 0] : Bytes).length ≤ 0xFFFFFF := by
  decide

/-- The signature fits a message. -/
theorem onceSignature_fits : ∀ _ : Bytes, ([0] : Bytes).length ≤ 0xFFFF := by
  intro _
  decide

/-- The server with this certificate; its key and its share are zero. -/
def onceServer : Server where
  key := .zero 32
  share := ⟨.x25519, List.replicate 32 0, onceShare_supported⟩
  alpn := none
  extensions := ⟨hsEncryptedExtensions, [0, 0], onceExtensions_fit⟩
  certificate := ⟨hsCertificate, onceBody, onceBody_fits⟩
  algorithm := 0x0804
  sign _ := [0]
  signBound := onceSignature_fits

/-- The key agreement of the agreeing primitives agrees. -/
theorem keysAgree_agreeingCrypto : KeysAgree agreeingCrypto .x25519 := by
  intro a b shareA shareB shared ha hb hshared
  obtain ⟨-, rfl⟩ | ⟨hgroup, -⟩ := ha
  · obtain ⟨-, rfl⟩ | ⟨hgroup, -⟩ := hb
    · unfold sharedSecret at hshared ⊢
      rw [if_pos ⟨rfl, (agreeingCrypto.x25519PublicFromPrivate _).property⟩] at hshared ⊢
      exact hshared
    · cases hgroup
  · cases hgroup

/-- A value that is there is the result. -/
theorem eq_ok_of_toOption {ε α : Type} {x : Except ε α} {a : α} (h : x.toOption = some a) :
    x = .ok a := by
  cases x with
  | error e => cases h
  | ok b => exact congrArg Except.ok (Option.some.inj h)

/-- The client takes what the server shows. -/
theorem onceServer_shows : onceServer.Shows agreeingEnv onceConfig where
  extensions := rfl
  selects := by decide
  alpnBound := by
    intro name hname
    cases hname
  certificate := rfl
  certificateBound := by decide +kernel
  signs := by
    intro content hnil
    cases hnil
  accepted := by
    have hinfo : parseCertificate onceServer.certificate.received = .ok ⟨[], onceList⟩ := by
      decide +kernel
    have hleaves : (parseCertificateChain ⟨[], onceList⟩).toOption.map
        CertificateChainView.leafDer = some onceCertificate := by
      decide +kernel
    have hview : (x509ParseCertificate onceCertificate).toOption.map
        (fun v => (x509VerifyHostname v ⟨[120, 46, 121], by decide⟩, v.publicKeyKind)) =
        some (.ok (), .rsa) := by
      decide +kernel
    obtain ⟨chain, hchain, hder⟩ := Option.map_eq_some_iff.mp hleaves
    obtain ⟨leaf, hleaf, hfields⟩ := Option.map_eq_some_iff.mp hview
    obtain ⟨hname, hkind⟩ := Prod.mk.inj hfields
    refine ⟨_, chain, leaf, .rsaPssRsaeSha256, 0, _, rfl, rfl, hinfo, eq_ok_of_toOption hchain,
      hder ▸ eq_ok_of_toOption hleaf, hname, rfl, ?_, fun w => ⟨w, rfl⟩, fun _ w => ⟨w, rfl⟩⟩
    rw [hkind]
    rfl

/-- Its ServerHello. -/
def onceHello (sessionId : Bytes) (h : sessionId.length ≤ 32) : HelloParts where
  random := .zero 32
  sessionId := sessionId
  cipherSuite := tlsAes128GcmSha256
  extensions := [.supportedVersion, .keyShare (keyShareBody .x25519 (List.replicate 32 0))
    (by decide)]
  sessionBound := h
  suiteBound := tlsAes128GcmSha256_lt
  extensionsBound := by decide

/-- Its flight, the same behind every hello. -/
def onceFlight : List OutgoingMessage := onceServer.messages agreeingCrypto (.zero 32) []

/-- The flight in two records. -/
def onceCut : List FlightRecord :=
  [⟨(flightBytes onceFlight).take 100, 3⟩, ⟨(flightBytes onceFlight).drop 100, 0⟩]

/-- The flight is cut into one record. -/
theorem cuts_onceCut : Cuts onceFlight onceCut :=
  ⟨by decide +kernel, by decide +kernel, by decide +kernel⟩

/-- There is room for the one record. -/
theorem hasRoom_onceCut : HasRoom onceFlight onceCut :=
  hasRoom_of_small cuts_onceCut (by decide +kernel)

/-- Nothing fails in the agreeing environment. -/
theorem cooperates_agreeingEnv (group : NamedGroup) :
    Cooperates agreeingCrypto agreeingEnv group where
  sendAll _ _ w := ⟨w, rfl⟩
  malloc _ _ := rfl
  random _ w := ⟨.zero 32, w, rfl, fun _ => ⟨_, rfl⟩⟩

/-- Host name and protocols fit. -/
theorem helloFits_onceConfig : HelloFits onceConfig where
  pieces _ halpn := by cases halpn
  total := by decide

/-- The ServerHello fits a record. -/
theorem onceHello_fits (sessionId : Bytes) (h : sessionId.length ≤ 32) :
    (onceHello sessionId h).encode.length ≤ 16384 := by
  have hextensions : (RawExtension.encodeAll (onceHello sessionId h).extensions).length = 46 := rfl
  have hsession : (onceHello sessionId h).sessionId = sessionId := rfl
  simp only [HelloParts.encode, HelloParts.encodeBody, hextensions, hsession, List.length_append,
    storeBe16_length, storeBe24_length, List.length_cons, List.length_nil,
    (onceHello sessionId h).random.property]
  omega

/-- A server with this key and this share replies to every client with its flight in these
records, and a number of change_cipher_spec records in front of them. -/
theorem replies_agreeingCrypto (server : Server) (hkey : server.key = onceServer.key)
    (hshare : server.share = onceServer.share) {cut : List FlightRecord}
    (hcuts : Cuts (server.messages agreeingCrypto (.zero 32) []) cut)
    (hroom : HasRoom (server.messages agreeingCrypto (.zero 32) []) cut) (after : ℕ)
    {p : ClientHelloParams} {ch : Bytes}
    (hoffers : Offers agreeingCrypto onceConfig .x25519 p ch) :
    ∃ reply, server.Replies agreeingCrypto p ch (.zero 32) reply ∧ reply.before = 0 ∧
      reply.after = after ∧ reply.cut = cut := by
  obtain ⟨-, -, -, hsession, -⟩ := buildClientHello_ok hoffers.built
  have hgroup : p.group = .x25519 := hoffers.group
  obtain ⟨privateKey, hprivate⟩ := hoffers.share
  rw [hgroup] at hprivate
  obtain ⟨-, hkeyShare⟩ | ⟨hne, -⟩ := hprivate
  · refine ⟨⟨.zero 32, by decide, onceHello p.sessionId hsession, 0, after, cut⟩,
      ⟨?_, rfl, onceHello_fits _ _, ?_, ?_, ?_, hcuts, hroom⟩, rfl, rfl, rfl⟩
    · rw [hshare]
      exact ⟨rfl, rfl, [], by simp, .refl _⟩
    · rw [hshare]
      exact hgroup.symm
    · rw [hgroup, hkey, hshare]
      exact .inl ⟨rfl, rfl⟩
    · rw [hgroup]
      unfold sharedSecret
      rw [if_pos ⟨rfl, by
        rw [hkeyShare]; exact (agreeingCrypto.x25519PublicFromPrivate _).property⟩]
      rfl
  · cases hne

/-- The server replies to every client, with a change_cipher_spec between its hello and its
flight. -/
theorem onceServer_replies {p : ClientHelloParams} {ch : Bytes}
    (hoffers : Offers agreeingCrypto onceConfig .x25519 p ch) :
    ∃ reply, onceServer.Replies agreeingCrypto p ch (.zero 32) reply := by
  obtain ⟨reply, hreplies, -⟩ := replies_agreeingCrypto onceServer rfl rfl cuts_onceCut
    hasRoom_onceCut 1 hoffers
  exact ⟨reply, hreplies⟩

/-- A fresh client has not run yet. -/
theorem reachable_initial : ReachableClient (.initial agreeingCrypto) :=
  ⟨Bytes, agreeingEnv, [], [], _, Run.nil _, rfl⟩

/-- The server replies byte by byte. -/
theorem honest_handshake_once :
    ∃ (hello bytes : Bytes) (s : System agreeingCrypto (Bytes × Bytes)),
      Returns (segmented (pieces 1 Nat.one_pos) none agreeingEnv) (.connect onceConfig)
        ⟨.initial agreeingCrypto, (bytes, []), []⟩ (.ok []) s ∧
      Agreed agreeingCrypto onceConfig onceServer (.zero 32) hello s := by
  have husable : onceConfig.usable = true := rfl
  obtain ⟨p, ch, hoffers, hcompletes, -⟩ := honest_handshake agreeingEnv husable (.inl rfl)
    helloFits_onceConfig cooperates_agreeingEnv reachable_initial rfl [] []
  obtain ⟨reply, hreplies⟩ := onceServer_replies hoffers
  obtain ⟨s, hs, hagreed, -⟩ := hcompletes (pieces 1 Nat.one_pos) none _ onceServer reply (.zero 32)
    [] (hoffers.group.symm ▸ keysAgree_agreeingCrypto) onceServer_shows hreplies rfl
  exact ⟨_, _, s, hs, hagreed⟩

end XboxTls.Analysis
