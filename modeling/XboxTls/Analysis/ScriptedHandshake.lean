import XboxTls.Analysis.Frames
import XboxTls.Analysis.RecordLayer
import XboxTls.Interface.ScriptedServer

/-!
# A handshake of one message

With every crypto whose key agreement works, a server can send a ServerHello and then an
encrypted flight that is nothing but a Finished message, with any bytes behind it in the
same record: `connect` returns `XT_OK` (`scripted_connect`).
-/

set_option autoImplicit false

namespace XboxTls.Analysis

open Programs Programs.Prog XboxTls.Model XboxTls.Interface

variable {P : Crypto}

/-! ## Reading from the script -/

/-- The loop of `read_record` takes what it asks for. -/
theorem recvLoop_script (stream fuel total : ℕ) (have_ : Bytes) (s : System P Bytes)
    (hfuel : total - have_.length ≤ fuel) (hworld : total - have_.length ≤ s.world.length) :
    recvLoop scriptEnv stream fuel total have_ s =
      some (.ok (have_ ++ s.world.take (total - have_.length)),
        { s with world := s.world.drop (total - have_.length) }) := by
  cases fuel with
  | zero =>
    have h0 : total - have_.length = 0 := by omega
    simp [recvLoop, h0]
  | succ fuel =>
    by_cases h : have_.length < total
    · have hlen : (s.world.take (total - have_.length)).length = total - have_.length := by
        rw [List.length_take]
        omega
      have hrest : recvLoop (P := P) scriptEnv stream fuel total
          (have_ ++ s.world.take (total - have_.length)) =
          pure (have_ ++ s.world.take (total - have_.length)) := by
        cases fuel with
        | zero => rfl
        | succ fuel =>
          unfold recvLoop
          rw [if_neg]
          rw [List.length_append, hlen]
          omega
      unfold recvLoop
      rw [if_pos h]
      simp only [bind_apply, callWorld, scriptEnv]
      rw [if_neg (by rw [hlen]; omega)]
      exact congrFun hrest _
    · have h0 : total - have_.length = 0 := by omega
      simp [recvLoop, h, h0]

/-- A header that was written is read back. -/
theorem parseRecordHeader_header (t : UInt8) (n : ℕ) (hn : n ≤ 16640) (rest : Bytes) :
    parseRecordHeader ([t, 3, 3] ++ storeBe16 n ++ rest) = .ok ⟨t, 0x0303, n⟩ := by
  have hlen : loadBe16 ([t, 3, 3] ++ storeBe16 n ++ rest) 3 = n := by
    simp only [loadBe16, byteAt, storeBe16, List.cons_append, List.nil_append,
      List.getD_cons_succ, List.getD_cons_zero, UInt8.toNat_ofNat']
    omega
  unfold parseRecordHeader
  rw [hlen, if_neg, if_neg (by omega)]
  · simp [byteAt, loadBe16]
  · simp only [List.length_append, storeBe16_length, List.length_cons]
    omega

/-- `read_record` takes the next record of the script. -/
theorem readRecord_script {stream : ℕ} (t : UInt8) (body rest : Bytes) (s : System P Bytes)
    (hstream : s.client.config.stream = some stream) (hbody : body.length ≤ 16640)
    (hworld : s.world = [t, 3, 3] ++ storeBe16 body.length ++ body ++ rest) :
    readRecord scriptEnv 16645 s =
      some (.ok ([t, 3, 3] ++ storeBe16 body.length ++ body), { s with world := rest }) := by
  have hheader : ([t, 3, 3] ++ storeBe16 body.length).length = 5 := rfl
  unfold readRecord
  rw [bind_of_ok rfl, hstream]
  have hfirst := recvLoop_script stream 5 5 [] s (by simp) (by
    rw [hworld, List.length_append, List.length_append, hheader]
    simp only [List.length_nil]
    omega)
  have htake : s.world.take 5 = [t, 3, 3] ++ storeBe16 body.length := by
    rw [hworld, List.append_assoc, ← hheader]
    exact List.take_left
  have hdrop : s.world.drop 5 = body ++ rest := by
    rw [hworld, List.append_assoc, ← hheader]
    exact List.drop_left
  simp only [List.length_nil, Nat.sub_zero, List.nil_append, htake, hdrop] at hfirst
  have hparse := parseRecordHeader_header t body.length hbody []
  rw [List.append_nil] at hparse
  dsimp only
  rw [if_neg (by omega), bind_of_ok hfirst, bind_of_ok (lift_of_ok hparse _),
    if_neg (by dsimp only; omega), recvLoop_script]
  · simp only [hheader, Nat.add_sub_cancel_left, List.take_left, List.drop_left]
  · simp only [hheader]
    omega
  · simp only [hheader, List.length_append]
    omega

/-! ## The hellos -/

/-- The ClientHello fits its buffer. -/
theorem buildClientHello_script (P : Crypto) :
    ∃ ch, buildClientHello (scriptParams P) 2048 = .ok ch ∧ ch.length ≤ 2048 := by
  have hk : (P.x25519PublicFromPrivate scriptPrivateKey).val.length = 32 :=
    (P.x25519PublicFromPrivate scriptPrivateKey).property
  simp [scriptParams, buildClientHello, writeHelloFields, writeHelloExtensions, extSni,
    extSupportedVersions, extSupportedGroups, extSigAlgs, extKeyShare, extCookie, extAlpn,
    Writer.put8, Writer.put16, Writer.put24, Writer.bytes, Writer.checked, Writer.patch,
    FixedBytes.zero, storeBe16, storeBe24, hk]

/-- A public key of X25519 fits the room for one of P-256. -/
theorem x25519_le_p256 : 32 ≤ 65 := by
  omega

/-- The client after it sent its ClientHello. -/
def clientAfterHello (P : Crypto) (padding : ℕ) (ch : Bytes) : TlsClient P :=
  { TlsClient.initial P with
    config := scriptConfig padding
    state := .handshaking
    transcript := P.shaUpdate P.shaReset ch
    privateKey := scriptPrivateKey
    publicKey := (FixedBytes.zero 65).overwrite (P.x25519PublicFromPrivate scriptPrivateKey)
      x25519_le_p256
    clientHello := ch }

/-- Sending a record that is not protected. -/
theorem sendPlainRecord_script {stream : ℕ} (type : UInt8) (payload : Bytes)
    (s : System P Bytes) (hstream : s.client.config.stream = some stream)
    (hlen : payload.length ≤ 16384) :
    ∃ evs, milestones evs = [] ∧ sendPlainRecord scriptEnv type payload s =
      some (.ok (), { s with trace := s.trace ++ evs }) := by
  unfold sendPlainRecord
  rw [bind_of_ok rfl, hstream]
  dsimp only
  rw [if_neg (by omega)]
  by_cases hempty : payload.length = 0
  · refine ⟨[.wrote ([type, 3, 3] ++ storeBe16 payload.length)], rfl, ?_⟩
    rw [bind_of_ok (a := ()) rfl, if_neg (by omega)]
    rfl
  · refine ⟨[.wrote ([type, 3, 3] ++ storeBe16 payload.length), .wrote payload], rfl, ?_⟩
    rw [bind_of_ok (a := ()) rfl, if_pos (by omega)]
    show some (_, _) = some (_, _)
    simp

/-- The key share of the script, with zeros for random bytes. -/
theorem generateKeyShare_script (s : System P Bytes)
    (hplatform : s.client.config.platform = some 0) :
    generateKeyShare scriptEnv (fun e => e) .x25519 s =
      some (.ok 32, { s with client := { s.client with
        privateKey := scriptPrivateKey
        publicKey := s.client.publicKey.overwrite (P.x25519PublicFromPrivate scriptPrivateKey)
          (by decide) } }) := by
  unfold generateKeyShare
  rw [if_neg (by decide), if_pos rfl]
  refine bind_of_ok (a := ()) ?_
  unfold generateX25519
  rw [bind_of_ok rfl, hplatform]
  rfl

/-- Sending the ClientHello of the script. -/
theorem sendClientHello_script {ch : Bytes} (hch : buildClientHello (scriptParams P) 2048 = .ok ch)
    (hlen : ch.length ≤ 2048) (s : System P Bytes) (hstream : s.client.config.stream = some 0) :
    succeeds (sendClientHello scriptEnv (scriptParams P))
      (fun _ s' => s'.client = { s.client with
          clientHello := ch
          transcript := transcriptUpdate P s.client.transcript ch } ∧
        s'.world = s.world ∧ milestones s'.trace =
          milestones s.trace ++ [.clientHello (scriptParams P) ch]) s := by
  unfold sendClientHello
  rw [hch]
  dsimp only
  refine succeeds_bind (succeeds_modifyClient (succeeds_bind (succeeds_modifyClient ?_)))
  obtain ⟨evs, hevs, hsend⟩ := sendPlainRecord_script contentHandshake ch
    { s with client := { s.client with
        clientHello := ch
        transcript := transcriptUpdate P s.client.transcript ch } } hstream (by omega)
  refine succeeds_bind (succeeds_of_eq (orFail_of_ok _ hsend) (succeeds_emit ⟨rfl, rfl, ?_⟩))
  dsimp only
  rw [milestones_append, milestones_append, hevs, List.append_nil]
  rfl

/-- From the random bytes to the ClientHello on the wire. -/
theorem startHello_script (padding : ℕ) (w : Bytes) :
    ∃ ch, buildClientHello (scriptParams P) 2048 = .ok ch ∧
      succeeds (startHello scriptEnv (scriptConfig padding))
        (fun h s' => h = ⟨.zero 32, .x25519, scriptParams P, false⟩ ∧
          s'.client = clientAfterHello P padding ch ∧ s'.world = w ∧
          milestones s'.trace = [.clientHello (scriptParams P) ch])
        ⟨beginConnect (scriptConfig padding) (.initial P), w,
          [.connect (scriptConfig padding)]⟩ := by
  obtain ⟨ch, hch, hlen⟩ := buildClientHello_script P
  refine ⟨ch, hch, ?_⟩
  unfold startHello
  refine succeeds_bind (succeeds_deref rfl ?_)
  refine succeeds_bind (succeeds_of_eq (orFail_of_ok _ (a := FixedBytes.zero 32) rfl) ?_)
  refine succeeds_bind (succeeds_of_eq (orFail_of_ok _ (a := FixedBytes.zero 32) rfl) ?_)
  refine succeeds_bind (succeeds_of_eq (generateKeyShare_script _ rfl) ?_)
  refine succeeds_bind (succeeds_getClient ?_)
  have hshare : ((beginConnect (scriptConfig padding) (TlsClient.initial P)).publicKey.overwrite
      (P.x25519PublicFromPrivate scriptPrivateKey) (by decide)).val.take 32 =
      (scriptParams P).keyShare :=
    FixedBytes.take_overwrite _ _ _
  dsimp only
  rw [hshare]
  refine succeeds_bind_of_spec (sendClientHello_script hch hlen _ rfl) ?_
  rintro _ s' ⟨hclient, hworld, htrace⟩
  refine succeeds_bind (succeeds_modifyClient ?_)
  rw [succeeds_pure]
  refine ⟨rfl, ?_, hworld, htrace⟩
  rw [hclient, transcriptUpdate_eq]
  rfl

/-! ## The ServerHello -/

/-- An empty deframer of the client's size. -/
theorem deframer_eq_empty {d : HandshakeDeframer} (hcapacity : d.capacity = 32768)
    (hbuffer : d.buffer = []) : d = .empty 32768 := by
  obtain ⟨capacity, buffer, bound⟩ := d
  subst hcapacity hbuffer
  rfl

/-- Putting content into an empty deframer of the client's size. -/
theorem appendFragment_script (stage : Stage) (content : Bytes) (s : System P Bytes)
    (hdeframer : s.client.deframer = .empty 32768) (hlen : content.length ≤ 32768) :
    succeeds (appendFragment stage content)
      (fun _ s' => (∃ d, d.capacity = 32768 ∧ d.buffer = content ∧
          s'.client = { s.client with deframer := d }) ∧
        s'.world = s.world ∧
        milestones s'.trace = milestones s.trace ++ milestones [.fragment stage [] content]) s := by
  have hempty : s.client.deframer.buffer = [] := by rw [hdeframer]; rfl
  have hroom : s.client.deframer.buffer.length + content.length ≤ s.client.deframer.capacity := by
    rw [hempty, hdeframer]
    exact (Nat.zero_add _).trans_le hlen
  obtain ⟨d, hcapacity, hd, happend⟩ := appendFragment_run stage hroom
  rw [hempty] at happend hd
  rw [hdeframer] at hcapacity
  exact succeeds_of_eq happend ⟨⟨d, hcapacity, hd, rfl⟩, rfl, milestones_append _ _⟩

/-- The record of the ServerHello goes to the deframer. -/
theorem readHelloRecord_script (rest : Bytes) (s : System P Bytes)
    (hstream : s.client.config.stream = some 0) (hdeframer : s.client.deframer = .empty 32768)
    (hworld : s.world = plainRecord contentHandshake scriptServerHello ++ rest) :
    succeeds (readHelloRecord scriptEnv)
      (fun _ s' => (∃ d, d.capacity = 32768 ∧ d.buffer = scriptServerHello ∧
          s'.client = { s.client with deframer := d }) ∧
        s'.world = rest ∧ milestones s'.trace = milestones s.trace) s := by
  have hlen : scriptServerHello.length = 122 := by decide +kernel
  have hread := readRecord_script contentHandshake scriptServerHello rest s hstream (by omega)
    hworld
  have hheader := parseRecordHeader_header contentHandshake scriptServerHello.length (by omega)
    scriptServerHello
  have hslice : slice ([contentHandshake, 3, 3] ++ storeBe16 scriptServerHello.length ++
      scriptServerHello) 5 scriptServerHello.length = scriptServerHello := by
    rw [slice_append_right (n := 5) rfl]
    exact List.take_length
  unfold readHelloRecord
  refine succeeds_bind (succeeds_of_eq (orFail_of_ok _ hread) ?_)
  refine succeeds_bind (succeeds_of_eq (orFail_of_ok _ (lift_of_ok hheader _)) ?_)
  dsimp only
  rw [if_neg (by decide), if_neg (by decide), if_neg (by decide), hslice]
  refine succeeds_onError (succeeds_mono
    (appendFragment_script .plaintext scriptServerHello _ hdeframer (by omega)) ?_)
  rintro _ s' ⟨hclient, hworld', htrace⟩
  exact ⟨hclient, hworld', htrace.trans (List.append_nil _)⟩

/-- The ServerHello is one message. -/
theorem parseHandshakeMessage_serverHello :
    parseHandshakeMessage scriptServerHello =
      .ok (⟨hsServerHello, scriptServerHello.drop 4, scriptServerHello⟩, 122) := by
  decide +kernel

/-- The ServerHello of the script is read. -/
theorem parseServerHello_script :
    parseServerHello scriptServerHello = .ok scriptServerHelloInfo := by
  decide +kernel

/-- Taking the ServerHello out of the deframer. -/
theorem consumeHello_script (s : System P Bytes)
    (hcapacity : s.client.deframer.capacity = 32768)
    (hbuffer : s.client.deframer.buffer = scriptServerHello) :
    consumeHello scriptEnv s =
      some (.ok (), { s with client := { s.client with deframer := .empty 32768 } }) := by
  have hconsume : consumeMessage s =
      some (.ok (), { s with client := { s.client with deframer := .empty 32768 } }) := by
    have hparse : s.client.deframer.consume = .ok (.empty 32768) := by
      have hmessage := parseHandshakeMessage_serverHello
      rw [← hbuffer] at hmessage
      unfold HandshakeDeframer.consume
      rw [hmessage, except_ok_bind]
      exact congrArg Except.ok (deframer_eq_empty hcapacity (by
        dsimp only
        rw [hbuffer]
        decide +kernel))
    unfold consumeMessage
    rw [bind_of_ok rfl, hparse]
    rfl
  unfold consumeHello
  rw [bind_of_ok (a := Except.ok ()) (by unfold attempt; rw [hconsume])]
  rfl

/-- The hello loop accepts the ServerHello of the script. -/
theorem helloLoop_script (fuel : ℕ) (padding : ℕ) (ch rest : Bytes) (s : System P Bytes)
    (hclient : s.client = clientAfterHello P padding ch)
    (hworld : s.world = plainRecord contentHandshake scriptServerHello ++ rest) :
    succeeds (helloLoop scriptEnv (fuel + 2) ⟨.zero 32, .x25519, scriptParams P, false⟩)
      (fun r s' => r = (scriptServerHelloInfo, ⟨.zero 32, .x25519, scriptParams P, false⟩) ∧
        s'.client = { clientAfterHello P padding ch with
          transcript := P.shaUpdate (P.shaUpdate P.shaReset ch) scriptServerHello } ∧
        s'.world = rest ∧ milestones s'.trace =
          milestones s.trace ++ [.serverHello scriptServerHello scriptServerHelloInfo]) s := by
  have hpeek : s.client.deframer.peek = .error .bufferTooSmall := by
    rw [hclient]
    rfl
  unfold helloLoop
  refine succeeds_bind (succeeds_getClient ?_)
  rw [hpeek]
  dsimp only
  refine succeeds_bind_of_spec (readHelloRecord_script rest s (by rw [hclient]; rfl)
    (by rw [hclient]; rfl) hworld) ?_
  rintro _ s₁ ⟨⟨d, hcapacity, hbuffer, hclient₁⟩, hworld₁, htrace₁⟩
  have hd : s₁.client.deframer = d := by
    rw [hclient₁]
  have hpeek₁ : s₁.client.deframer.peek =
      .ok ⟨hsServerHello, scriptServerHello.drop 4, scriptServerHello⟩ := by
    unfold HandshakeDeframer.peek
    rw [hd, hbuffer, parseHandshakeMessage_serverHello, except_ok_bind]
    rfl
  unfold helloLoop
  refine succeeds_bind (succeeds_getClient ?_)
  rw [hpeek₁]
  dsimp only
  rw [if_neg (by decide)]
  refine succeeds_bind (succeeds_of_eq
    (orFail_of_ok _ (lift_of_ok parseServerHello_script _)) ?_)
  rw [if_neg (by decide), if_neg (by decide)]
  refine succeeds_bind (succeeds_modifyClient ?_)
  refine succeeds_bind (succeeds_of_eq (consumeHello_script _ ?_ ?_) ?_)
  · rw [hd, hcapacity]
  · rw [hd, hbuffer]
  · refine succeeds_bind (succeeds_emit ?_)
    rw [succeeds_pure]
    refine ⟨rfl, ?_, hworld₁, ?_⟩
    · dsimp only
      rw [transcriptUpdate_eq, hclient₁, hclient]
      rfl
    · rw [milestones_append, htrace₁]
      rfl

/-! ## The handshake keys -/

/-- The client with the handshake keys. -/
def clientAfterKeys (P : Crypto) (padding : ℕ) (ch : Bytes) (schedule : KeySchedule)
    (clientHs serverHs : TrafficKeys) : TlsClient P :=
  { clientAfterHello P padding ch with
    transcript := P.shaUpdate (P.shaUpdate P.shaReset ch) scriptServerHello
    schedule := schedule
    clientHsKeys := clientHs
    serverHsKeys := serverHs }

/-- The client gets its handshake keys whenever the key agreement works. -/
theorem deriveHandshakeKeys_script (hP : KeyAgreementWorks P) (padding : ℕ) (ch : Bytes) :
    ∃ shared schedule clientHs serverHs,
      P.x25519SharedSecret scriptPrivateKey scriptKeyShare = .ok shared ∧ ∀ s : System P Bytes,
      s.client = { clientAfterHello P padding ch with
        transcript := P.shaUpdate (P.shaUpdate P.shaReset ch) scriptServerHello } →
      succeeds (deriveHandshakeKeys scriptEnv scriptServerHelloInfo .x25519)
        (fun _ s' => s'.client = clientAfterKeys P padding ch schedule clientHs serverHs ∧
          s'.world = s.world ∧
          milestones s'.trace = milestones s.trace ++
            [.sharedSecret scriptPrivateKey shared, .readKeysChanged .handshake []]) s := by
  obtain ⟨shared, hshared⟩ := hP
  have hcompute : computeShared (P := P) scriptPrivateKey scriptServerHelloInfo = .ok shared := by
    unfold computeShared
    rw [if_pos (by decide)]
    exact hshared
  obtain ⟨schedule, hschedule⟩ :=
    (KeySchedule.zero.deriveEarlySecret P []).deriveHandshakeSecret_isOk
    P shared.val (P.shaFinal (P.shaUpdate (P.shaUpdate P.shaReset ch) scriptServerHello))
  obtain ⟨clientHs, hclientHs, -⟩ := deriveTrafficKeysSha256_isOk P
    schedule.clientHandshakeTrafficSecret
  obtain ⟨serverHs, hserverHs, -⟩ := deriveTrafficKeysSha256_isOk P
    schedule.serverHandshakeTrafficSecret
  refine ⟨shared, schedule, clientHs, serverHs, hshared, ?_⟩
  rintro ⟨c, w, trace⟩ hclient
  dsimp only at hclient
  subst hclient
  unfold deriveHandshakeKeys
  refine succeeds_bind (succeeds_getClient (succeeds_bind (succeeds_modifyClient ?_)))
  rw [if_neg (by decide)]
  refine succeeds_bind (succeeds_getClient (succeeds_bind (succeeds_of_eq
    (orFail_of_ok _ (lift_of_ok hcompute _)) ?_)))
  refine succeeds_bind (succeeds_emit (succeeds_bind (succeeds_modifyClient
    (succeeds_bind (succeeds_getClient ?_)))))
  refine succeeds_bind (succeeds_of_eq (orFail_of_ok _ (lift_of_ok hschedule _)) ?_)
  refine succeeds_bind (succeeds_modifyClient ?_)
  refine succeeds_bind (succeeds_of_eq (orFail_of_ok _ (deriveKeys_run .clientHs hclientHs _)) ?_)
  refine succeeds_bind (succeeds_of_eq (orFail_of_ok _ (deriveKeys_run .serverHs hserverHs _)) ?_)
  refine succeeds_emit ⟨rfl, rfl, ?_⟩
  dsimp only
  simp only [afterDerive, milestones, List.filter_append, List.append_assoc]
  rfl

/-! ## The flight -/

/-- A Finished message with these verify data. -/
def finishedMessage (verifyData : FixedBytes 32) : HandshakeMessage :=
  ⟨hsFinished, verifyData.val, [hsFinished, 0, 0, 32] ++ verifyData.val⟩

/-- A Finished is parsed, whatever follows it. -/
theorem parseHandshakeMessage_finished (verifyData : FixedBytes 32) (extra : Bytes) :
    parseHandshakeMessage ((finishedMessage verifyData).encoded ++ extra) =
      .ok (finishedMessage verifyData, 36) := by
  obtain ⟨v, hv⟩ := verifyData
  have hbody : loadBe24 ([hsFinished, 0, 0, 32] ++ v ++ extra) 1 = 32 := by
    simp [loadBe24, byteAt]
  have hlen : ([hsFinished, 0, 0, 32] ++ v ++ extra).length = 36 + extra.length := by
    simp only [List.length_append, hv, List.length_cons, List.length_nil]
  have hmessage : ([hsFinished, 0, 0, 32] ++ v ++ extra).take 36 = [hsFinished, 0, 0, 32] ++ v := by
    rw [← show ([hsFinished, 0, 0, 32] ++ v).length = 36 by
      simp only [List.length_append, hv, List.length_cons, List.length_nil]]
    exact List.take_left
  have hslice : slice ([hsFinished, 0, 0, 32] ++ v ++ extra) 4 32 = v := by
    rw [List.append_assoc, slice_append_right (n := 4) rfl, ← hv]
    exact List.take_left
  unfold parseHandshakeMessage finishedMessage
  dsimp only
  rw [hbody, if_neg (by omega), if_neg (by omega), if_neg (by omega), hmessage, hslice]
  rfl

/-- The client after the Finished, with `extra` behind it in the deframer. -/
def clientAfterFlight (P : Crypto) (padding : ℕ) (ch : Bytes) (schedule : KeySchedule)
    (clientHs serverHs : TrafficKeys) (fin : Bytes) (d : HandshakeDeframer) : TlsClient P :=
  { clientAfterKeys P padding ch schedule clientHs serverHs with
    transcript := P.shaUpdate (P.shaUpdate (P.shaUpdate P.shaReset ch) scriptServerHello) fin
    serverHsKeys := serverHs.advance
    deframer := d }

/-- The drain loop takes the Finished and leaves what follows it. -/
theorem drainFlight_script (fuel : ℕ) (verifyData : FixedBytes 32) (extra : Bytes)
    (l : FlightLocals) (s : System P Bytes)
    (hbuffer : s.client.deframer.buffer = (finishedMessage verifyData).encoded ++ extra)
    (hverify : computeFinishedVerifyDataSha256 P s.client.schedule.serverHandshakeTrafficSecret
      (P.shaFinal s.client.transcript) = .ok verifyData) :
    succeeds (drainFlight scriptEnv (fuel + 1) l)
      (fun l' s' => l' = { l with gotFinished := true } ∧
        (∃ d, d.capacity = s.client.deframer.capacity ∧ d.buffer = extra ∧
          s'.client = { s.client with
            transcript := P.shaUpdate s.client.transcript (finishedMessage verifyData).encoded
            deframer := d }) ∧
        s'.world = s.world ∧
        milestones s'.trace = milestones s.trace ++
          [.finishedVerified (P.shaFinal s.client.transcript),
            .flight (finishedMessage verifyData)]) s := by
  have hparse := parseHandshakeMessage_finished verifyData extra
  rw [← hbuffer] at hparse
  have hpeek := peek_of_parse hparse
  have hrest : s.client.deframer.buffer.drop 36 = extra := by
    have hlen : (finishedMessage verifyData).encoded.length = 36 := by
      simp only [finishedMessage, List.length_append, verifyData.property, List.length_cons,
        List.length_nil]
    rw [hbuffer, ← hlen]
    exact List.drop_left
  have hfin := verifyFinishedSha256_of_compute P s.client.schedule.serverHandshakeTrafficSecret
    (P.shaFinal s.client.transcript) verifyData (finishedMessage verifyData).encoded hverify
  unfold drainFlight
  refine succeeds_bind (succeeds_getClient ?_)
  rw [hpeek]
  dsimp only
  unfold handleHandshakeMessage
  rw [if_neg (by simp [finishedMessage, hsFinished, hsEncryptedExtensions]),
    if_neg (by simp [finishedMessage, hsFinished, hsCertificate]),
    if_neg (by simp [finishedMessage, hsFinished, hsCertificateVerify]),
    if_pos (show (finishedMessage verifyData).type = hsFinished from rfl)]
  unfold handleFinished
  refine succeeds_bind (succeeds_bind (succeeds_getClient (succeeds_bind
    (succeeds_lift hfin ?_))))
  refine succeeds_bind (succeeds_emit (succeeds_bind (succeeds_modifyClient
    (succeeds_bind (succeeds_emit ?_)))))
  rw [succeeds_pure]
  unfold consumeMessage
  obtain ⟨d, hcapacity, hd, hconsume⟩ := consume_of_parse hparse
  rw [hrest] at hd
  refine succeeds_bind (succeeds_bind (succeeds_getClient (succeeds_bind
    (succeeds_lift hconsume (succeeds_modifyClient ?_)))))
  rw [if_pos rfl, succeeds_pure]
  refine ⟨rfl, ⟨d, hcapacity, hd, ?_⟩, rfl, ?_⟩
  · dsimp only
    rw [transcriptUpdate_eq]
  · simp only [milestones, List.filter_append, List.append_assoc]
    rfl

/-- The flight of one record. -/
theorem flightLoop_script (fuel padding : ℕ) (ch : Bytes) (schedule : KeySchedule)
    (clientHs serverHs : TrafficKeys) (verifyData : FixedBytes 32) (extra rest : Bytes)
    (hextra : extra.length ≤ 16384) (l : FlightLocals) (hl : l.gotFinished = false)
    (s : System P Bytes)
    (hclient : s.client = clientAfterKeys P padding ch schedule clientHs serverHs)
    (hworld : s.world = sealedRecord P serverHs contentHandshake
      ((finishedMessage verifyData).encoded ++ extra) 0 ++ rest)
    (hverify : computeFinishedVerifyDataSha256 P schedule.serverHandshakeTrafficSecret
      (P.shaFinal (P.shaUpdate (P.shaUpdate P.shaReset ch) scriptServerHello)) = .ok verifyData) :
    succeeds (flightLoop scriptEnv (fuel + 2) l)
      (fun _ s' => (∃ d, d.buffer = extra ∧
          s'.client = clientAfterFlight P padding ch schedule clientHs serverHs
            (finishedMessage verifyData).encoded d) ∧
        s'.world = rest ∧
        milestones s'.trace = milestones s.trace ++
          [.fragment .handshake [] ((finishedMessage verifyData).encoded ++ extra),
            .finishedVerified
              (P.shaFinal (P.shaUpdate (P.shaUpdate P.shaReset ch) scriptServerHello)),
            .flight (finishedMessage verifyData)]) s := by
  obtain ⟨c, w, trace⟩ := s
  dsimp only at hclient hworld
  subst hclient hworld
  have hfin : (finishedMessage verifyData).encoded.length = 36 := by
    simp only [finishedMessage, List.length_append, verifyData.property, List.length_cons,
      List.length_nil]
  have hfrag : fragLength ((finishedMessage verifyData).encoded ++ extra) 0 ≤ 16640 := by
    unfold fragLength
    rw [List.length_append, hfin]
    omega
  obtain ⟨body, hbody, hrecord⟩ := sealedRecord_frame (P := P) serverHs contentHandshake
    ((finishedMessage verifyData).encoded ++ extra) 0
  unfold flightLoop
  rw [if_neg (by simp [hl])]
  unfold flightRound
  have hread := @readRecord_script P 0 contentApplicationData body rest
    (⟨clientAfterKeys P padding ch schedule clientHs serverHs,
      sealedRecord P serverHs contentHandshake ((finishedMessage verifyData).encoded ++ extra) 0 ++
        rest, trace⟩ : System P Bytes) rfl (by omega) (by rw [← hrecord])
  have hheader := parseRecordHeader_header contentApplicationData body.length (by omega) body
  rw [← hrecord] at hread hheader
  refine succeeds_bind (succeeds_bind (succeeds_of_eq hread (succeeds_bind
    (succeeds_lift hheader ?_))))
  dsimp only
  rw [if_neg (by decide), if_neg (by decide), if_neg (by decide)]
  refine succeeds_bind (succeeds_of_eq (unprotectRecord_run .serverHs contentHandshake (by decide)
    (by decide) _ 0 (⟨clientAfterKeys P padding ch schedule clientHs serverHs, rest, trace⟩ :
      System P Bytes) hfrag) ?_)
  dsimp only
  rw [if_neg (by decide), if_neg (by decide)]
  refine succeeds_bind_of_spec (appendFragment_script .handshake _ _ rfl
    (by rw [List.length_append, hfin]; omega)) ?_
  rintro _ s₁ ⟨⟨d, hcapacity, hbuffer, hclient₁⟩, hworld₁, htrace₁⟩
  refine succeeds_bind (succeeds_getClient ?_)
  have hd : s₁.client.deframer = d := by
    rw [hclient₁]
  refine succeeds_mono (drainFlight_script _ verifyData extra l s₁ (by rw [hd, hbuffer]) ?_) ?_
  · rw [hclient₁]
    exact hverify
  · rintro l' s₂ ⟨rfl, ⟨d', hcapacity', hbuffer', hclient₂⟩, hworld₂, htrace₂⟩
    unfold flightLoop
    rw [if_pos rfl, succeeds_pure]
    refine ⟨⟨d', hbuffer', ?_⟩, by rw [hworld₂, hworld₁]; rfl, ?_⟩
    · rw [hclient₂, hclient₁]
      rfl
    · rw [htrace₂, htrace₁, hclient₁]
      simp only [afterOpen, milestones, List.filter_append, List.append_assoc]
      rfl

/-! ## The application keys -/

/-- `sendProtected` before the client is connected. -/
theorem sendProtected_script (payload : Bytes) (hlen : payload.length ≤ 16384)
    (s : System P Bytes) (hstate : s.client.state = .handshaking)
    (hstream : s.client.config.stream = some 0) :
    succeeds (sendProtected scriptEnv contentHandshake payload)
      (fun _ s' => s'.client = s.client.setKeys .clientHs s.client.clientHsKeys.advance ∧
        s'.world = s.world ∧ ∃ record, milestones s'.trace =
          milestones s.trace ++ [.sealed .clientHs s.client.clientHsKeys record]) s := by
  have hcheck : checkProtect contentHandshake payload 0 16645 = .ok () := by
    unfold checkProtect
    dsimp only
    rw [if_neg (by decide), if_neg (by omega), if_neg (by omega), if_neg (by omega)]
  unfold sendProtected
  refine succeeds_bind (succeeds_getClient ?_)
  dsimp only
  rw [hstate, if_neg (by decide)]
  refine succeeds_bind (succeeds_of_eq (protectRecord_run .clientHs contentHandshake payload 0 s
    hcheck rfl) ?_)
  refine succeeds_bind (succeeds_deref (a := 0) hstream ?_)
  refine succeeds_of_eq (a := ()) rfl ⟨rfl, rfl,
    sealedRecord P (s.client.keys .clientHs) contentHandshake payload 0, ?_⟩
  simp only [afterSeal, milestones, List.filter_append, List.append_assoc]
  rfl

/-- What the script leaves behind: a connected client that has seen one message of the
encrypted flight, the Finished. -/
structure BareConnection (padding : ℕ) (keys : TrafficKeys) (th : FixedBytes 32)
    (fin : HandshakeMessage) (extra rest : Bytes) (s : System P Bytes) : Prop where
  state : s.client.state = .connected
  config : s.client.config = scriptConfig padding
  finished : ∃ verifyData, fin = finishedMessage verifyData
  keys : s.client.serverAppKeys = keys
  deframer : s.client.deframer.buffer = extra
  pending : s.client.pendingAppLength = 0
  world : s.world = rest
  milestones : ∃ ch shared clientHs record th' clientFin,
    buildClientHello (scriptParams P) 2048 = .ok ch ∧
    P.x25519SharedSecret scriptPrivateKey scriptKeyShare = .ok shared ∧
    milestones s.trace =
      [.clientHello (scriptParams P) ch, .serverHello scriptServerHello scriptServerHelloInfo,
        .sharedSecret scriptPrivateKey shared, .readKeysChanged .handshake [],
        .fragment .handshake [] (fin.encoded ++ extra), .finishedVerified th, .flight fin,
        .readKeysChanged .application extra, .sealed .clientHs clientHs record,
        .clientFinished th' clientFin]

/-- After the flight nothing can fail. -/
theorem finishHandshake_script (P : Crypto) (padding : ℕ) (ch : Bytes) (schedule : KeySchedule)
    (clientHs serverHs : TrafficKeys) (fin : Bytes) :
    ∃ keys th clientFin, ∀ (d : HandshakeDeframer) (s : System P Bytes),
      s.client = clientAfterFlight P padding ch schedule clientHs serverHs fin d →
      succeeds (finishHandshake scriptEnv)
        (fun _ s' => s'.client.config = scriptConfig padding ∧ s'.client.serverAppKeys = keys ∧
          s'.client.deframer = d ∧ s'.client.pendingAppLength = 0 ∧ s'.world = s.world ∧
          ∃ record, milestones s'.trace = milestones s.trace ++
            [.readKeysChanged .application d.buffer, .sealed .clientHs clientHs record,
              .clientFinished th clientFin]) s := by
  obtain ⟨schedule', hschedule⟩ := schedule.deriveMasterSecret_isOk P
    (P.shaFinal (P.shaUpdate (P.shaUpdate (P.shaUpdate P.shaReset ch) scriptServerHello) fin))
  obtain ⟨clientApp, hclientApp, -⟩ := deriveTrafficKeysSha256_isOk P
    schedule'.clientApplicationTrafficSecret
  obtain ⟨serverApp, hserverApp, -⟩ := deriveTrafficKeysSha256_isOk P
    schedule'.serverApplicationTrafficSecret
  obtain ⟨verifyData, hverify⟩ := computeFinishedVerifyDataSha256_isOk P
    schedule'.clientHandshakeTrafficSecret
    (P.shaFinal (P.shaUpdate (P.shaUpdate (P.shaUpdate P.shaReset ch) scriptServerHello) fin))
  have hfin : buildFinishedSha256 P schedule'.clientHandshakeTrafficSecret
      (P.shaFinal (P.shaUpdate (P.shaUpdate (P.shaUpdate P.shaReset ch) scriptServerHello) fin))
      64 = .ok ([hsFinished, 0, 0, 32] ++ verifyData.val) := by
    unfold buildFinishedSha256
    rw [if_neg (by decide), hverify]
    rfl
  refine ⟨serverApp, P.shaFinal
    (P.shaUpdate (P.shaUpdate (P.shaUpdate P.shaReset ch) scriptServerHello) fin),
    [hsFinished, 0, 0, 32] ++ verifyData.val, ?_⟩
  rintro d ⟨c, w, trace⟩ hclient
  dsimp only at hclient
  subst hclient
  unfold finishHandshake
  refine succeeds_bind (succeeds_getClient (succeeds_bind (succeeds_lift hschedule
    (succeeds_bind (succeeds_modifyClient ?_)))))
  refine succeeds_bind (succeeds_of_eq (deriveKeys_run .clientApp hclientApp _) ?_)
  refine succeeds_bind (succeeds_of_eq (deriveKeys_run .serverApp hserverApp _) ?_)
  refine succeeds_bind (succeeds_getClient (succeeds_bind (succeeds_emit (succeeds_bind
    (succeeds_lift hfin ?_)))))
  refine succeeds_bind_of_spec (sendProtected_script _
    (by simp [verifyData.property]) _ rfl rfl) ?_
  rintro _ s' ⟨hclient', hworld', record, htrace'⟩
  refine succeeds_bind (succeeds_modifyClient (succeeds_emit ?_))
  refine ⟨by rw [hclient']; rfl, by rw [hclient']; rfl, by rw [hclient']; rfl,
    by rw [hclient']; rfl, hworld', record, ?_⟩
  rw [milestones_append, htrace']
  simp only [afterDerive, milestones, List.filter_append, List.append_assoc]
  rfl

/-! ## The whole handshake -/

/-- **A ServerHello and a Finished make a connection**, whatever stands behind the Finished
in its record and whatever the server sends next. -/
theorem scripted_connect (hP : KeyAgreementWorks P) (padding : ℕ) (extra : Bytes)
    (hextra : extra.length ≤ 16384) :
    ∃ script keys th fin, fin.type = hsFinished ∧ ∀ fuel rest,
      succeeds (connect scriptEnv (fuel + 2) (scriptConfig padding))
        (fun _ s' => BareConnection padding keys th fin extra rest s')
        (System.fresh P (script ++ rest)) := by
  obtain ⟨ch, hch, -⟩ := startHello_script (P := P) padding []
  obtain ⟨shared, schedule, clientHs, serverHs, hshared, hkeys⟩ :=
    deriveHandshakeKeys_script hP padding ch
  obtain ⟨verifyData, hverify⟩ := computeFinishedVerifyDataSha256_isOk P
    schedule.serverHandshakeTrafficSecret
    (P.shaFinal (P.shaUpdate (P.shaUpdate P.shaReset ch) scriptServerHello))
  obtain ⟨keys, th', clientFin, hfinish⟩ :=
    finishHandshake_script P padding ch schedule clientHs serverHs
    (finishedMessage verifyData).encoded
  refine ⟨plainRecord contentHandshake scriptServerHello ++
    sealedRecord P serverHs contentHandshake ((finishedMessage verifyData).encoded ++ extra) 0,
    keys, P.shaFinal (P.shaUpdate (P.shaUpdate P.shaReset ch) scriptServerHello),
    finishedMessage verifyData, rfl, ?_⟩
  intro fuel rest
  unfold connect
  refine succeeds_bind (succeeds_getClient ?_)
  rw [if_neg (by simp [System.fresh, TlsClient.initial, ClientConfig.usable, scriptConfig])]
  refine succeeds_bind (succeeds_modifyClient (succeeds_bind (succeeds_emit ?_)))
  unfold connectHandshake
  obtain ⟨ch', hch', hstart⟩ := startHello_script (P := P) padding
    ((plainRecord contentHandshake scriptServerHello ++ sealedRecord P serverHs contentHandshake
      ((finishedMessage verifyData).encoded ++ extra) 0) ++ rest)
  have hsame : ch' = ch := Except.ok.inj (hch'.symm.trans hch)
  subst hsame
  refine succeeds_bind (succeeds_bind_of_spec hstart ?_)
  rintro _ s₁ ⟨rfl, hclient₁, hworld₁, htrace₁⟩
  refine succeeds_bind_of_spec (helloLoop_script fuel padding ch' _ s₁ hclient₁
    (by rw [hworld₁, List.append_assoc])) ?_
  rintro _ s₂ ⟨rfl, hclient₂, hworld₂, htrace₂⟩
  refine succeeds_bind_of_spec (hkeys s₂ hclient₂) ?_
  rintro _ s₃ ⟨hclient₃, hworld₃, htrace₃⟩
  refine succeeds_onError ?_
  unfold processServerHandshake
  refine succeeds_bind_of_spec (flightLoop_script fuel padding ch' schedule clientHs serverHs
    verifyData extra rest hextra _ rfl s₃ hclient₃ (by rw [hworld₃, hworld₂]) hverify) ?_
  rintro _ s₄ ⟨⟨d, hbuffer, hclient₄⟩, hworld₄, htrace₄⟩
  refine succeeds_mono (hfinish d s₄ hclient₄) ?_
  rintro _ s₅ ⟨hconfig, hserverApp, hdeframer, hpending, hworld₅, record, htrace₅⟩
  refine succeeds_modifyClient ⟨rfl, hconfig, ⟨_, rfl⟩, hserverApp, ?_, hpending, ?_, ch', shared,
    clientHs,
    record, th', clientFin, hch', hshared, ?_⟩
  · dsimp only
    rw [hdeframer, hbuffer]
  · exact hworld₅.trans hworld₄
  · dsimp only
    rw [htrace₅, htrace₄, htrace₃, htrace₂, htrace₁, hbuffer]
    rfl

/-- The client at the end of the script is reachable. -/
theorem scripted_reachable (hP : KeyAgreementWorks P) (padding : ℕ) (extra : Bytes)
    (hextra : extra.length ≤ 16384) :
    ∃ script keys th fin, fin.type = hsFinished ∧ ∀ rest, ∃ s,
      connect scriptEnv 2 (scriptConfig padding) (System.fresh P (script ++ rest)) =
        some (.ok (), s) ∧
      Run scriptEnv (System.fresh P (script ++ rest)) [(.connect (scriptConfig padding), .ok [])]
        s ∧ BareConnection padding keys th fin extra rest s := by
  obtain ⟨script, keys, th, fin, htype, hconnect⟩ := scripted_connect hP padding extra hextra
  refine ⟨script, keys, th, fin, htype, fun rest => ?_⟩
  obtain ⟨_, s, hrun, hbare⟩ := hconnect 0 rest
  refine ⟨s, hrun, ?_, hbare⟩
  have hnil := Run.nil (E := scriptEnv) (System.fresh P (script ++ rest))
  exact hnil.snoc ⟨2, bind_of_ok hrun⟩

end XboxTls.Analysis
