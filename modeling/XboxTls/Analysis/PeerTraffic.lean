import XboxTls.Analysis.ScriptedHandshake
import XboxTls.Analysis.Steady
import XboxTls.Interface.PeerTraffic

/-!
# The client and the messages of its peer

Whole messages in a record are processed one by one, whatever is written in answer to them:
every KeyUpdate replaces the read keys once, and nothing is left in the deframer.
-/

set_option autoImplicit false

namespace XboxTls.Analysis

open Programs Programs.Prog XboxTls.Model XboxTls.Interface

variable {P : Crypto} {W : Type}

/-! ## Messages -/

/-- The first message stands before the others. -/
theorem encodeMessages_cons (m : PostMessage) (messages : List PostMessage) :
    encodeMessages (m :: messages) = m.encode ++ encodeMessages messages :=
  List.flatMap_cons

/-- A framed body is parsed as it was framed. -/
theorem parseHandshakeMessage_frame (t : UInt8) (body rest : Bytes) (h : body.length ≤ 0xFFFFFF) :
    parseHandshakeMessage ([t] ++ storeBe24 body.length ++ body ++ rest) =
      .ok (⟨t, body, [t] ++ storeBe24 body.length ++ body⟩, body.length + 4) := by
  have hlength : loadBe24 ([t] ++ storeBe24 body.length ++ body ++ rest) 1 = body.length := by
    simp only [loadBe24, byteAt, storeBe24, List.cons_append, List.nil_append,
      List.getD_cons_succ, List.getD_cons_zero, UInt8.toNat_ofNat']
    omega
  have hframe : ([t] ++ storeBe24 body.length).length = 4 := rfl
  have htotal : ([t] ++ storeBe24 body.length ++ body).length = body.length + 4 := by
    rw [List.length_append, hframe, Nat.add_comm]
  unfold parseHandshakeMessage
  dsimp only
  rw [hlength, if_neg, if_neg (by omega), if_neg]
  · have hbody : slice ([t] ++ storeBe24 body.length ++ body ++ rest) 4 body.length = body := by
      rw [List.append_assoc, slice_append_right hframe, List.take_left]
    have hencoded : ([t] ++ storeBe24 body.length ++ body ++ rest).take (body.length + 4) =
        [t] ++ storeBe24 body.length ++ body := by
      rw [← htotal, List.take_left]
    rw [hbody, hencoded]
    rfl
  · rw [List.length_append, htotal]
    omega
  · rw [List.length_append, htotal]
    omega

/-- A message at the front of others. -/
theorem parseHandshakeMessage_post (m : PostMessage) (rest : Bytes)
    (h : m.encode.length ≤ 0xFFFFFF) :
    parseHandshakeMessage (m.encode ++ rest) =
      .ok (m.message, m.encode.length) := by
  cases m with
  | newSessionTicket body =>
    have hlength : (PostMessage.newSessionTicket body).encode.length = body.length + 4 := by
      show ([hsNewSessionTicket] ++ storeBe24 body.length ++ body).length = _
      rw [List.length_append, Nat.add_comm]
      rfl
    rw [hlength] at h ⊢
    exact parseHandshakeMessage_frame hsNewSessionTicket body rest (by omega)
  | keyUpdate requestUpdate =>
    have hframe := parseHandshakeMessage_frame hsKeyUpdate [if requestUpdate then 1 else 0] rest
      (by rw [List.length_singleton]; omega)
    have hencode : [hsKeyUpdate] ++ storeBe24 [if requestUpdate then (1 : UInt8) else 0].length ++
        [if requestUpdate then 1 else 0] = (PostMessage.keyUpdate requestUpdate).encode := by
      cases requestUpdate <;> decide
    rw [hencode] at hframe
    exact hframe

/-- A message has its header at least. -/
theorem encode_length_pos (m : PostMessage) : 4 ≤ m.encode.length := by
  cases m with
  | newSessionTicket body =>
    show 4 ≤ ([hsNewSessionTicket] ++ storeBe24 body.length ++ body).length
    rw [List.length_append]
    exact Nat.le_add_right 4 _
  | keyUpdate requestUpdate =>
    show 4 ≤ 5
    omega

/-! ## What reading and writing leave alone -/

/-- Neither the state nor the configuration nor the application data changed. -/
structure Untouched (s s' : System P W) : Prop where
  state : s'.client.state = s.client.state
  config : s'.client.config = s.client.config
  pendingApp : s'.client.pendingApp = s.client.pendingApp
  pendingAppOffset : s'.client.pendingAppOffset = s.client.pendingAppOffset
  pendingAppLength : s'.client.pendingAppLength = s.client.pendingAppLength

/-- Nothing was touched. -/
theorem Untouched.refl (s : System P W) : Untouched s s := ⟨rfl, rfl, rfl, rfl, rfl⟩

/-- One change after the other touched nothing. -/
theorem Untouched.trans {s s' s'' : System P W} (h : Untouched s s') (h' : Untouched s' s'') :
    Untouched s s'' :=
  ⟨h'.state.trans h.state, h'.config.trans h.config, h'.pendingApp.trans h.pendingApp,
    h'.pendingAppOffset.trans h.pendingAppOffset, h'.pendingAppLength.trans h.pendingAppLength⟩

/-- The events of reading. -/
def readEvent : Event → Bool
  | .fragment _ _ _ | .readKeysChanged _ _ | .postHandshake _ | .keysDerived .serverApp _
  | .opened .serverApp _ _ => true
  | _ => false

/-- The events of an answer. -/
def writeEvent : Event → Bool
  | .sealed .clientApp _ _ | .wrote _ | .keysDerived .clientApp _ => true
  | _ => false

/-- Reading: the direction to the peer and the outside world stay as they are. -/
structure ReadStep (s s' : System P W) : Prop extends Untouched s s' where
  world : s'.world = s.world
  write : writeTraffic s'.client = writeTraffic s.client
  trace : ∃ evs, s'.trace = s.trace ++ evs ∧ ∀ ev ∈ evs, readEvent ev = true

/-- Answering: the direction from the peer and the deframer stay as they are. -/
structure WriteStep (s s' : System P W) : Prop extends Untouched s s' where
  deframer : s'.client.deframer = s.client.deframer
  read : readTraffic s'.client = readTraffic s.client
  trace : ∃ evs, s'.trace = s.trace ++ evs ∧ ∀ ev ∈ evs, writeEvent ev = true

/-- A read event changes nothing else. -/
theorem readStep_emit (s : System P W) {e : Event} (h : readEvent e = true) :
    ReadStep s { s with trace := s.trace ++ [e] } :=
  ⟨⟨rfl, rfl, rfl, rfl, rfl⟩, rfl, rfl, [e], rfl, by simpa using h⟩

/-- Another content of the deframer is a step of reading. -/
theorem readStep_deframer (s : System P W) (d : HandshakeDeframer) :
    ReadStep s { s with client := { s.client with deframer := d } } :=
  ⟨⟨rfl, rfl, rfl, rfl, rfl⟩, rfl, rfl, [], by simp, by simp⟩

/-- The system after the read keys were replaced. -/
def afterReadUpdate (s : System P W) : System P W :=
  { s with
    client := { s.client with
      schedule := { s.client.schedule with
        serverApplicationTrafficSecret := ((readTraffic s.client).update P).secret }
      serverAppKeys := ((readTraffic s.client).update P).keys }
    trace := s.trace ++ [.keysDerived .serverApp ((readTraffic s.client).update P).keys] }

/-- The update of the server's keys always succeeds. -/
theorem updateServerKeys_run (s : System P W) :
    (updateServerKeys : ClientM P W Unit) s = some (.ok (), afterReadUpdate s) := by
  have hupdate : updateTrafficSecretSha256 P s.client.schedule.serverApplicationTrafficSecret = _ :=
    updateTrafficSecretSha256_eq P (readTraffic s.client)
  unfold updateServerKeys
  rw [bind_of_ok rfl, bind_of_ok (lift_of_ok hupdate s)]
  rfl

/-- The events of a KeyUpdate of five bytes at the front of the deframer. -/
def keyUpdateEvents (s : System P W) : List Event :=
  [.keysDerived .serverApp ((readTraffic s.client).update P).keys,
    .readKeysChanged .application (s.client.deframer.buffer.drop 5)]

/-- The system after it took effect. -/
def afterKeyUpdate (s : System P W) : System P W :=
  { afterReadUpdate s with trace := s.trace ++ keyUpdateEvents s }

/-- A KeyUpdate is a step of reading. -/
theorem readStep_afterKeyUpdate (s : System P W) : ReadStep s (afterKeyUpdate s) :=
  ⟨⟨rfl, rfl, rfl, rfl, rfl⟩, rfl, rfl, keyUpdateEvents s, rfl,
    by simp [readEvent, keyUpdateEvents]⟩

/-- The system after the write keys were replaced. -/
def afterWriteUpdate (s : System P W) : System P W :=
  { s with
    client := { s.client with
      schedule := { s.client.schedule with
        clientApplicationTrafficSecret := ((writeTraffic s.client).update P).secret }
      clientAppKeys := ((writeTraffic s.client).update P).keys }
    trace := s.trace ++ [.keysDerived .clientApp ((writeTraffic s.client).update P).keys] }

/-- The update of the client's keys always succeeds. -/
theorem updateClientKeys_run (s : System P W) :
    (updateClientKeys : ClientM P W Unit) s = some (.ok (), afterWriteUpdate s) := by
  have hupdate : updateTrafficSecretSha256 P s.client.schedule.clientApplicationTrafficSecret = _ :=
    updateTrafficSecretSha256_eq P (writeTraffic s.client)
  unfold updateClientKeys
  rw [bind_of_ok rfl, bind_of_ok (lift_of_ok hupdate s)]
  rfl

/-! ## Writing -/

/-- The system after a record was sealed and written; the outside world is now `w`. -/
def afterSend (s : System P W) (record : Bytes) (w : W) : System P W :=
  { client := s.client.setKeys .clientApp s.client.clientAppKeys.advance
    world := w
    trace := s.trace ++ [.sealed .clientApp s.client.clientAppKeys record, .wrote record] }

/-- A connected client whose outside world takes the record. -/
theorem sendProtected_run {E : Env W} {stream : ℕ} {t : UInt8} {payload : Bytes} {w : W}
    (s : System P W) (hstate : s.client.state = .connected)
    (hstream : s.client.config.stream = some stream)
    (hcheck : checkProtect t payload 0 16645 = .ok ())
    (hmemory : (E.malloc (payload.length + 1 + 0) s.world).1 = true)
    (hwrite : E.sendAll stream (sealedRecord P s.client.clientAppKeys t payload 0)
      (E.malloc (payload.length + 1 + 0) s.world).2 = some (.ok (), w)) :
    sendProtected E t payload s =
      some (.ok (), afterSend s (sealedRecord P s.client.clientAppKeys t payload 0) w) := by
  have hseal : protectRecord E .clientApp t payload 0 s =
      some (.ok (sealedRecord P s.client.clientAppKeys t payload 0), _) :=
    protectRecord_run .clientApp t payload 0 s hcheck hmemory
  have hderef : ∀ s₁ : System P W, (deref s.client.config.stream : ClientM P W ℕ) s₁ =
      some (.ok stream, s₁) := by
    intro s₁
    rw [hstream]
    rfl
  unfold sendProtected
  rw [bind_of_ok rfl, if_pos hstate, bind_of_ok hseal, bind_of_ok (hderef _)]
  simp only [writeStream, bind_apply, callWorld, afterSeal, hwrite, emit, afterSend,
    List.append_assoc]
  rfl

/-- The answer to a KeyUpdate that requests one. -/
def answer (E : Env W) : ClientM P W Unit := do
  sendProtected E contentHandshake (keyUpdateMessage false)
  updateClientKeys

/-- The answer to a KeyUpdate is a step of writing. -/
theorem writeStep_answered (s : System P W) (record : Bytes) (w : W) :
    WriteStep s (afterWriteUpdate (afterSend s record w)) :=
  ⟨⟨rfl, rfl, rfl, rfl, rfl⟩, rfl, rfl, [.sealed .clientApp s.client.clientAppKeys record,
    .wrote record, .keysDerived .clientApp ((writeTraffic s.client).update P).keys], by
      simp only [afterWriteUpdate, afterSend, List.append_assoc]
      rfl, by simp [writeEvent]⟩

/-! ## Processing whole messages -/

section Processing

variable (E : Env W) {K : System P W → Prop}
variable (hread : ∀ s s', ReadStep s s' → K s → K s')
variable (hanswer : ∀ s, s.client.state = .connected → K s →
  ∃ s', answer E s = some (.ok (), s') ∧ WriteStep s s' ∧ K s')

/-- What the messages leave behind. -/
structure Processed (messages : List PostMessage) (s s' : System P W) : Prop
    extends Untouched s s' where
  capacity : s'.client.deframer.capacity = s.client.deframer.capacity
  read : readTraffic s'.client =
    (Traffic.update P)^[(Content.handshake messages).keyUpdates] (readTraffic s.client)
  trace : ∃ evs, s'.trace = s.trace ++ evs ∧ openedRecords .serverApp evs = [] ∧
    postMessages evs = messages.map PostMessage.message

/-- The events of reading and answering one message, before it is consumed. -/
def betweenMessages (ev : Event) : Bool :=
  match ev with
  | .opened .serverApp _ _ | .postHandshake _ => false
  | _ => true

/-- Between two messages nothing is opened or handled. -/
theorem openedRecords_between {evs : List Event} (h : ∀ ev ∈ evs, betweenMessages ev = true) :
    openedRecords .serverApp evs = [] ∧ postMessages evs = [] := by
  constructor
  · unfold openedRecords
    rw [List.filterMap_eq_nil_iff]
    intro ev hev
    have hbetween := h ev hev
    cases ev with
    | opened slot _ _ => cases slot <;> first | rfl | cases hbetween
    | _ => rfl
  · unfold postMessages
    rw [List.filterMap_eq_nil_iff]
    intro ev hev
    have hbetween := h ev hev
    cases ev <;> first | rfl | cases hbetween

/-- A KeyUpdate takes effect, and is answered where that is requested. -/
theorem handleKeyUpdate_apply (requestUpdate : Bool) (s : System P W) :
    handlePostHandshake E (PostMessage.keyUpdate requestUpdate).message s =
      (if requestUpdate then answer E else pure ()) (afterKeyUpdate s) := by
  unfold handlePostHandshake handleKeyUpdate
  rw [PostMessage.type_keyUpdate, if_neg (by decide), if_pos rfl,
    PostMessage.body_keyUpdate, if_neg (by cases requestUpdate <;> decide),
    bind_of_ok (updateServerKeys_run s), bind_of_ok rfl, bind_of_ok rfl]
  have htrace : (afterReadUpdate s).trace ++ [.readKeysChanged .application
      (s.client.deframer.buffer.drop 5)] = s.trace ++ keyUpdateEvents s :=
    List.append_assoc _ _ _
  cases requestUpdate
  · exact congrArg (fun tr => some (Except.ok (), { afterReadUpdate s with trace := tr })) htrace
  · exact congrArg (fun tr => answer E { afterReadUpdate s with trace := tr }) htrace

/-- An empty deframer ends the loop. -/
theorem drainPostHandshake_empty (fuel : ℕ) {s : System P W}
    (h : s.client.deframer.buffer = []) :
    drainPostHandshake E (fuel + 1) s = some (.ok (), s) := by
  have hpeek : s.client.deframer.peek = .error .bufferTooSmall := by
    unfold HandshakeDeframer.peek
    rw [h]
    rfl
  unfold drainPostHandshake
  rw [bind_of_ok rfl, hpeek]
  rfl

include hread hanswer in
/-- One message. -/
theorem handlePostHandshake_run (m : PostMessage) {s : System P W} (hs : K s)
    (hstate : s.client.state = .connected) :
    ∃ s', handlePostHandshake E m.message s = some (.ok (), s') ∧ K s' ∧ Untouched s s' ∧
      s'.client.deframer = s.client.deframer ∧
      readTraffic s'.client = (Traffic.update P)^[(Content.handshake [m]).keyUpdates]
        (readTraffic s.client) ∧
      ∃ evs, s'.trace = s.trace ++ evs ∧ ∀ ev ∈ evs, betweenMessages ev = true := by
  cases m with
  | newSessionTicket body =>
    refine ⟨s, ?_, hs, Untouched.refl s, rfl, rfl, [], by simp, by simp⟩
    unfold handlePostHandshake
    rw [PostMessage.type_newSessionTicket, if_pos rfl]
    rfl
  | keyUpdate requestUpdate =>
    have hbranch := handleKeyUpdate_apply E requestUpdate s
    have hstep := readStep_afterKeyUpdate s
    have hK := hread _ _ hstep hs
    cases requestUpdate with
    | false =>
      exact ⟨afterKeyUpdate s, hbranch, hK, hstep.toUntouched, rfl, rfl, keyUpdateEvents s, rfl,
        by simp [betweenMessages, keyUpdateEvents]⟩
    | true =>
      obtain ⟨s', hrun, hwrite, hs'⟩ := hanswer (afterKeyUpdate s) hstate hK
      obtain ⟨evs, htrace, hevs⟩ := hwrite.trace
      refine ⟨s', hbranch.trans hrun, hs', hstep.toUntouched.trans hwrite.toUntouched,
        hwrite.deframer, hwrite.read, keyUpdateEvents s ++ evs, ?_, ?_⟩
      · rw [htrace, ← List.append_assoc]
        rfl
      · intro ev hev
        rcases List.mem_append.mp hev with hold | hnew
        · simp only [keyUpdateEvents, List.mem_cons, List.not_mem_nil, or_false] at hold
          rcases hold with rfl | rfl <;> rfl
        · have hanswered := hevs ev hnew
          cases ev with
          | opened _ _ _ => cases hanswered
          | postHandshake _ => cases hanswered
          | _ => rfl

include hread hanswer in
/-- The messages in the deframer, one after the other. -/
theorem drainPostHandshake_run (messages : List PostMessage) (fuel : ℕ) {s : System P W}
    (hs : K s) (hstate : s.client.state = .connected)
    (hbuffer : s.client.deframer.buffer = encodeMessages messages)
    (hlength : (encodeMessages messages).length ≤ 0xFFFFFF)
    (hfuel : (encodeMessages messages).length < fuel) :
    ∃ s', drainPostHandshake E fuel s = some (.ok (), s') ∧ K s' ∧ Processed messages s s' ∧
      s'.client.deframer.buffer = [] := by
  induction messages generalizing fuel s with
  | nil =>
    obtain ⟨fuel, rfl⟩ : ∃ n, fuel = n + 1 := ⟨fuel - 1, by omega⟩
    exact ⟨s, drainPostHandshake_empty E fuel hbuffer, hs,
      ⟨Untouched.refl s, rfl, rfl, [], by simp, rfl, rfl⟩, hbuffer⟩
  | cons m messages ih =>
    obtain ⟨fuel, rfl⟩ : ∃ n, fuel = n + 1 := ⟨fuel - 1, by omega⟩
    rw [encodeMessages_cons] at hbuffer hlength hfuel
    rw [List.length_append] at hlength hfuel
    have hparse := parseHandshakeMessage_post m (encodeMessages messages) (by omega)
    rw [← hbuffer] at hparse
    have hpeek := peek_of_parse hparse
    obtain ⟨s₁, hrun₁, hs₁, huntouched₁, hdeframer₁, hread₁, evs₁, htrace₁, hevs₁⟩ :=
      handlePostHandshake_run E hread hanswer m hs hstate
    rw [← hdeframer₁] at hparse
    obtain ⟨d, hcapacity, hd, hconsume⟩ := consumeMessage_run hparse
    -- after the message is consumed, the rest of the buffer is the other messages
    have hrest : d.buffer = encodeMessages messages := by
      rw [hd, hdeframer₁, hbuffer, List.drop_left]
    have hstep₂ := readStep_deframer s₁ d
    have hstep₃ := readStep_emit { s₁ with client := { s₁.client with deframer := d } }
      (e := .postHandshake m.message) rfl
    have hpos := encode_length_pos m
    obtain ⟨s', hrun', hs', hprocessed, hempty⟩ := ih fuel
      (s := { s₁ with
        client := { s₁.client with deframer := d }
        trace := s₁.trace ++ [.postHandshake m.message] })
      (hread _ _ hstep₃ (hread _ _ hstep₂ hs₁)) (huntouched₁.state.trans hstate) hrest
      (by omega) (by omega)
    obtain ⟨evs', htrace', hopened', hpost'⟩ := hprocessed.trace
    refine ⟨s', ?_, hs', ⟨huntouched₁.trans ?_, ?_, ?_, evs₁ ++ [.postHandshake m.message] ++ evs',
      ?_, ?_, ?_⟩, hempty⟩
    · unfold drainPostHandshake
      rw [bind_of_ok rfl, hpeek]
      dsimp only
      rw [bind_of_ok hrun₁, bind_of_ok hconsume, bind_of_ok rfl]
      exact hrun'
    · exact hstep₂.toUntouched.trans (hstep₃.toUntouched.trans hprocessed.toUntouched)
    · rw [hprocessed.capacity]
      exact hcapacity.trans (by rw [hdeframer₁])
    · rw [hprocessed.read]
      rw [keyUpdates_cons, Function.iterate_add_apply]
      exact congrArg _ hread₁
    · rw [htrace', htrace₁, List.append_assoc, List.append_assoc, List.append_assoc]
    · rw [openedRecords_append, openedRecords_append, (openedRecords_between hevs₁).1, hopened']
      rfl
    · rw [postMessages_append, postMessages_append, (openedRecords_between hevs₁).2, hpost']
      rfl

include hread hanswer in
/-- **The messages of one record.**  A deframer that was empty is empty again. -/
theorem processPostHandshake_run (messages : List PostMessage) {s : System P W} (hs : K s)
    (hstate : s.client.state = .connected) (hempty : s.client.deframer.buffer = [])
    (hcapacity : s.client.deframer.capacity = 32768)
    (hlength : (encodeMessages messages).length ≤ 16384) :
    ∃ s', processPostHandshake E (encodeMessages messages) s = some (.ok (), s') ∧ K s' ∧
      Processed messages s s' ∧ s'.client.deframer.buffer = [] := by
  have hroom : s.client.deframer.buffer.length + (encodeMessages messages).length ≤
      s.client.deframer.capacity := by
    rw [hempty, List.length_nil]
    omega
  obtain ⟨d, hdcapacity, hd, happend⟩ := appendFragment_run .application hroom
  rw [hempty, List.nil_append] at hd
  have hstep₁ := readStep_deframer s d
  have hstep₂ := readStep_emit { s with client := { s.client with deframer := d } }
    (e := .fragment .application s.client.deframer.buffer (encodeMessages messages)) rfl
  obtain ⟨s', hrun, hs', hprocessed, hlast⟩ := drainPostHandshake_run E hread hanswer messages
    (d.buffer.length + 1) (s := { s with
      client := { s.client with deframer := d }
      trace := s.trace ++
        [.fragment .application s.client.deframer.buffer (encodeMessages messages)] })
    (hread _ _ hstep₂ (hread _ _ hstep₁ hs)) hstate hd (by omega) (by rw [hd]; omega)
  obtain ⟨evs, htrace, hopened, hpost⟩ := hprocessed.trace
  refine ⟨s', ?_, hs', ⟨hstep₁.toUntouched.trans (hstep₂.toUntouched.trans
    hprocessed.toUntouched), hprocessed.capacity.trans hdcapacity, hprocessed.read,
    [.fragment .application s.client.deframer.buffer (encodeMessages messages)] ++ evs, ?_, ?_,
    ?_⟩, hlast⟩
  · unfold processPostHandshake
    rw [bind_of_ok happend]
    exact hrun
  · rw [htrace, List.append_assoc]
  · rw [openedRecords_append, hopened]
    rfl
  · rw [postMessages_append, hpost]
    rfl

end Processing

/-! ## One record of `recv` -/

section Records

variable (E : Env W)

/-- What `recv` does with a record. -/
def handleRecord (size fuel : ℕ) (record : Bytes) : ClientM P W Bytes := do
  let rh ← orFail E (Prog.lift (parseRecordHeader record))
  if rh.type = contentChangeCipherSpec then do
    emit (.changeCipherSpec .application record)
    recvRecords E size fuel
  else if rh.type ≠ contentApplicationData then failWith E .badRecord
  else do
    let (inner, content) ← orFail E (unprotectRecord .serverApp record)
    if inner = contentApplicationData then recvData E content size
    else if inner = contentAlert then recvAlert E content
    else if inner = contentHandshake then do
      orFail E (processPostHandshake E content)
      recvRecords E size fuel
    else failWith E .badRecord

/-- One round of the loop of `recv`. -/
theorem recvRecords_succ (size fuel : ℕ) : recvRecords (P := P) E size (fuel + 1) = (do
    let record ← orFail E (readRecord E 16645)
    handleRecord E size fuel record) := rfl

variable {t : UInt8} {content : Bytes} {padding : ℕ} (s : System P W)

/-- A record that was sealed with the keys that the client reads with is opened. -/
theorem handleRecord_sealed (size fuel : ℕ) (hlo : 20 ≤ t) (hhi : t ≤ 23)
    (hfrag : content.length + 1 + padding + 16 ≤ 16640) :
    handleRecord E size fuel (sealedRecord P s.client.serverAppKeys t content padding) s =
      (if t = contentApplicationData then recvData E content size
      else if t = contentAlert then recvAlert E content
      else if t = contentHandshake then do
        orFail E (processPostHandshake E content)
        recvRecords E size fuel
      else failWith E .badRecord)
        (afterOpen s .serverApp (sealedRecord P s.client.serverAppKeys t content padding)) := by
  obtain ⟨body, hbody, hrecord⟩ := sealedRecord_frame (P := P) s.client.serverAppKeys t content
    padding
  have hheader := parseRecordHeader_header contentApplicationData body.length
    (by unfold fragLength at hbody; omega) body
  rw [← hrecord] at hheader
  have hopen := unprotectRecord_run .serverApp t hlo hhi content padding s hfrag
  unfold handleRecord
  rw [bind_of_ok (orFail_of_ok _ (lift_of_ok hheader _))]
  dsimp only
  rw [if_neg (by decide), if_neg (by decide)]
  exact bind_of_ok (orFail_of_ok _ hopen)

end Records

end XboxTls.Analysis
