import XboxTls.Analysis.Deframing
import XboxTls.Analysis.KeyChange
import XboxTls.Analysis.Segmentation
import XboxTls.Interface.Fragmentation
import XboxTls.Programs.Coupled

/-!
# The flight is its messages

What the client does with an encrypted flight is what it does with the messages of the flight,
one after the other (`flightLoop_messages`), when the reassembly buffer takes the records: the
loop over the records runs beside a client that gets whole messages.
-/

set_option autoImplicit false

namespace XboxTls.Analysis

open Programs Programs.Prog XboxTls.Model XboxTls.Interface

variable {P : Crypto} {W : Type} {S : Segmentation} {ended : Option Error} {E : Env W}
  {D : HandshakeDeframer} {keys : TrafficKeys} {left : Bytes} {α β : Type}

/-! ## A client beside one that gets messages -/

/-- The client over the stream and the client that gets messages differ in the deframer, the
keys of the records and the stream only. -/
structure Beside (D : HandshakeDeframer) (keys : TrafficKeys) (left : Bytes)
    (s : System P (S.State × W)) (t : System P W) : Prop where
  client : s.client = { t.client with deframer := D, serverHsKeys := keys }
  world : s.world.2 = t.world
  left : S.left s.world.1 = left

/-- The two runs agree on everything but the stream and the deframer. -/
theorem Beside.over {s : System P (S.State × W)} {t : System P W} (h : Beside D keys left s t) :
    Over s.client s.trace s.world.2 left s :=
  ⟨rfl, rfl, rfl, h.left⟩

/-- The record that a read of the handshake gets. -/
theorem Over.readRecord (ended : Option Error) (E : Env W) {c : TlsClient P}
    {trace : List Event} {w : W} {s : System P (S.State × W)} (hs : Over c trace w left s) :
    ∃ s', Model.readRecord (segmented S ended E) 16645 s =
        some ((recordOf ended c.config.stream 16645 left).1, s') ∧
      Over c trace w (recordOf ended c.config.stream 16645 left).2 s' :=
  readRecord_segmented 16645 hs

/-- Both runs read a client that differs in the deframer only. -/
theorem beside_getClient {f : TlsClient P → ClientM P (S.State × W) α}
    {g : TlsClient P → ClientM P W α}
    (hfg : ∀ c, Related (Beside D keys left) (f { c with deframer := D, serverHsKeys := keys })
      (g c)) :
    Related (Beside D keys left) (getClient >>= f) (getClient >>= g) := by
  intro s t h
  have hend := hfg t.client s t h
  rw [← h.client] at hend
  exact hend

/-- A change that leaves deframer and read keys. -/
theorem beside_modifyClient {f : TlsClient P → TlsClient P}
    (hf : ∀ c, f { c with deframer := D, serverHsKeys := keys } =
      { f c with deframer := D, serverHsKeys := keys }) :
    Related (Beside D keys left) (modifyClient f : ClientM P (S.State × W) Unit)
      (modifyClient f) := by
  intro s t h
  refine .stop (.ok ()) ⟨?_, h.world, h.left⟩
  show f s.client = _
  rw [h.client]
  exact hf t.client

/-- Events may differ. -/
theorem beside_emit (ev ev' : Event) :
    Related (Beside D keys left) (emit ev : ClientM P (S.State × W) Unit) (emit ev') :=
  fun _ _ h => .stop (.ok ()) ⟨h.client, h.world, h.left⟩

/-- A call of the world beside the stream. -/
theorem beside_callWorld (x : Prog W Error α) :
    Related (Beside D keys left) (callWorld (beside x) : ClientM P (S.State × W) α)
      (callWorld x) := by
  intro s t h
  unfold callWorld beside
  rw [h.world]
  cases x t.world with
  | none => exact .diverge
  | some out => exact .stop out.1 ⟨h.client, rfl, h.left⟩

/-- Memory is allocated beside the stream. -/
theorem beside_malloc (n : ℕ) :
    Related (Beside D keys left)
      (updateWorld ((segmented S ended E).malloc n) : ClientM P (S.State × W) Bool)
      (updateWorld (E.malloc n)) := by
  intro s t h
  unfold updateWorld segmented
  dsimp only
  rw [h.world]
  exact .stop (.ok (E.malloc n t.world).1) ⟨h.client, rfl, h.left⟩

/-- A message is hashed. -/
theorem beside_hashMessage (encoded : Bytes) :
    Related (Beside D keys left) (hashMessage encoded : ClientM P (S.State × W) Unit)
      (hashMessage encoded) :=
  beside_modifyClient fun _ => rfl

/-! ## The messages of the flight -/

/-- The verifier is asked beside the stream. -/
theorem beside_authenticateServerFlight (certificates : CertificateInfo)
    (cv : CertificateVerifyInfo) (th : FixedBytes 32) (hostname : Option CString)
    (verifier : Option ℕ) :
    Related (Beside D keys left)
      (authenticateServerFlight (segmented S ended E) certificates cv th hostname verifier :
        ClientM P (S.State × W) Unit)
      (authenticateServerFlight E certificates cv th hostname verifier) := by
  unfold authenticateServerFlight
  cases verifier with
  | none => exact related_throw _
  | some verifier =>
    cases hostname with
    | none => exact related_throw _
    | some hostname =>
      apply related_bind (related_lift _)
      intro chain
      apply related_bind (related_lift _)
      intro leaf
      apply related_bind (related_lift _)
      intro _
      apply related_bind (beside_callWorld _)
      intro _
      apply related_bind (beside_emit _ _)
      intro _
      apply related_bind (related_lift _)
      intro scheme
      apply related_bind (related_lift _)
      intro _
      apply related_bind (related_lift _)
      intro message
      apply related_bind (beside_callWorld _)
      intro _
      exact related_bind (beside_emit _ _) fun _ => beside_emit _ _

/-- The protocol name is stored. -/
theorem beside_storeAlpn (alpn : Option Bytes) :
    Related (Beside D keys left) (storeAlpn alpn : ClientM P (S.State × W) Unit)
      (storeAlpn alpn) := by
  unfold storeAlpn
  cases alpn with
  | none => exact related_pure ()
  | some alpn =>
    apply related_ite
    · intro _
      exact related_throw _
    · intro _
      exact beside_modifyClient fun _ => rfl

/-- A message is handled alike. -/
theorem beside_handleHandshakeMessage (msg : HandshakeMessage) (l : FlightLocals) :
    Related (Beside D keys left)
      (handleHandshakeMessage (segmented S ended E) msg l :
        ClientM P (S.State × W) FlightLocals)
      (handleHandshakeMessage E msg l) := by
  have hend : ∀ l' : FlightLocals, Related (Beside D keys left)
      (do hashMessage msg.encoded; emit (.flight msg); pure l' :
        ClientM P (S.State × W) FlightLocals)
      (do hashMessage msg.encoded; emit (.flight msg); pure l') := by
    intro l'
    apply related_bind (beside_hashMessage _)
    intro _
    exact related_bind (beside_emit _ _) fun _ => related_pure _
  unfold handleHandshakeMessage
  apply related_ite
  · intro _
    apply related_bind (related_lift _)
    intro ee
    exact related_bind (beside_storeAlpn _) fun _ => hend l
  intro _
  apply related_ite
  · intro _
    apply related_ite
    · intro _
      exact related_throw _
    intro _
    apply related_bind (beside_modifyClient fun _ => rfl)
    intro _
    apply related_bind (related_lift _)
    intro saved
    exact related_bind (related_lift _) fun certInfo => hend _
  intro _
  apply related_ite
  · intro _
    apply related_ite
    · intro _
      exact related_throw _
    intro _
    apply related_bind (related_lift _)
    intro cv
    apply beside_getClient
    intro c
    exact related_bind (beside_authenticateServerFlight _ _ _ _ _) fun _ => hend l
  intro _
  apply related_ite
  · intro _
    apply beside_getClient
    intro c
    apply related_bind (related_lift _)
    intro _
    exact related_bind (beside_emit _ _) fun _ => hend _
  · intro _
    exact related_throw _

/-- An alert is handled. -/
theorem beside_handleAlert (payload : Bytes) :
    Related (Beside D keys left) (handleAlert payload : ClientM P (S.State × W) Error)
      (handleAlert payload) := by
  unfold handleAlert
  apply related_ite
  · intro _
    exact related_pure _
  intro _
  apply related_bind (beside_modifyClient fun _ => rfl)
  intro _
  apply related_ite
  · intro _
    exact related_pure _
  · intro _
    exact related_pure _

/-! ## The end of the handshake -/

/-- Keys other than those that the flight is read with are derived. -/
theorem beside_deriveKeys (slot : KeySlot) (hslot : slot ≠ .serverHs) (secret : FixedBytes 32) :
    Related (Beside D keys left) (deriveKeys slot secret : ClientM P (S.State × W) Unit)
      (deriveKeys slot secret) := by
  unfold deriveKeys
  apply related_bind (related_lift _)
  intro k
  apply related_bind
  · apply beside_modifyClient
    intro c
    cases slot with
    | serverHs => exact absurd rfl hslot
    | _ => rfl
  · intro _
    exact beside_emit _ _

/-- A protected record is sent. -/
theorem beside_sendProtected (innerType : UInt8) (payload : Bytes) :
    Related (Beside D keys left)
      (sendProtected (segmented S ended E) innerType payload : ClientM P (S.State × W) Unit)
      (sendProtected E innerType payload) := by
  have hseal : ∀ slot : KeySlot, slot ≠ .serverHs → Related (Beside D keys left)
      (protectRecord (segmented S ended E) slot innerType payload 0 :
        ClientM P (S.State × W) Bytes) (protectRecord E slot innerType payload 0) := by
    intro slot hslot
    unfold protectRecord
    apply beside_getClient
    intro c
    have hkeys : TlsClient.keys { c with deframer := D, serverHsKeys := keys } slot =
        c.keys slot := by
      cases slot with
      | serverHs => exact absurd rfl hslot
      | _ => rfl
    rw [hkeys]
    apply related_bind (related_lift _)
    intro _
    apply related_bind (beside_malloc _)
    intro memory
    apply related_bind (related_lift _)
    intro rk
    apply related_bind
    · apply beside_modifyClient
      intro c
      cases slot with
      | serverHs => exact absurd rfl hslot
      | _ => rfl
    · intro _
      exact related_bind (beside_emit _ _) fun _ => related_pure _
  unfold sendProtected
  apply beside_getClient
  intro c
  apply related_bind (hseal _ ?_)
  · intro record
    apply related_bind
    · cases c.config.stream with
      | none => exact related_diverge
      | some stream => exact related_pure stream
    · intro stream
      unfold writeStream
      exact related_bind (beside_callWorld _) fun _ => beside_emit _ _
  · dsimp only
    split <;> exact KeySlot.noConfusion

/-- The end of the handshake is the same. -/
theorem beside_finishHandshake :
    Related (Beside D keys left)
      (finishHandshake (segmented S ended E) : ClientM P (S.State × W) Unit)
      (finishHandshake E) := by
  unfold finishHandshake
  apply beside_getClient
  intro c
  apply related_bind (related_lift _)
  intro schedule
  apply related_bind (beside_modifyClient fun _ => rfl)
  intro _
  apply related_bind (beside_deriveKeys _ (by decide) _)
  intro _
  apply related_bind (beside_deriveKeys _ (by decide) _)
  intro _
  apply beside_getClient
  intro c
  apply related_bind (beside_emit _ _)
  intro _
  apply related_bind (related_lift _)
  intro fin
  apply related_bind (beside_sendProtected _ _)
  intro _
  exact related_bind (beside_hashMessage _) fun _ => beside_emit _ _

/-! ## Reading -/

/-- A record at the front of the stream is read, unless its header is refused. -/
theorem recordOf_record {stream : ℕ} {record rest : Bytes} (hrecord : IsRecord record) :
    recordOf ended (some stream) 16645 (record ++ rest) =
      match parseRecordHeader record with
      | .error e => (.error e, record.drop 5 ++ rest)
      | .ok _ => (.ok record, rest) := by
  unfold IsRecord at hrecord
  have hheader : (record.take 5).length = 5 := by
    rw [List.length_take]
    omega
  have hfront : collected ended [] (record ++ rest) 5 = (.ok (record.take 5),
      record.drop 5 ++ rest) := by
    unfold collected
    rw [if_pos (by rw [List.length_append]; omega), List.nil_append,
      List.take_append_of_le_length (by omega), List.drop_append_of_le_length (by omega)]
  have hparse : parseRecordHeader record = parseRecordHeader (record.take 5) := by
    conv_lhs => rw [← List.take_append_drop 5 record]
    exact parseRecordHeader_append hheader
  have hload : loadBe16 (record.take 5) 3 = loadBe16 record 3 := by
    conv_rhs => rw [← List.take_append_drop 5 record]
    exact (loadBe16_append (by omega)).symm
  unfold recordOf
  rw [if_neg (by simp), hfront, hparse]
  dsimp only
  unfold bodyOf parseRecordHeader
  rw [hload, if_neg (by omega)]
  by_cases hlarge : loadBe16 record 3 > 16640
  · rw [if_pos hlarge]
  · rw [if_neg hlarge]
    dsimp only
    have hbody : (record.drop 5).length = loadBe16 record 3 := by
      rw [List.length_drop]
      omega
    have hall : collected ended (record.take 5) (record.drop 5 ++ rest) (loadBe16 record 3) =
        (.ok record, rest) := by
      unfold collected
      rw [if_pos (by rw [List.length_append]; omega), ← hbody, List.take_left, List.drop_left,
        List.take_append_drop]
    rw [if_neg (by omega), hall]

/-- A sealed record has a header that can be read. -/
theorem isRecord_sealedRecord (k : TrafficKeys) (t : UInt8) {content : Bytes} {padding : ℕ}
    (hfrag : fragLength content padding ≤ 16640) :
    IsRecord (sealedRecord P k t content padding) ∧
      parseRecordHeader (sealedRecord P k t content padding) =
        .ok ⟨contentApplicationData, 0x0303, fragLength content padding⟩ := by
  obtain ⟨body, hbody, hframe⟩ := sealedRecord_frame (P := P) k t content padding
  have hparse := parseRecordHeader_header contentApplicationData body.length (by omega) body
  rw [← hframe, hbody] at hparse
  refine ⟨?_, hparse⟩
  have hlength := sealedRecord_length (P := P) k t content padding
  have hload : loadBe16 (sealedRecord P k t content padding) 3 = fragLength content padding := by
    unfold parseRecordHeader at hparse
    rw [if_neg (by omega)] at hparse
    split at hparse
    · cases hparse
    · exact (RecordHeader.mk.inj (Except.ok.inj hparse)).2.2
  unfold IsRecord
  rw [hload, hlength]

variable (ended E) in
/-- The client takes a sealed record of the flight from the stream and opens it. -/
theorem flightRound_opened {stream : ℕ} {content rest : Bytes} {padding : ℕ}
    {s : System P (S.State × W)} {t : System P W} (l : FlightLocals)
    (hs : Beside D keys (sealedRecord P keys contentHandshake content padding ++ rest) s t)
    (hstream : t.client.config.stream = some stream) (hfrag : fragLength content padding ≤ 16640) :
    ∃ s' : System P (S.State × W), Beside D keys.advance rest s' t ∧
      flightRound (segmented S ended E) l s = (do
        appendFragment .handshake content
        let c ← getClient
        drainFlight (segmented S ended E) (c.deframer.buffer.length + 1) l :
          ClientM P (S.State × W) FlightLocals) s' := by
  have hclient := hs.client
  have hconfig : s.client.config.stream = some stream := by rw [hclient]; exact hstream
  obtain ⟨hrecord, hparse⟩ := isRecord_sealedRecord (P := P) keys contentHandshake hfrag
  obtain ⟨s₁, hread, hs₁⟩ := hs.over.readRecord ended E
  rw [hconfig, recordOf_record hrecord, hparse] at hread hs₁
  have hkeys : s₁.client.keys .serverHs = keys := by rw [hs₁.client, hclient]; rfl
  have hopen := unprotectRecord_run .serverHs contentHandshake (by decide) (by decide) content
    padding s₁ hfrag
  rw [hkeys] at hopen
  have hafter : (afterOpen s₁ .serverHs (sealedRecord P keys contentHandshake content
      padding)).client = { t.client with deframer := D, serverHsKeys := keys.advance } := by
    show s₁.client.setKeys .serverHs (s₁.client.keys .serverHs).advance = _
    rw [hkeys, hs₁.client, hclient]
    rfl
  refine ⟨afterOpen s₁ .serverHs (sealedRecord P keys contentHandshake content padding),
    ⟨hafter, hs₁.beside.trans hs.world, hs₁.left⟩, ?_⟩
  unfold flightRound
  rw [bind_of_ok hread, bind_of_ok (lift_of_ok hparse s₁)]
  dsimp only
  rw [if_neg (by decide), if_neg (by decide), if_neg (by decide), bind_of_ok hopen]
  dsimp only
  rw [if_neg (by decide), if_neg (by decide)]

variable (ended E) in
/-- What is in a record that fits goes to the deframer. -/
theorem flightRound_sealed {stream : ℕ} {content rest : Bytes} {padding : ℕ}
    {s : System P (S.State × W)} {t : System P W} (l : FlightLocals)
    (hs : Beside D keys (sealedRecord P keys contentHandshake content padding ++ rest) s t)
    (hstream : t.client.config.stream = some stream) (hfrag : fragLength content padding ≤ 16640)
    (hroom : D.buffer.length + content.length ≤ D.capacity) :
    ∃ (D' : HandshakeDeframer) (s' : System P (S.State × W)), D'.capacity = D.capacity ∧
      D'.buffer = D.buffer ++ content ∧ Beside D' keys.advance rest s' t ∧
      flightRound (segmented S ended E) l s =
        drainFlight (segmented S ended E) (D'.buffer.length + 1) l s' := by
  obtain ⟨s', hs', hround⟩ := flightRound_opened ended E l hs hstream hfrag
  have hdeframer : s'.client.deframer = D := by rw [hs'.client]
  obtain ⟨D', hcapacity, hbuffer, happend⟩ := appendFragment_run .handshake (hdeframer.symm ▸ hroom)
  rw [hdeframer] at hcapacity hbuffer
  refine ⟨D', { s' with
    client := { s'.client with deframer := D' }
    trace := s'.trace ++ [.fragment .handshake s'.client.deframer.buffer content] },
    hcapacity, hbuffer, ⟨?_, hs'.world, hs'.left⟩, ?_⟩
  · dsimp only
    rw [hs'.client]
  · rw [hround, bind_of_ok happend]
    rfl

variable (ended E) in
/-- A record that does not fit is refused. -/
theorem flightRound_overflow {stream : ℕ} {content rest : Bytes} {padding : ℕ}
    {s : System P (S.State × W)} {t : System P W} (l : FlightLocals)
    (hs : Beside D keys (sealedRecord P keys contentHandshake content padding ++ rest) s t)
    (hstream : t.client.config.stream = some stream) (hfrag : fragLength content padding ≤ 16640)
    (hover : D.capacity < D.buffer.length + content.length) :
    ∃ s', flightRound (segmented S ended E) l s = some (.error .bufferTooSmall, s') := by
  obtain ⟨s', hs', hround⟩ := flightRound_opened ended E l hs hstream hfrag
  have hdeframer : s'.client.deframer = D := by rw [hs'.client]
  have hbound := D.bound
  have happend : D.append content = .error .bufferTooSmall := by
    unfold HandshakeDeframer.append
    rw [dif_pos (by omega)]
  have hrefused : (appendFragment .handshake content : ClientM P (S.State × W) Unit) s' =
      some (.error .bufferTooSmall, s') := by
    unfold appendFragment
    rw [bind_of_ok rfl, hdeframer, happend]
    rfl
  exact ⟨s', hround.trans (bind_of_error hrefused)⟩

/-! ## Taking the messages -/

/-- The encoding of a message is parsed, whatever follows it. -/
theorem parseHandshakeMessage_encode (m : OutgoingMessage) (rest : Bytes) :
    parseHandshakeMessage (m.encode ++ rest) = .ok (m.received, m.encode.length) := by
  have hsome : (parseHandshakeMessage (m.encode ++ rest)).toOption =
      some (m.received, m.encode.length) := handshakeFraming.parse_encode m rest
  cases hparse : parseHandshakeMessage (m.encode ++ rest) with
  | error e =>
    rw [hparse] at hsome
    cases hsome
  | ok r =>
    rw [hparse] at hsome
    exact congrArg Except.ok (Option.some.inj hsome)

/-- What is there of an unfinished message is too little for `peek`. -/
theorem parseHandshakeMessage_unfinished {messages : List OutgoingMessage} {tail rest : Bytes}
    (h : handshakeFraming.Unfinished messages tail)
    (hrest : tail ++ rest = handshakeFraming.encodeAll messages) :
    parseHandshakeMessage tail = .error .bufferTooSmall := by
  cases messages with
  | nil =>
    obtain ⟨rfl, -⟩ := List.append_eq_nil_iff.mp hrest
    rfl
  | cons m messages =>
    have hlt : tail.length < m.encode.length := h.length_lt_head handshakeFraming hrest
    rw [Framing.encodeAll_cons] at hrest
    obtain ⟨more, hmore⟩ := List.prefix_of_prefix_length_le ⟨_, hrest⟩ ⟨_, rfl⟩ hlt.le
    refine parseHandshakeMessage_part m hmore ?_
    rintro rfl
    rw [List.append_nil] at hmore
    exact hlt.ne (congrArg List.length hmore)

/-- Behind the Finished no message is taken. -/
theorem takeFlight_finished (messages : List OutgoingMessage) {l : FlightLocals}
    (h : l.gotFinished = true) : (takeFlight E messages l : ClientM P W FlightLocals) = pure l := by
  cases messages with
  | nil => rfl
  | cons m messages =>
    unfold takeFlight
    rw [if_pos h]

/-- Messages are taken one group after the other. -/
theorem takeFlight_append (front back : List OutgoingMessage) (l : FlightLocals)
    (t : System P W) :
    takeFlight E (front ++ back) l t = (takeFlight E front l >>= takeFlight E back) t := by
  induction front generalizing l t with
  | nil => rfl
  | cons m front ih =>
    by_cases hfinished : l.gotFinished = true
    · rw [takeFlight_finished _ hfinished, takeFlight_finished _ hfinished, bind_of_ok rfl,
        takeFlight_finished _ hfinished]
    · rw [List.cons_append]
      unfold takeFlight
      rw [if_neg hfinished, if_neg hfinished, bind_assoc_apply]
      simp only [bind_apply]
      cases handleHandshakeMessage E m.received l t with
      | none => rfl
      | some out =>
        obtain ⟨r, t'⟩ := out
        cases r with
        | error e => rfl
        | ok l' => exact ih l' t'

/-- No message but the last ends the flight. -/
def EndsLast (messages : List OutgoingMessage) : Prop :=
  ∀ m ∈ messages.dropLast, m.type ≠ hsFinished

/-- The messages behind the first end with the Finished. -/
theorem EndsLast.tail {m : OutgoingMessage} {messages : List OutgoingMessage}
    (h : EndsLast (m :: messages)) : EndsLast messages := by
  cases messages with
  | nil => exact h
  | cons m' messages => exact fun m'' hm => h m'' (List.mem_cons_of_mem _ hm)

/-- The messages behind end with the Finished. -/
theorem EndsLast.back {front back : List OutgoingMessage} (h : EndsLast (front ++ back)) :
    EndsLast back := by
  induction front with
  | nil => exact h
  | cons m front ih => exact ih h.tail

/-- The Finished is at most the last of the messages in front. -/
theorem EndsLast.front {front back : List OutgoingMessage} (h : EndsLast (front ++ back)) :
    EndsLast front := by
  intro m hm
  refine h m ?_
  cases back with
  | nil => rwa [List.append_nil]
  | cons m' back =>
    rw [List.dropLast_append_of_ne_nil (List.cons_ne_nil _ _)]
    exact List.mem_append_left _ (List.dropLast_subset _ hm)

/-- Messages of other types do not end the flight. -/
theorem finished_of_takeFlight {messages : List OutgoingMessage}
    (hmessages : ∀ m ∈ messages, m.type ≠ hsFinished) {l : FlightLocals}
    (hl : l.gotFinished = false) (t : System P W) :
    wpOk (takeFlight E messages l) (fun l' _ => l'.gotFinished = false) t := by
  induction messages generalizing l t with
  | nil =>
    intro l' t' hrun
    cases hrun
    exact hl
  | cons m messages ih =>
    unfold takeFlight
    rw [if_neg (by rw [hl]; exact Bool.false_ne_true)]
    refine wpOk_bind_of_spec (finished_of_handleHandshakeMessage E m.received hl t) ?_
    intro l' t' hfinished
    refine ih (fun m' hm => hmessages m' (List.mem_cons_of_mem _ hm)) ?_ t'
    by_contra hnot
    exact hmessages m List.mem_cons_self (hfinished (by simpa using hnot))

variable (ended E) in
/-- The loop over the deframer takes the whole messages that are there. -/
theorem drainFlight_messages (front : List OutgoingMessage) {tail : Bytes}
    (htail : parseHandshakeMessage tail = .error .bufferTooSmall) (fuel : ℕ) (l : FlightLocals)
    {s : System P (S.State × W)} {t : System P W} (hs : Beside D keys left s t)
    (hl : l.gotFinished = false) (hbuffer : D.buffer = flightBytes front ++ tail)
    (hfuel : front.length < fuel) :
    Coupled (fun r s' t' => ∃ D' : HandshakeDeframer, D'.capacity = D.capacity ∧
        Beside D' keys left s' t' ∧ ∀ l', r = .ok l' →
          l'.gotFinished = false ∨ EndsLast front → D'.buffer = tail)
      (drainFlight (segmented S ended E) fuel l s) (takeFlight E front l t) := by
  induction front generalizing fuel l D s t with
  | nil =>
    obtain ⟨fuel, rfl⟩ := Nat.exists_eq_succ_of_ne_zero (Nat.ne_of_gt hfuel)
    have hpeek : s.client.deframer.peek = .error .bufferTooSmall := by
      rw [hs.client]
      unfold HandshakeDeframer.peek
      rw [hbuffer, show flightBytes [] ++ tail = tail from rfl, htail]
      rfl
    unfold drainFlight
    rw [bind_of_ok rfl, hpeek]
    exact .stop (.ok l) ⟨D, rfl, hs, fun _ _ _ => hbuffer⟩
  | cons m front ih =>
    obtain ⟨fuel, rfl⟩ := Nat.exists_eq_succ_of_ne_zero (Nat.ne_of_gt (Nat.zero_lt_of_lt hfuel))
    have hfront : D.buffer = m.encode ++ (flightBytes front ++ tail) := by
      rw [hbuffer, ← List.append_assoc]
      rfl
    have hparse : parseHandshakeMessage D.buffer = .ok (m.received, m.encode.length) := by
      rw [hfront]
      exact parseHandshakeMessage_encode m _
    have hpeek : s.client.deframer.peek = .ok m.received := by
      rw [hs.client]
      exact peek_of_parse hparse
    have hlast : wp (handleHandshakeMessage E m.received l)
        (fun r _ => ∀ l', r = .ok l' → l'.gotFinished = true → m.type = hsFinished) t := by
      rintro r t' hrun l' rfl
      exact finished_of_handleHandshakeMessage E m.received hl t l' t' hrun
    unfold drainFlight takeFlight
    rw [bind_of_ok rfl, hpeek, if_neg (by rw [hl]; exact Bool.false_ne_true)]
    dsimp only
    refine coupled_bind (((beside_handleHandshakeMessage m.received l).coupled hs).and_wp hlast)
      ?_ ?_
    · rintro l' s₁ t₁ ⟨hs₁, hlast⟩
      have hdeframer : s₁.client.deframer = D := by rw [hs₁.client]
      obtain ⟨D', hcapacity, hrest, hconsume⟩ := consumeMessage_run (hdeframer.symm ▸ hparse)
      rw [hdeframer] at hcapacity hrest
      rw [hfront, List.drop_left] at hrest
      rw [bind_of_ok hconsume]
      have hs₂ : Beside D' keys left
          { s₁ with client := { s₁.client with deframer := D' } } t₁ := by
        refine ⟨?_, hs₁.world, hs₁.left⟩
        dsimp only
        rw [hs₁.client]
      by_cases hfinished : l'.gotFinished = true
      · rw [if_pos hfinished, takeFlight_finished _ hfinished]
        refine .stop (.ok l') ⟨D', hcapacity, hs₂, ?_⟩
        intro l'' hl'' hend
        cases hl''
        -- nothing is left unread when the Finished is the last message
        cases front with
        | nil => exact hrest
        | cons m' front =>
          obtain hnot | hend := hend
          · rw [hfinished] at hnot
            cases hnot
          · exact absurd (hlast l' rfl hfinished) (hend m List.mem_cons_self)
      · rw [if_neg hfinished]
        refine (ih fuel l' hs₂ (by simpa using hfinished) hrest
          (Nat.lt_of_succ_lt_succ hfuel)).mono ?_
        rintro r s' t' ⟨D'', hcapacity', hs', hend⟩
        exact ⟨D'', hcapacity'.trans hcapacity, hs', fun l'' hl'' h =>
          hend l'' hl'' (h.imp_right EndsLast.tail)⟩
    · rintro e s₁ t₁ ⟨hs₁, -⟩
      exact ⟨D, rfl, hs₁, fun l' hl' => by cases hl'⟩

/-- Taking messages keeps the configuration. -/
theorem maintains_takeFlight (config : ClientConfig) (messages : List OutgoingMessage)
    (l : FlightLocals) :
    Maintains (fun t : System P W => t.client.config = config) (fun _ => True)
      (takeFlight E messages l) := by
  have hclosed : FlightClosed (fun t : System P W => t.client.config = config) :=
    ⟨fun _ _ h ht => h.config.trans ht, fun _ _ ht => ht, fun _ _ ht => ht⟩
  induction messages generalizing l with
  | nil => exact maintains_pure l
  | cons m messages ih =>
    unfold takeFlight
    split
    · exact maintains_pure l
    · exact maintains_bind (leads_handleHandshakeMessage E (fun _ _ => trivial) hclosed _ _
        fun _ ht => ht) fun l' => ih l'

/-- `HasRoom` in the middle of the flight, with `held` in the deframer. -/
def RoomAfter (messages : List OutgoingMessage) (held : Bytes) (cut : List FlightRecord) : Prop :=
  ∀ before r after done m todo part, cut = before ++ r :: after → messages = done ++ m :: todo →
    held ++ contents before = flightBytes done ++ part → part.length < m.encode.length →
    part.length + r.content.length ≤ 32768

/-- The bytes of more messages are those of both parts. -/
theorem flightBytes_append (a b : List OutgoingMessage) :
    flightBytes (a ++ b) = flightBytes a ++ flightBytes b :=
  List.flatMap_append

/-- Behind a record there is room for the next. -/
theorem RoomAfter.next {front back : List OutgoingMessage} {held tail : Bytes} {r : FlightRecord}
    {cut : List FlightRecord} (h : RoomAfter (front ++ back) held (r :: cut))
    (hsplit : held ++ r.content = flightBytes front ++ tail) : RoomAfter back tail cut := by
  intro before r' after done m todo part hcut hback hpart hlt
  refine h (r :: before) r' after (front ++ done) m todo part (by rw [hcut]; rfl)
    (by rw [hback, List.append_assoc]) ?_ hlt
  have hcontents : contents (r :: before) = r.content ++ contents before := rfl
  rw [hcontents, ← List.append_assoc, hsplit, List.append_assoc, hpart, flightBytes_append,
    List.append_assoc]

/-- The next record fits. -/
theorem RoomAfter.fits {messages : List OutgoingMessage} {held : Bytes} {r : FlightRecord}
    {cut : List FlightRecord} (h : RoomAfter messages held (r :: cut))
    (hflat : held ++ contents (r :: cut) = flightBytes messages) (hr : 1 ≤ r.content.length)
    (hunfinished : handshakeFraming.Unfinished messages held) :
    held.length + r.content.length ≤ 32768 := by
  cases messages with
  | nil =>
    have hnil := (List.append_eq_nil_iff.mp hflat).2
    have hcontent : r.content = [] := (List.append_eq_nil_iff.mp hnil).1
    rw [hcontent] at hr
    exact absurd hr (by decide)
  | cons m messages =>
    have hlt := hunfinished.length_lt_head handshakeFraming hflat
    exact h [] r cut [] m messages held rfl rfl (List.append_nil held) hlt

variable (ended E) in
/-- Nothing is left on the stream. -/
theorem flightRound_end {stream : ℕ} {s : System P (S.State × W)} {t : System P W}
    (l : FlightLocals) (hs : Beside D keys [] s t)
    (hstream : t.client.config.stream = some stream) :
    ∃ s', flightRound (segmented S ended E) l s = some (.error (ended.getD .closed), s') ∧
      Beside D keys [] s' t := by
  have hconfig : s.client.config.stream = some stream := by rw [hs.client]; exact hstream
  obtain ⟨s', hread, hs'⟩ := hs.over.readRecord ended E
  rw [hconfig] at hread hs'
  refine ⟨s', ?_, hs'.client.trans hs.client, hs'.beside.trans hs.world, hs'.left⟩
  unfold flightRound
  exact bind_of_error hread

/-- How the flight ends: the client and the one that got messages are side by side, the keys of
the records have counted, and the deframer has its size.  When `final` holds and the flight was
taken, the deframer is empty and `rest` is left on the stream. -/
def FlightTaken (keys : TrafficKeys) (final : Prop) (rest : Bytes) (r : Except Error α)
    (s : System P (S.State × W)) (t : System P W) : Prop :=
  ∃ (D : HandshakeDeframer) (k : TrafficKeys) (left : Bytes), D.capacity = 32768 ∧
    k.key = keys.key ∧ k.iv = keys.iv ∧ Beside D k left s t ∧
    (final → r.isOk = true → D.buffer = [] ∧ left = rest)

/-- Where `rest` follows the records of the flight: the flight loop does with it what `next` does
behind the messages `messages`. -/
def Follows (E : Env W) (ended : Option Error) (keys : TrafficKeys) (final : Prop) (rest : Bytes)
    (next : FlightLocals → ClientM P W Unit) (messages : List OutgoingMessage) (l : FlightLocals)
    (t : System P W) : Prop :=
  ∀ l' t', takeFlight E messages l t = some (.ok l', t') → l'.gotFinished = false →
    ∀ (fuel stream : ℕ) (D : HandshakeDeframer) (k : TrafficKeys) (s : System P (S.State × W)),
      0 < fuel → D.capacity = 32768 → D.buffer = [] → k.key = keys.key → k.iv = keys.iv →
      t'.client.config.stream = some stream → Beside D k rest s t' →
      Coupled (FlightTaken keys final rest) (flightLoop (segmented S ended E) fuel l' s)
        (next l' t')

/-- **The flight is its messages**, unless `A` lets a record overflow the deframer.  The induction
is on the records that are left; between two records the deframer holds an unfinished message. -/
theorem flightLoop_messages {stream : ℕ} {A final : Prop} {rest : Bytes}
    {next : FlightLocals → ClientM P W Unit} (cut : List FlightRecord)
    (messages : List OutgoingMessage) (fuel : ℕ) (l : FlightLocals)
    {s : System P (S.State × W)} {t : System P W}
    (hs : Beside D keys (sealFlight P keys cut ++ rest) s t)
    (hstream : t.client.config.stream = some stream) (hl : l.gotFinished = false)
    (hcapacity : D.capacity = 32768) (hflat : D.buffer ++ contents cut = flightBytes messages)
    (hunfinished : handshakeFraming.Unfinished messages D.buffer)
    (hroom : ¬ A → RoomAfter messages D.buffer cut) (hsize : ∀ r ∈ cut, 1 ≤ r.content.length)
    (hfrag : ∀ r ∈ cut, fragLength r.content r.padding ≤ 16640) (hfuel : cut.length < fuel)
    (hfinal : final → EndsLast messages)
    (hnext : Follows (S := S) E ended keys final rest next messages l t) :
    CoupledUnless .bufferTooSmall A False (FlightTaken keys final rest)
      (flightLoop (segmented S ended E) fuel l s) (flightOf E next messages l t) := by
  induction cut generalizing D keys messages fuel l s t with
  | nil =>
    have hempty : messages = [] := by
      cases messages with
      | nil => rfl
      | cons m messages =>
        have hlt := hunfinished.length_lt_head handshakeFraming hflat
        have hlength := congrArg List.length hflat
        rw [show contents [] = [] from rfl, List.append_nil] at hlength
        have hle : m.encode.length ≤ (flightBytes (m :: messages)).length := by
          rw [show flightBytes (m :: messages) = m.encode ++ flightBytes messages from rfl,
            List.length_append]
          omega
        exact absurd (hlength.symm ▸ hle) (Nat.not_le.mpr hlt)
    subst hempty
    unfold flightOf takeFlight
    rw [bind_of_ok rfl, if_neg (by rw [hl]; exact Bool.false_ne_true)]
    exact .inl (hnext l t rfl hl fuel stream D keys s (Nat.zero_lt_of_lt hfuel) hcapacity
      (List.append_eq_nil_iff.mp hflat).1 rfl rfl hstream hs)
  | cons r cut ih =>
    obtain ⟨fuel, rfl⟩ := Nat.exists_eq_succ_of_ne_zero (Nat.ne_of_gt (Nat.zero_lt_of_lt hfuel))
    rw [sealFlight, List.append_assoc] at hs
    by_cases hover : 32768 < D.buffer.length + r.content.length
    · obtain ⟨s₁, hround⟩ := flightRound_overflow ended E l hs hstream
        (hfrag r List.mem_cons_self) (hcapacity.trans_lt hover)
      have hA : A := by
        by_contra hA
        have hfits := (hroom hA).fits hflat (hsize r List.mem_cons_self) hunfinished
        omega
      unfold flightLoop
      rw [if_neg (by rw [hl]; exact Bool.false_ne_true), bind_of_error hround]
      exact .inr (.inl ⟨hA, s₁, rfl⟩)
    have hfits : D.buffer.length + r.content.length ≤ 32768 := Nat.le_of_not_lt hover
    obtain ⟨D', s₁, hcapacity', hbuffer', hs₁, hround⟩ := flightRound_sealed ended E l
      hs hstream (hfrag r List.mem_cons_self) (hfits.trans hcapacity.ge)
    have hmore : D.buffer ++ r.content ++ contents cut = flightBytes messages := by
      rw [← hflat, List.append_assoc]
      rfl
    -- the record completes `front` and begins what comes after it
    obtain ⟨front, back, tail, rfl, hsplit, hrest, htail⟩ :=
      handshakeFraming.exists_split messages _ _ hmore
    have hfront : front.length < D'.buffer.length + 1 := by
      have hcount := handshakeFraming.length_le_encodeAll front
      rw [hbuffer', hsplit, List.length_append]
      omega
    have hdrain := drainFlight_messages ended E front
      (parseHandshakeMessage_unfinished htail hrest) _ l hs₁ hl (hbuffer'.trans hsplit) hfront
    have hconfig : wp (takeFlight E front l)
        (ends (fun t' => t'.client.config = t.client.config) fun _ => True) t :=
      maintains_takeFlight t.client.config front l t rfl
    have hassoc : flightOf E next (front ++ back) l t =
        (takeFlight E front l >>= flightOf E next back) t := by
      unfold flightOf
      rw [← bind_assoc_apply, bind_apply, takeFlight_append, ← bind_apply]
    -- where the Finished is the last message, nothing comes after it
    have hlast : wp (takeFlight E front l) (fun r _ => ∀ l', r = .ok l' →
        l'.gotFinished = true → final → back = []) t := by
      rintro _ t' hrun l' rfl hfinished hfinally
      by_contra hback
      refine Bool.false_ne_true ((finished_of_takeFlight ?_ hl t l' t' hrun).symm.trans hfinished)
      intro m hm
      refine hfinal hfinally m ?_
      rw [List.dropLast_append_of_ne_nil hback]
      exact List.mem_append_left _ hm
    have hfollows : wp (takeFlight E front l) (fun r t' => ∀ l', r = .ok l' →
        Follows (S := S) E ended keys.advance final rest next back l' t') t := by
      rintro _ t₁ hrun l₁ rfl l' t' hback hnot
      refine hnext l' t' ?_ hnot
      rw [takeFlight_append, bind_of_ok hrun]
      exact hback
    unfold flightLoop
    rw [if_neg (by rw [hl]; exact Bool.false_ne_true), hassoc, bind_apply, hround, ← bind_apply]
    refine coupledUnless_bind (.inl (((hdrain.and_wp hconfig).and_wp hlast).and_wp hfollows)) ?_ ?_
    · rintro l' s₂ t₂ ⟨⟨⟨⟨D'', hcapacity'', hs₂, hheld⟩, hconf⟩, hlast⟩, hfollows⟩
      have hconf : t₂.client.config = t.client.config := hconf
      by_cases hfinished : l'.gotFinished = true
      · obtain ⟨fuel, rfl⟩ : ∃ n, fuel = n + 1 :=
          ⟨fuel - 1, by rw [List.length_cons] at hfuel; omega⟩
        unfold flightLoop flightOf
        rw [if_pos hfinished, takeFlight_finished _ hfinished, bind_of_ok rfl, if_pos hfinished]
        refine .inl (.stop _ ⟨D'', keys.advance, _, hcapacity''.trans (hcapacity'.trans hcapacity),
          rfl, rfl, hs₂, ?_⟩)
        intro hfinally _
        have hback := hlast l' rfl hfinished hfinally
        subst hback
        obtain ⟨htail, hcontents⟩ := List.append_eq_nil_iff.mp hrest
        rw [hheld l' rfl (.inr (hfinal hfinally).front)]
        refine ⟨htail, ?_⟩
        cases cut with
        | nil => rfl
        | cons r' cut =>
          have hr' := hsize r' (List.mem_cons_of_mem _ List.mem_cons_self)
          rw [(List.append_eq_nil_iff.mp hcontents).1] at hr'
          exact absurd hr' (by decide)
      · have hnot : l'.gotFinished = false := by simpa using hfinished
        have hheld : D''.buffer = tail := hheld l' rfl (.inl hnot)
        exact (ih back fuel l' hs₂ (by rw [hconf]; exact hstream) hnot
          (hcapacity''.trans (hcapacity'.trans hcapacity)) (by rw [hheld]; exact hrest)
          (by rw [hheld]; exact htail) (fun hA => by rw [hheld]; exact (hroom hA).next hsplit)
          (fun r hr => hsize r (List.mem_cons_of_mem _ hr))
          (fun r hr => hfrag r (List.mem_cons_of_mem _ hr))
          (Nat.lt_of_succ_lt_succ hfuel) (fun h => (hfinal h).back)
          (hfollows l' rfl)).mono fun _ _ _ h => h
    · rintro e s₂ t₂ ⟨⟨⟨⟨D'', hcapacity'', hs₂, -⟩, -⟩, -⟩, -⟩
      exact ⟨D'', keys.advance, _, hcapacity''.trans (hcapacity'.trans hcapacity), rfl, rfl, hs₂,
        fun _ h => by cases h⟩

/-! ## The whole flight -/

/-- The type of a record is its first byte. -/
theorem type_of_parseRecordHeader {record : Bytes} {rh : RecordHeader}
    (h : parseRecordHeader record = .ok rh) : rh.type = byteAt record 0 := by
  unfold parseRecordHeader at h
  split at h
  · cases h
  split at h
  · cases h
  · cases h
    rfl

/-- The flight behind records that are not encrypted. -/
theorem flightLoop_plain {stream : ℕ} {A final : Prop} {rest : Bytes}
    {next : FlightLocals → ClientM P W Unit} (plain : List Bytes) {cut : List FlightRecord}
    {messages : List OutgoingMessage} (fuel : ℕ) (l : FlightLocals)
    {s : System P (S.State × W)} {t : System P W}
    (hs : Beside D keys (plain.flatten ++ (sealFlight P keys cut ++ rest)) s t)
    (hplain : ∀ record ∈ plain, IsPlain record)
    (hstream : t.client.config.stream = some stream) (hl : l.gotFinished = false)
    (hcapacity : D.capacity = 32768) (hempty : D.buffer = []) (hcut : Cuts messages cut)
    (hroom : ¬ A → HasRoom messages cut) (hfuel : plain.length + cut.length < fuel)
    (hfinal : final → EndsLast messages)
    (hnext : ∀ t, Follows (S := S) E ended keys final rest next messages l t) :
    CoupledUnless .bufferTooSmall A False (FlightTaken keys final rest)
      (flightLoop (segmented S ended E) fuel l s) (flightFrom E next messages plain l t) := by
  induction plain generalizing fuel s t with
  | nil =>
    refine flightLoop_messages cut messages fuel l hs hstream hl hcapacity ?_ ?_ ?_
      (fun r hr => (hcut.size r hr).1) (fun r hr => ?_) (by simpa using hfuel) hfinal (hnext t)
    · rw [hempty]
      exact hcut.contents
    · rw [hempty]
      exact ⟨handshakeFraming.parse_nil, .inl rfl⟩
    · rw [hempty]
      exact hroom
    · exact hcut.padding r hr
  | cons record plain ih =>
    obtain ⟨fuel, rfl⟩ := Nat.exists_eq_succ_of_ne_zero (Nat.ne_of_gt (Nat.zero_lt_of_lt hfuel))
    obtain ⟨hrecord, htype⟩ := hplain record List.mem_cons_self
    have hconfig : s.client.config.stream = some stream := by rw [hs.client]; exact hstream
    obtain ⟨s₁, hread, hs₁⟩ := hs.over.readRecord ended E
    rw [hconfig, List.flatten_cons, List.append_assoc, recordOf_record hrecord] at hread hs₁
    unfold flightLoop flightFrom
    rw [if_neg (by rw [hl]; exact Bool.false_ne_true)]
    have herr : ∀ {left' : Bytes} {e : Error} {s' : System P (S.State × W)} {t' : System P W},
        Beside D keys left' s' t' →
        FlightTaken keys final rest (.error e : Except Error Unit) s' t' :=
      fun h => ⟨D, keys, _, hcapacity, rfl, rfl, h, fun _ hok => by cases hok⟩
    cases hparse : parseRecordHeader record with
    | error e =>
      rw [hparse] at hread hs₁
      have hround : flightRound (segmented S ended E) l s = some (.error e, s₁) :=
        bind_of_error hread
      rw [bind_of_error hround]
      exact .inl (.stop _
        (herr ⟨hs₁.client.trans hs.client, hs₁.beside.trans hs.world, hs₁.left⟩))
    | ok rh =>
      rw [hparse] at hread hs₁
      have hs₂ : Beside D keys (plain.flatten ++ (sealFlight P keys cut ++ rest)) s₁ t :=
        ⟨hs₁.client.trans hs.client, hs₁.beside.trans hs.world, hs₁.left⟩
      rw [bind_of_ok (lift_of_ok rfl t)]
      unfold flightRound
      rw [bind_assoc_apply, bind_of_ok hread, bind_assoc_apply,
        bind_of_ok (lift_of_ok hparse s₁)]
      by_cases hccs : rh.type = contentChangeCipherSpec
      · rw [if_pos hccs, if_pos hccs, bind_assoc_apply, bind_of_ok rfl, bind_of_ok rfl,
          bind_of_ok rfl]
        exact ih fuel ⟨hs₂.client, hs₂.world, hs₂.left⟩
          (fun r hr => hplain r (List.mem_cons_of_mem _ hr)) hstream
          (by rw [List.length_cons] at hfuel; omega)
      rw [if_neg hccs, if_neg hccs]
      by_cases halert : rh.type = contentAlert
      · rw [if_pos halert, if_pos halert, bind_assoc_apply]
        refine .inl ((beside_handleAlert _).coupled_bind hs₂ ?_ fun _ _ _ h => herr h)
        intro e s₃ t₃ hs₃
        exact .stop _ (herr hs₃)
      · rw [if_neg halert, if_neg halert, if_pos]
        · exact .inl (.stop _ (herr hs₂))
        · rw [type_of_parseRecordHeader hparse]
          exact htype

/-- **The end of `connect`**: the flight, and what the client does after its Finished. -/
theorem processServerHandshake_messages {stream : ℕ} {A final : Prop} {rest : Bytes}
    {next : FlightLocals → ClientM P W Unit} (plain : List Bytes) {cut : List FlightRecord}
    {messages : List OutgoingMessage} (fuel : ℕ) {s : System P (S.State × W)} {t : System P W}
    (hs : Beside D keys (plain.flatten ++ (sealFlight P keys cut ++ rest)) s t)
    (hplain : ∀ record ∈ plain, IsPlain record)
    (hstream : t.client.config.stream = some stream) (hcapacity : D.capacity = 32768)
    (hempty : D.buffer = []) (hcut : Cuts messages cut) (hroom : ¬ A → HasRoom messages cut)
    (hfuel : plain.length + cut.length < fuel) (hfinal : final → EndsLast messages)
    (hnext : ∀ t, Follows (S := S) E ended keys final rest next messages
      ⟨false, ⟨[], []⟩, false⟩ t) :
    CoupledUnless .bufferTooSmall A False (FlightTaken keys final rest)
      (processServerHandshake (segmented S ended E) fuel s)
      ((do flightFrom E next messages plain ⟨false, ⟨[], []⟩, false⟩; finishHandshake E :
        ClientM P W Unit) t) := by
  unfold processServerHandshake
  refine coupledUnless_bind (flightLoop_plain plain fuel _ hs hplain hstream rfl hcapacity hempty
    hcut hroom hfuel hfinal hnext) ?_ ?_
  · rintro _ s' t' ⟨D', k, left', hcapacity', hkey, hiv, hs', hend⟩
    refine .inl ((beside_finishHandshake.coupled hs').mono fun r _ _ h =>
      ⟨D', k, left', hcapacity', hkey, hiv, h, fun hfinally _ => hend hfinally rfl⟩)
  · rintro e s' t' ⟨D', k, left', hcapacity', hkey, hiv, hs', -⟩
    exact ⟨D', k, left', hcapacity', hkey, hiv, hs', fun _ hok => by cases hok⟩

/-- Nothing follows the records. -/
theorem follows_end (messages : List OutgoingMessage) (l : FlightLocals) (t : System P W) :
    Follows (S := S) E ended keys False [] (fun _ => Prog.throw (ended.getD .closed)) messages l
      t := by
  intro l' t' _ hnot fuel stream D k s hfuel hcapacity _ hkey hiv hstream hs
  obtain ⟨fuel, rfl⟩ := Nat.exists_eq_succ_of_ne_zero (Nat.ne_of_gt hfuel)
  obtain ⟨s', hround, hs'⟩ := flightRound_end ended E l' hs hstream
  unfold flightLoop
  rw [if_neg (by rw [hnot]; exact Bool.false_ne_true), bind_of_error hround]
  exact .stop _ ⟨D, k, [], hcapacity, hkey, hiv, hs', fun h => h.elim⟩

end XboxTls.Analysis
