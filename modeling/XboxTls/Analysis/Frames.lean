import XboxTls.Model.Api

/-!
# What the methods leave alone

`Quiet s s'` is a change that touches no key, no configuration and no application data:
hello fields, the transcript, the deframer, the alert fields, the outside world and
events that record none of the former.  `Still s s'` leaves the deframer and the name of the
negotiated protocol alone too.  `Wiped s s'` is what `fail` does.  The lemmas say of each
method which invariants it maintains: those that the changes it makes preserve.
-/

set_option autoImplicit false

namespace XboxTls.Analysis

open Programs Programs.Prog XboxTls.Model

variable {P : Crypto} {W : Type}

/-! ## Lists that were extended -/

/-- An element of two lists is in the first or in the second. -/
theorem split_append {α : Type} {evs evs' before after : List α} {ev : α}
    (h : evs ++ evs' = before ++ ev :: after) :
    (∃ rest, evs = before ++ ev :: rest ∧ after = rest ++ evs') ∨
      ∃ rest, before = evs ++ rest ∧ evs' = rest ++ ev :: after := by
  rcases List.append_eq_append_iff.mp h with ⟨rest, hbefore, hevs'⟩ | ⟨rest, hevs, hafter⟩
  · exact Or.inr ⟨rest, hbefore, hevs'⟩
  · cases rest with
    | nil =>
      rw [List.append_nil] at hevs
      exact Or.inr ⟨[], by rw [hevs, List.append_nil], hafter.symm⟩
    | cons first rest =>
      obtain ⟨rfl, rfl⟩ := List.cons.inj hafter
      exact Or.inl ⟨rest, hevs, rfl⟩

/-- A split of a longer list falls into the list or behind it. -/
theorem split_concat {α : Type} {evs before after : List α} {new ev : α}
    (h : evs ++ [new] = before ++ ev :: after) :
    (∃ rest, evs = before ++ ev :: rest) ∨ (before = evs ∧ ev = new ∧ after = []) := by
  rcases split_append h with ⟨rest, hold, -⟩ | ⟨rest, hbefore, hnew⟩
  · exact Or.inl ⟨rest, hold⟩
  · cases rest with
    | nil =>
      obtain ⟨hev, hafter⟩ := List.cons.inj hnew
      exact Or.inr ⟨by rw [hbefore, List.append_nil], hev.symm, hafter.symm⟩
    | cons first rest =>
      obtain ⟨-, hrest⟩ := List.cons.inj hnew
      cases rest <;> cases hrest

/-! ## Changes -/

/-- The events of quiet changes: all but those on keys and application data. -/
def quietEvent : Event → Bool
  | .connect _ | .keysDerived _ _ | .sealed _ _ _ | .opened _ _ _ | .appData _ _
  | .delivered _ => false
  | _ => true

/-- A change that touches no key, no configuration and no application data. -/
structure Quiet (s s' : System P W) : Prop where
  state : s'.client.state = s.client.state
  config : s'.client.config = s.client.config
  schedule : s'.client.schedule = s.client.schedule
  keys : s'.client.keys = s.client.keys
  pendingApp : s'.client.pendingApp = s.client.pendingApp
  pendingAppOffset : s'.client.pendingAppOffset = s.client.pendingAppOffset
  pendingAppLength : s'.client.pendingAppLength = s.client.pendingAppLength
  trace : ∃ evs, s'.trace = s.trace ++ evs ∧ ∀ ev ∈ evs, quietEvent ev = true

/-- The events of still changes: what is written, and what the verifier said. -/
def stillEvent : Event → Bool
  | .wrote _ | .chainVerified _ _ | .signatureVerified _ _ _ _ | .authenticated _ _ _ _ => true
  | _ => false

/-- A quiet change that touches neither the deframer nor the negotiated protocol. -/
structure Still (s s' : System P W) : Prop where
  state : s'.client.state = s.client.state
  config : s'.client.config = s.client.config
  schedule : s'.client.schedule = s.client.schedule
  keys : s'.client.keys = s.client.keys
  deframer : s'.client.deframer = s.client.deframer
  negotiatedAlpn : s'.client.negotiatedAlpn = s.client.negotiatedAlpn
  pendingApp : s'.client.pendingApp = s.client.pendingApp
  pendingAppOffset : s'.client.pendingAppOffset = s.client.pendingAppOffset
  pendingAppLength : s'.client.pendingAppLength = s.client.pendingAppLength
  trace : ∃ evs, s'.trace = s.trace ++ evs ∧ ∀ ev ∈ evs, stillEvent ev = true

/-- `fail`: the secrets are gone and the state is `failed`. -/
structure Wiped (s s' : System P W) : Prop where
  client : s'.client = { s.client.wipeSecrets with state := .failed }
  trace : s'.trace = s.trace

/-- Only the outside world changed. -/
theorem still_world (s : System P W) (w : W) : Still s { s with world := w } :=
  ⟨rfl, rfl, rfl, rfl, rfl, rfl, rfl, rfl, rfl, [], by simp, by simp⟩

/-- A still event changes nothing else. -/
theorem still_trace (s : System P W) {ev : Event} (h : stillEvent ev = true) :
    Still s { s with trace := s.trace ++ [ev] } :=
  ⟨rfl, rfl, rfl, rfl, rfl, rfl, rfl, rfl, rfl, [ev], rfl, by simp [h]⟩

/-- A still event is quiet. -/
theorem quietEvent_of_stillEvent {ev : Event} (h : stillEvent ev = true) :
    quietEvent ev = true := by
  cases ev <;> first | rfl | cases h

/-- What leaves the client alone leaves its keys alone. -/
theorem Still.quiet {s s' : System P W} (h : Still s s') : Quiet s s' := by
  obtain ⟨evs, htrace, hevs⟩ := h.trace
  exact ⟨h.state, h.config, h.schedule, h.keys, h.pendingApp, h.pendingAppOffset,
    h.pendingAppLength, evs, htrace, fun ev hev => quietEvent_of_stillEvent (hevs ev hev)⟩

/-- A quiet event changes nothing else. -/
theorem quiet_emit (s : System P W) {ev : Event} (h : quietEvent ev = true) :
    Quiet s { s with trace := s.trace ++ [ev] } :=
  ⟨rfl, rfl, rfl, rfl, rfl, rfl, rfl, [ev], rfl, by simp [h]⟩

/-! ## Still programs -/

section Still

variable (E : Env W) {I J : System P W → Prop} {α : Type}
variable (hT : ∀ s s', Still s s' → I s → I s') (hJ : ∀ s, I s → J s)

include hT in
/-- A still event is emitted. -/
theorem still_emit {ev : Event} (h : stillEvent ev = true) :
    Maintains I J (emit ev : ClientM P W Unit) := by
  intro s hs
  rw [wp_emit]
  exact hT _ _ (still_trace s h) hs

include hT in
/-- A change of the client that leaves what counts. -/
theorem still_modifyClient {f : TlsClient P → TlsClient P}
    (hf : ∀ s : System P W, Still s { s with client := f s.client }) :
    Maintains I J (modifyClient f : ClientM P W Unit) := by
  intro s hs
  rw [wp_modifyClient]
  exact hT _ _ (hf s) hs

/-- An event that the invariant allows. -/
theorem maintains_of_emit {ev : Event}
    (h : ∀ s : System P W, I s → I { s with trace := s.trace ++ [ev] }) :
    Maintains I J (emit ev : ClientM P W Unit) := by
  intro s hs
  rw [wp_emit]
  exact h s hs

/-- A read of the client changes nothing. -/
theorem maintains_getClient : Maintains I J (getClient : ClientM P W (TlsClient P)) := by
  intro s hs
  rw [wp_getClient]
  exact hs

/-- The use of a pointer changes nothing. -/
theorem maintains_deref (p : Option α) : Maintains I J (deref p : ClientM P W α) := by
  intro s hs
  rw [wp_deref]
  exact fun a _ => hs

include hT hJ in
/-- A call of the outside world changes the outside world only. -/
theorem maintains_callWorld (x : Prog W Error α) :
    Maintains I J (callWorld x : ClientM P W α) := by
  intro s hs
  rw [wp_callWorld]
  intro r w _
  cases r with
  | ok a => exact hT _ _ (still_world s w) hs
  | error e => exact hJ _ (hT _ _ (still_world s w) hs)

include hT hJ in
/-- A write to the stream changes nothing of the client. -/
theorem maintains_writeStream (stream : ℕ) (bytes : Bytes) :
    Maintains I J (writeStream E stream bytes : ClientM P W Unit) := by
  unfold writeStream
  exact maintains_bind (maintains_callWorld hT hJ _) fun _ => still_emit hT rfl

include hT hJ in
/-- Reading from the stream changes nothing of the client. -/
theorem maintains_recvLoop (stream fuel total : ℕ) (have_ : Bytes) :
    Maintains I J (recvLoop E stream fuel total have_ : ClientM P W Bytes) := by
  induction fuel generalizing have_ with
  | zero => exact maintains_pure _
  | succ fuel ih =>
    unfold recvLoop
    split
    · refine maintains_bind (maintains_callWorld hT hJ _) fun b => ?_
      split
      · exact maintains_throw hJ _
      · exact ih _
    · exact maintains_pure _

include hT hJ in
/-- `read_record` changes nothing of the client. -/
theorem maintains_readRecord (capacity : ℕ) :
    Maintains I J (readRecord E capacity : ClientM P W Bytes) := by
  unfold readRecord
  refine maintains_bind maintains_getClient fun c => ?_
  split
  · exact maintains_throw hJ _
  · split
    · exact maintains_throw hJ _
    · refine maintains_bind (maintains_recvLoop E hT hJ _ _ _ _) fun header => ?_
      refine maintains_bind (maintains_lift hJ _) fun h => ?_
      split
      · exact maintains_throw hJ _
      · exact maintains_recvLoop E hT hJ _ _ _ _

include hT hJ in
/-- `send_plain_record` changes nothing of the client. -/
theorem maintains_sendPlainRecord (type : UInt8) (payload : Bytes) :
    Maintains I J (sendPlainRecord E type payload : ClientM P W Unit) := by
  unfold sendPlainRecord
  refine maintains_bind maintains_getClient fun c => ?_
  split
  · exact maintains_throw hJ _
  · split
    · exact maintains_throw hJ _
    · refine maintains_bind (maintains_writeStream E hT hJ _ _) fun _ => ?_
      split
      · exact maintains_writeStream E hT hJ _ _
      · exact maintains_pure ()

include hT in
/-- `handle_alert` changes the last alert only. -/
theorem maintains_handleAlert (payload : Bytes) :
    Maintains I J (handleAlert payload : ClientM P W Error) := by
  unfold handleAlert
  split
  · exact maintains_pure _
  · refine maintains_bind (still_modifyClient hT fun s => ?_) fun _ => ?_
    · exact ⟨rfl, rfl, rfl, rfl, rfl, rfl, rfl, rfl, rfl, [], by simp, by simp⟩
    · split <;> exact maintains_pure _

include hT in
/-- A message that is hashed changes the transcript only. -/
theorem maintains_hashMessage (encoded : Bytes) :
    Maintains I J (hashMessage encoded : ClientM P W Unit) :=
  still_modifyClient hT fun _ =>
    ⟨rfl, rfl, rfl, rfl, rfl, rfl, rfl, rfl, rfl, [], by simp, by simp⟩

include hT hJ in
/-- `authenticate_server_flight` changes nothing of the client. -/
theorem maintains_authenticateServerFlight (certificates : CertificateInfo)
    (cv : CertificateVerifyInfo) (th : FixedBytes 32) (hostname : Option CString)
    (verifier : Option ℕ) :
    Maintains I J
      (authenticateServerFlight E certificates cv th hostname verifier : ClientM P W Unit) := by
  unfold authenticateServerFlight
  split
  · refine maintains_bind (maintains_lift hJ _) fun chain => ?_
    refine maintains_bind (maintains_lift hJ _) fun leaf => ?_
    refine maintains_bind (maintains_lift hJ _) fun _ => ?_
    refine maintains_bind (maintains_callWorld hT hJ _) fun _ => ?_
    refine maintains_bind (still_emit hT rfl) fun _ => ?_
    refine maintains_bind (maintains_lift hJ _) fun scheme => ?_
    refine maintains_bind (maintains_lift hJ _) fun _ => ?_
    refine maintains_bind (maintains_lift hJ _) fun message => ?_
    refine maintains_bind (maintains_callWorld hT hJ _) fun _ => ?_
    refine maintains_bind (still_emit hT rfl) fun _ => ?_
    exact still_emit hT rfl
  · exact maintains_throw hJ _

end Still

/-! ## The deframer -/

section Deframer

variable {I J : System P W → Prop}

/-- The deframer lost some bytes at its front. -/
structure Shortens (d d' : HandshakeDeframer) : Prop where
  capacity : d'.capacity = d.capacity
  suffix : d'.buffer <:+ d.buffer

/-- Consuming a message only drops bytes. -/
theorem consume_shortens {d d' : HandshakeDeframer} (h : d.consume = .ok d') :
    Shortens d d' := by
  obtain ⟨m, -, hd⟩ := (except_bind_eq_ok _ _ _).mp h
  cases hd
  exact ⟨rfl, List.drop_suffix _ _⟩

/-- `consume` makes the deframer shorter. -/
theorem maintains_consumeMessage
    (hshorten : ∀ (s : System P W) d, Shortens s.client.deframer d → I s →
      I { s with client := { s.client with deframer := d } }) (hJ : ∀ s, I s → J s) :
    Maintains I J (consumeMessage : ClientM P W Unit) := by
  intro s hs
  unfold consumeMessage
  rw [wp_bind, wp_getClient, thenWp_ok, wp_bind, wp_lift]
  cases hconsume : s.client.deframer.consume with
  | error e => exact hJ s hs
  | ok d =>
    rw [thenWp_ok, wp_modifyClient]
    exact hshorten s d (consume_shortens hconsume) hs

/-- A message at the front of the deframer is peeked. -/
theorem peek_of_parse {d : HandshakeDeframer} {msg : HandshakeMessage} {n : ℕ}
    (h : parseHandshakeMessage d.buffer = .ok (msg, n)) : d.peek = .ok msg := by
  unfold HandshakeDeframer.peek
  rw [h]
  rfl

/-- A message at the front of the deframer is consumed. -/
theorem consume_of_parse {d : HandshakeDeframer} {msg : HandshakeMessage} {n : ℕ}
    (h : parseHandshakeMessage d.buffer = .ok (msg, n)) :
    ∃ d' : HandshakeDeframer, d'.capacity = d.capacity ∧ d'.buffer = d.buffer.drop n ∧
      d.consume = .ok d' := by
  unfold HandshakeDeframer.consume
  rw [h]
  exact ⟨⟨d.capacity, d.buffer.drop n, _⟩, rfl, rfl, rfl⟩

/-- Consuming the message at the front. -/
theorem consumeMessage_run {s : System P W} {msg : HandshakeMessage} {n : ℕ}
    (h : parseHandshakeMessage s.client.deframer.buffer = .ok (msg, n)) :
    ∃ d : HandshakeDeframer, d.capacity = s.client.deframer.capacity ∧
      d.buffer = s.client.deframer.buffer.drop n ∧
      (consumeMessage : ClientM P W Unit) s =
        some (.ok (), { s with client := { s.client with deframer := d } }) := by
  obtain ⟨d, hcapacity, hbuffer, hd⟩ := consume_of_parse h
  refine ⟨d, hcapacity, hbuffer, ?_⟩
  unfold consumeMessage
  rw [bind_of_ok rfl, bind_of_ok (lift_of_ok hd s)]
  rfl

/-- Bytes that fit are appended. -/
theorem append_of_room {d : HandshakeDeframer} {content : Bytes}
    (h : d.buffer.length + content.length ≤ d.capacity) :
    ∃ d' : HandshakeDeframer, d'.capacity = d.capacity ∧ d'.buffer = d.buffer ++ content ∧
      d.append content = .ok d' := by
  unfold HandshakeDeframer.append
  rw [dif_neg (by omega)]
  refine ⟨⟨d.capacity, d.buffer ++ content, ?_⟩, rfl, rfl, rfl⟩
  rw [List.length_append]
  exact h

/-- Putting a fragment behind what is there. -/
theorem appendFragment_run (stage : Stage) {content : Bytes} {s : System P W}
    (h : s.client.deframer.buffer.length + content.length ≤ s.client.deframer.capacity) :
    ∃ d : HandshakeDeframer, d.capacity = s.client.deframer.capacity ∧
      d.buffer = s.client.deframer.buffer ++ content ∧
      appendFragment stage content s = some (.ok (), { s with
        client := { s.client with deframer := d }
        trace := s.trace ++ [.fragment stage s.client.deframer.buffer content] }) := by
  obtain ⟨d, hcapacity, hbuffer, hd⟩ := append_of_room h
  refine ⟨d, hcapacity, hbuffer, ?_⟩
  unfold appendFragment
  rw [bind_of_ok rfl, bind_of_ok (lift_of_ok hd s)]
  rfl

end Deframer

/-! ## Quiet programs -/

section Quiet

variable (E : Env W) {I J : System P W → Prop} {α : Type}
variable (hQ : ∀ s s', Quiet s s' → I s → I s') (hJ : ∀ s, I s → J s)

include hQ in
/-- What is closed under quiet changes is so under still ones. -/
theorem Quiet.still_closed : ∀ s s', Still s s' → I s → I s' :=
  fun s s' h => hQ s s' h.quiet

include hQ in
/-- A shorter deframer is a quiet change. -/
theorem Quiet.shorten (s : System P W) (d : HandshakeDeframer)
    (_ : Shortens s.client.deframer d) (hs : I s) :
    I { s with client := { s.client with deframer := d } } :=
  hQ s _ ⟨rfl, rfl, rfl, rfl, rfl, rfl, rfl, [], by simp, by simp⟩ hs

include hQ in
/-- A quiet event is emitted. -/
theorem maintains_emit {ev : Event} (h : quietEvent ev = true) :
    Maintains I J (emit ev : ClientM P W Unit) := by
  intro s hs
  rw [wp_emit]
  exact hQ _ _ (quiet_emit s h) hs

include hQ in
/-- A quiet change of the client. -/
theorem maintains_modifyClient {f : TlsClient P → TlsClient P}
    (hf : ∀ s : System P W, Quiet s { s with client := f s.client }) :
    Maintains I J (modifyClient f : ClientM P W Unit) := by
  intro s hs
  rw [wp_modifyClient]
  exact hQ _ _ (hf s) hs

include hQ hJ in
/-- A fragment that is appended is a quiet change. -/
theorem maintains_appendFragment (stage : Stage) (content : Bytes) :
    Maintains I J (appendFragment stage content : ClientM P W Unit) := by
  unfold appendFragment
  refine maintains_bind maintains_getClient fun c => ?_
  refine maintains_bind (maintains_lift hJ _) fun d => ?_
  refine maintains_bind (maintains_modifyClient hQ fun s => ?_) fun _ => maintains_emit hQ rfl
  exact ⟨rfl, rfl, rfl, rfl, rfl, rfl, rfl, [], by simp, by simp⟩

/-- What the messages of the encrypted flight change. -/
structure FlightClosed (I : System P W → Prop) : Prop where
  still : ∀ s s', Still s s' → I s → I s'
  alpn : ∀ (s : System P W) alpn, I s →
    I { s with client := { s.client with negotiatedAlpn := alpn } }
  finishedVerified : ∀ (s : System P W) th, I s →
    I { s with trace := s.trace ++ [.finishedVerified th] }

variable (hC : FlightClosed I)

include hQ in
/-- What is closed under quiet changes is so under the messages of the flight. -/
theorem Quiet.flightClosed : FlightClosed I where
  still := Quiet.still_closed hQ
  alpn s _ := hQ s _ ⟨rfl, rfl, rfl, rfl, rfl, rfl, rfl, [], by simp, by simp⟩
  finishedVerified s _ := hQ s _ (quiet_emit s rfl)

include hJ in
/-- The copy of the protocol name changes the name only. -/
theorem maintains_storeAlpn
    (halpn : ∀ (s : System P W) alpn, I s →
      I { s with client := { s.client with negotiatedAlpn := alpn } }) (alpn : Option Bytes) :
    Maintains I J (storeAlpn alpn : ClientM P W Unit) := by
  unfold storeAlpn
  split
  · exact maintains_pure ()
  · next alpn =>
    split
    · exact maintains_throw hJ _
    · intro s hs
      rw [wp_modifyClient]
      exact halpn s alpn hs

/-- The last step of every branch is the event of the message. -/
theorem leads_flight {I' : System P W → Prop} {msg : HandshakeMessage}
    (hflight : ∀ s, I s → I' { s with trace := s.trace ++ [.flight msg] }) (l : FlightLocals) :
    Leads I I' J (do emit (.flight msg); pure l : ClientM P W FlightLocals) := by
  intro s hs
  rw [wp_bind, wp_emit, thenWp_ok, wp_pure]
  exact hflight s hs

include hJ in
/-- The EncryptedExtensions branch changes transcript and protocol name only. -/
theorem leads_encryptedExtensions {I' : System P W → Prop} (msg : HandshakeMessage)
    (l : FlightLocals) (hT : ∀ s s', Still s s' → I s → I s')
    (halpn : ∀ (s : System P W) alpn, I s →
      I { s with client := { s.client with negotiatedAlpn := alpn } })
    (hflight : ∀ s, I s → I' { s with trace := s.trace ++ [.flight msg] }) :
    Leads I I' J (handleEncryptedExtensions msg l : ClientM P W FlightLocals) := by
  unfold handleEncryptedExtensions
  apply leads_bind (maintains_lift hJ _)
  intro ee
  apply leads_bind (maintains_storeAlpn hJ halpn _)
  intro _
  apply leads_bind (maintains_hashMessage hT _)
  intro _
  exact leads_flight hflight l

include hJ in
/-- A message of the flight that is accepted ends with its event; what EncryptedExtensions
change is a fact of its own. -/
theorem leads_message {I' : System P W → Prop} (msg : HandshakeMessage) (l : FlightLocals)
    (hT : ∀ s s', Still s s' → I s → I s')
    (hfinished : msg.type = hsFinished → ∀ (s : System P W) th, I s →
      I { s with trace := s.trace ++ [.finishedVerified th] })
    (hextensions : msg.type = hsEncryptedExtensions →
      Leads I I' J (handleEncryptedExtensions msg l : ClientM P W FlightLocals))
    (hflight : msg.type ≠ hsEncryptedExtensions → ∀ s, I s →
      I' { s with trace := s.trace ++ [.flight msg] }) :
    Leads I I' J (handleHandshakeMessage E msg l : ClientM P W FlightLocals) := by
  unfold handleHandshakeMessage
  split
  · next htype => exact hextensions htype
  next htype =>
  have hother := hflight htype
  split
  · unfold handleCertificate
    split
    · exact leads_throw hJ _
    · apply leads_bind (still_modifyClient hT fun s => ?_)
      · intro _
        apply leads_bind (maintains_lift hJ _)
        intro saved
        apply leads_bind (maintains_lift hJ _)
        intro certInfo
        apply leads_bind (maintains_hashMessage hT _)
        intro _
        exact leads_flight hother _
      · exact ⟨rfl, rfl, rfl, rfl, rfl, rfl, rfl, rfl, rfl, [], by simp, by simp⟩
  split
  · unfold handleCertificateVerify
    split
    · exact leads_throw hJ _
    · apply leads_bind (maintains_lift hJ _)
      intro cv
      apply leads_bind maintains_getClient
      intro c
      apply leads_bind (maintains_authenticateServerFlight E hT hJ _ _ _ _ _)
      intro _
      apply leads_bind (maintains_hashMessage hT _)
      intro _
      exact leads_flight hother l
  split
  · next hlast =>
    unfold handleFinished
    apply leads_bind maintains_getClient
    intro c
    apply leads_bind (maintains_lift hJ _)
    intro _
    apply leads_bind (maintains_of_emit fun s => hfinished hlast s _)
    intro _
    apply leads_bind (maintains_hashMessage hT _)
    intro _
    exact leads_flight hother _
  · exact leads_throw hJ _

include hC hJ in
/-- A message of the flight that is accepted ends with its event. -/
theorem leads_handleHandshakeMessage {K : System P W → Prop} (msg : HandshakeMessage)
    (l : FlightLocals)
    (hflight : ∀ s, I s → K { s with trace := s.trace ++ [.flight msg] }) :
    Leads I K J (handleHandshakeMessage E msg l : ClientM P W FlightLocals) := by
  exact leads_message E hJ msg l hC.still (fun _ => hC.finishedVerified)
    (fun _ => leads_encryptedExtensions hJ msg l hC.still hC.alpn hflight) fun _ => hflight

include hJ in
/-- The drain loop maintains what its messages maintain. -/
theorem maintains_drainMessages
    (hmessage : ∀ msg l, Maintains I J (handleHandshakeMessage E msg l : ClientM P W FlightLocals))
    (hshorten : ∀ (s : System P W) d, Shortens s.client.deframer d → I s →
      I { s with client := { s.client with deframer := d } }) (fuel : ℕ) (l : FlightLocals) :
    Maintains I J (drainFlight E fuel l : ClientM P W FlightLocals) := by
  induction fuel generalizing l with
  | zero => exact maintains_diverge
  | succ fuel ih =>
    unfold drainFlight
    refine maintains_bind maintains_getClient fun c => ?_
    split
    · exact maintains_pure l
    · exact maintains_throw hJ _
    · refine maintains_bind (hmessage _ _) fun l' => ?_
      refine maintains_bind (maintains_consumeMessage hshorten hJ) fun _ => ?_
      split
      · exact maintains_pure l'
      · exact ih l'

include hQ hJ in
/-- The loop over the messages of a record. -/
theorem maintains_drainFlight (fuel : ℕ) (l : FlightLocals) :
    Maintains I J (drainFlight E fuel l : ClientM P W FlightLocals) :=
  maintains_drainMessages E hJ
    (fun msg l => leads_handleHandshakeMessage E hJ (Quiet.flightClosed hQ) msg l
      fun s => hQ _ _ (quiet_emit s rfl))
    (Quiet.shorten hQ) fuel l

end Quiet

/-! ## Failing -/

section Fail

variable (E : Env W) {I J : System P W → Prop} {α : Type}
variable (hT : ∀ s s', Still s s' → I s → I s') (hQ : ∀ s s', Quiet s s' → I s → I s')
variable (hW : ∀ s s', Wiped s s' → I s → J s')

/-- The outside world after the stream of a configuration was closed. -/
def closedWorld (config : ClientConfig) (w : W) : W :=
  match config.stream with
  | none => w
  | some stream => E.close stream w

/-- The stream of the configuration is closed, if there is one. -/
@[simp] theorem closeStream_apply (s : System P W) :
    (closeStream E : ClientM P W Unit) s =
      some (.ok (), { s with world := closedWorld E s.client.config s.world }) := by
  simp only [closeStream, bind_apply, getClient, closedWorld]
  cases s.client.config.stream with
  | none => rfl
  | some stream => rfl

/-- The system after the secrets were wiped and the stream closed, in this state. -/
def afterEnd (state : ClientState) (s : System P W) : System P W :=
  { s with
    client := { s.client.wipeSecrets with state := state }
    world := closedWorld E s.client.config s.world }

/-- A failing exit wipes the client and returns the error. -/
theorem failWith_apply (e : Error) (s : System P W) :
    (failWith E e : ClientM P W α) s = some (.error e, afterEnd E .failed s) := by
  simp only [failWith, fail, bind_apply, modifyClient, closeStream_apply, throw_apply]
  rfl

/-- A value passes the failing exit by. -/
theorem orFail_of_ok {x : ClientM P W α} {s s' : System P W} {a : α}
    (hx : x s = some (.ok a, s')) : orFail E x s = some (.ok a, s') :=
  onError_of_ok hx

/-- An error takes the failing exit. -/
theorem orFail_of_error {x : ClientM P W α} {s s' : System P W} {e : Error}
    (hx : x s = some (.error e, s')) : orFail E x s = some (.error e, afterEnd E .failed s') :=
  (onError_of_error hx).trans (failWith_apply E e s')

/-- The postcondition under `orFail`: an error ends the client. -/
def failing (Q : Except Error α → System P W → Prop) : Except Error α → System P W → Prop
  | .ok a, s => Q (.ok a) s
  | .error e, s => Q (.error e) (afterEnd E .failed s)

/-- What holds behind a program whose errors take the failing exit. -/
theorem wp_orFail {x : ClientM P W α} {Q : Except Error α → System P W → Prop} {s : System P W}
    (h : wp x (failing E Q) s) : wp (orFail E x) Q s := by
  unfold orFail
  rw [wp_onError]
  refine wp_mono h ?_
  intro r s' hr
  cases r with
  | ok a => exact hr
  | error e => exact wp_of_run (failWith_apply E e s') hr

/-- A close_notify ends the connection and returns `XT_ERR_CLOSED`. -/
theorem recvClosed_apply (s : System P W) :
    (recvClosed E : ClientM P W Bytes) s = some (.error .closed, afterEnd E .closed s) := by
  simp only [recvClosed, bind_apply, modifyClient, closeStream_apply, throw_apply]
  rfl

/-- What holds behind the failing exit. -/
theorem wp_failWith_iff (e : Error) (Q : Except Error α → System P W → Prop) (s : System P W) :
    wp (failWith E e) Q s ↔ Q (.error e) (afterEnd E .failed s) := by
  constructor
  · intro h
    exact h _ _ (failWith_apply E e s)
  · intro h r s' hrun
    rw [failWith_apply] at hrun
    cases hrun
    exact h

/-- The failing exit wipes the secrets. -/
theorem wiped_afterEnd (s : System P W) : Wiped s (afterEnd E .failed s) := ⟨rfl, rfl⟩

include hW in
/-- `fail(); return e;`. -/
theorem wp_failWith (e : Error) {s : System P W} (hs : I s) :
    wp (failWith E e : ClientM P W α) (ends I J) s := by
  rw [wp_failWith_iff]
  exact hW _ _ (wiped_afterEnd E s) hs

include hW in
/-- The failing exit leads to the invariant of errors. -/
theorem maintains_failWith (e : Error) : Maintains I J (failWith E e : ClientM P W α) :=
  fun _ hs => wp_failWith E hW e hs

/-- A program behind `if (e != XT_OK) { fail(); return e; }`. -/
theorem maintains_orFail {K : System P W → Prop} (hW : ∀ s s', Wiped s s' → K s → J s')
    {x : ClientM P W α} (hx : Maintains I K x) : Maintains I J (orFail E x) := by
  refine maintains_onError hx ?_
  intro e s hs
  rw [wp_failWith_iff]
  exact hW _ _ (wiped_afterEnd E s) hs

include hT hW in
/-- The attempts to draw a P-256 key. -/
theorem maintains_generateP256 (report : Error → Error) (attempts : ℕ) (last : Error) :
    Maintains I J (generateP256 E report attempts last : ClientM P W Unit) := by
  induction attempts generalizing last with
  | zero => exact maintains_failWith E hW last
  | succ attempts ih =>
    unfold generateP256
    refine maintains_bind maintains_getClient fun c => ?_
    refine maintains_bind (maintains_deref _) fun platform => ?_
    refine maintains_bind (keeps_attempt (maintains_callWorld hT (fun _ h => h) _)) fun r => ?_
    split
    · exact maintains_failWith E hW _
    · refine maintains_bind (still_modifyClient hT fun s => ?_) fun _ => ?_
      · exact ⟨rfl, rfl, rfl, rfl, rfl, rfl, rfl, rfl, rfl, [], by simp, by simp⟩
      · split
        · exact ih _
        · exact still_modifyClient hT fun s =>
            ⟨rfl, rfl, rfl, rfl, rfl, rfl, rfl, rfl, rfl, [], by simp, by simp⟩

include hT hW in
/-- The X25519 key. -/
theorem maintains_generateX25519 (report : Error → Error) :
    Maintains I J (generateX25519 E report : ClientM P W Unit) := by
  unfold generateX25519
  refine maintains_bind maintains_getClient fun c => ?_
  refine maintains_bind (maintains_deref _) fun platform => ?_
  refine maintains_bind (keeps_attempt (maintains_callWorld hT (fun _ h => h) _)) fun r => ?_
  split
  · exact maintains_failWith E hW _
  · exact still_modifyClient hT fun s =>
      ⟨rfl, rfl, rfl, rfl, rfl, rfl, rfl, rfl, rfl, [], by simp, by simp⟩

include hT hW in
/-- The key for either group. -/
theorem maintains_generateKeyShare (report : Error → Error) (group : NamedGroup) :
    Maintains I J (generateKeyShare E report group : ClientM P W ℕ) := by
  unfold generateKeyShare
  split
  · exact maintains_bind (maintains_generateP256 E hT hW _ _ _) fun _ => maintains_pure _
  · split
    · exact maintains_bind (maintains_generateX25519 E hT hW _) fun _ => maintains_pure _
    · exact maintains_failWith E hW _

include hT hW in
/-- A ClientHello is built, hashed and sent. -/
theorem maintains_sendClientHello (p : ClientHelloParams)
    (hhello : ∀ (s : System P W) encoded, I s →
      I { s with trace := s.trace ++ [.clientHello p encoded] }) :
    Maintains I J (sendClientHello E p : ClientM P W Unit) := by
  have hclient : ∀ (bytes : Bytes) (s : System P W),
      Still s { s with client := { s.client with clientHello := bytes } } := by
    intro bytes s
    exact ⟨rfl, rfl, rfl, rfl, rfl, rfl, rfl, rfl, rfl, [], by simp, by simp⟩
  unfold sendClientHello
  split
  · exact maintains_bind (still_modifyClient hT (hclient _)) fun _ =>
      maintains_failWith E hW _
  · next encoded _ =>
    refine maintains_bind (still_modifyClient hT (hclient _)) fun _ => ?_
    refine maintains_bind (maintains_hashMessage hT _) fun _ => ?_
    refine maintains_bind (maintains_orFail E hW
      (maintains_sendPlainRecord E hT (fun _ h => h) _ _)) fun _ => ?_
    exact maintains_of_emit fun s => hhello s encoded

include hT hW in
/-- A record of the hello loop. -/
theorem maintains_readHelloRecord
    (hccs : ∀ (s : System P W) record, I s →
      I { s with trace := s.trace ++ [.changeCipherSpec .plaintext record] })
    (happend : ∀ content, Keeps I (appendFragment .plaintext content : ClientM P W Unit)) :
    Maintains I J (readHelloRecord E : ClientM P W Unit) := by
  unfold readHelloRecord
  refine maintains_bind (maintains_orFail E hW
    (maintains_readRecord E hT (fun _ h => h) _)) fun record => ?_
  refine maintains_bind (maintains_orFail E hW (maintains_lift (fun _ h => h) _)) fun rh => ?_
  split
  · refine maintains_bind (maintains_of_emit fun s => hccs s record) fun _ => ?_
    split
    · exact maintains_failWith E hW _
    · exact maintains_pure ()
  · split
    · exact maintains_bind (maintains_handleAlert hT _) fun _ => maintains_failWith E hW _
    · split
      · exact maintains_failWith E hW _
      · exact maintains_orFail E hW (happend _)

/-- What the messages of the hello loop change, apart from its records. -/
structure HelloClosed (I : System P W → Prop) : Prop where
  still : ∀ s s', Still s s' → I s → I s'
  shorten : ∀ (s : System P W) d, Shortens s.client.deframer d → I s →
    I { s with client := { s.client with deframer := d } }
  clientHello : ∀ (s : System P W) p encoded, I s →
    I { s with trace := s.trace ++ [.clientHello p encoded] }
  retry : ∀ (s : System P W) encoded info, I s →
    I { s with trace := s.trace ++ [.retry encoded info] }
  serverHello : ∀ (s : System P W) encoded info, I s →
    I { s with trace := s.trace ++ [.serverHello encoded info] }

variable (hH : HelloClosed I)

include hH hW in
/-- A hello message is consumed. -/
theorem maintains_consumeHello : Maintains I J (consumeHello E : ClientM P W Unit) := by
  unfold consumeHello
  refine maintains_bind (keeps_attempt (maintains_consumeMessage hH.shorten (fun _ h => h)))
    fun r => ?_
  split
  · exact maintains_failWith E hW _
  · refine maintains_bind maintains_getClient fun c => ?_
    split
    · exact maintains_failWith E hW _
    · exact maintains_pure ()

include hH hW in
/-- A HelloRetryRequest and the second ClientHello. -/
theorem maintains_retryHello (h : HelloLocals) (hm : HandshakeMessage) (sh : ServerHelloInfo) :
    Maintains I J (retryHello E h hm sh : ClientM P W HelloLocals) := by
  unfold retryHello
  split
  · exact maintains_failWith E hW _
  · refine maintains_bind (still_modifyClient hH.still fun s => ?_) fun _ => ?_
    · exact ⟨rfl, rfl, rfl, rfl, rfl, rfl, rfl, rfl, rfl, [], by simp, by simp⟩
    · refine maintains_bind (maintains_hashMessage hH.still _) fun _ => ?_
      refine maintains_bind (maintains_consumeHello E hW hH) fun _ => ?_
      refine maintains_bind (maintains_of_emit fun s => hH.retry s _ _) fun _ => ?_
      refine maintains_bind (maintains_generateKeyShare E hH.still hW _ _) fun publicLen => ?_
      refine maintains_bind maintains_getClient fun c => ?_
      exact maintains_bind (maintains_sendClientHello E hH.still hW _
        fun s encoded => hH.clientHello s _ encoded) fun _ => maintains_pure _

include hH hW in
/-- The loop up to the ServerHello. -/
theorem maintains_helloLoop (hread : Maintains I J (readHelloRecord E : ClientM P W Unit))
    (fuel : ℕ) (h : HelloLocals) :
    Maintains I J (helloLoop E fuel h : ClientM P W (ServerHelloInfo × HelloLocals)) := by
  induction fuel generalizing h with
  | zero => exact maintains_diverge
  | succ fuel ih =>
    unfold helloLoop
    refine maintains_bind maintains_getClient fun c => ?_
    split
    · exact maintains_bind hread fun _ => ih h
    · exact maintains_failWith E hW _
    · next hm _ =>
      split
      · exact maintains_failWith E hW _
      · refine maintains_bind (maintains_orFail E hW (maintains_lift (fun _ h => h) _))
          fun sh => ?_
        split
        · exact maintains_failWith E hW _
        · split
          · exact maintains_bind (maintains_retryHello E hW hH h hm sh) fun h' => ih h'
          · refine maintains_bind (maintains_hashMessage hH.still _) fun _ => ?_
            refine maintains_bind (maintains_consumeHello E hW hH) fun _ => ?_
            exact maintains_bind (maintains_of_emit fun s => hH.serverHello s _ _) fun _ =>
              maintains_pure _

include hH hW in
/-- Everything up to the first ClientHello. -/
theorem maintains_startHello (config : ClientConfig) :
    Maintains I J (startHello E config : ClientM P W HelloLocals) := by
  unfold startHello
  refine maintains_bind (maintains_deref _) fun platform => ?_
  refine maintains_bind (maintains_orFail E hW (maintains_callWorld hH.still (fun _ h => h) _))
    fun random => ?_
  refine maintains_bind (maintains_orFail E hW (maintains_callWorld hH.still (fun _ h => h) _))
    fun sid => ?_
  refine maintains_bind (maintains_generateKeyShare E hH.still hW _ _) fun publicLen => ?_
  refine maintains_bind maintains_getClient fun c => ?_
  refine maintains_bind (maintains_sendClientHello E hH.still hW _
    fun s encoded => hH.clientHello s _ encoded) fun _ => ?_
  refine maintains_bind ?_ fun _ => maintains_pure _
  intro s hs
  rw [wp_modifyClient]
  exact hH.shorten s _ ⟨rfl, List.nil_suffix⟩ hs

include hQ in
/-- What is closed under quiet changes is so under the hello loop. -/
theorem Quiet.helloClosed : HelloClosed I where
  still := Quiet.still_closed hQ
  shorten := Quiet.shorten hQ
  clientHello s _ _ := hQ _ _ (quiet_emit s rfl)
  retry s _ _ := hQ _ _ (quiet_emit s rfl)
  serverHello s _ _ := hQ _ _ (quiet_emit s rfl)

include hQ hW in
/-- A record of the hello loop is a quiet change. -/
theorem Quiet.readHelloRecord : Maintains I J (readHelloRecord E : ClientM P W Unit) :=
  maintains_readHelloRecord E (Quiet.still_closed hQ) hW
    (fun s _ => hQ s _ (quiet_emit s rfl)) fun _ => maintains_appendFragment hQ (fun _ h => h) _ _

end Fail

end XboxTls.Analysis
