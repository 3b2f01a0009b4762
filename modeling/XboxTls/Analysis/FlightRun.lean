import XboxTls.Analysis.Frames
import XboxTls.Analysis.RecordLayer
import XboxTls.Interface.HandshakeLog

/-!
# The flight loop writes a flight log

Whenever the loop over the encrypted flight ends, the events since its start are a
`FlightLog`: the transcript holds exactly the messages that were accepted, and these are
the bytes that reached the deframer, however the records cut them (`flightLoop_log`).
-/

set_option autoImplicit false

namespace XboxTls.Analysis

open Programs Programs.Prog XboxTls.Model XboxTls.Interface

variable {P : Crypto} {W : Type} (E : Env W)

/-! ## Small methods that end well -/

section Small

variable {α : Type}

/-- `fail(); return e;` is not a good end. -/
theorem wpOk_failWith (e : Error) (Q : α → System P W → Prop) (s : System P W) :
    wpOk (failWith E e) Q s := by
  intro a s' hrun
  rw [failWith_apply] at hrun
  cases hrun

/-- A failing exit changes nothing for a value. -/
theorem wpOk_orFail {x : ClientM P W α} {Q : α → System P W → Prop} {s : System P W}
    (h : wpOk x Q s) : wpOk (orFail E x) Q s :=
  wpOk_onError h fun e s' => wpOk_failWith E e Q s'

/-- What was read is whatever the stream brought. -/
theorem wpOk_recvLoop (stream fuel total : ℕ) (have_ : Bytes) {Q : Bytes → System P W → Prop}
    {s : System P W} (h : ∀ bytes w, Q bytes { s with world := w }) :
    wpOk (recvLoop E stream fuel total have_) Q s := by
  induction fuel generalizing have_ s with
  | zero => exact (wpOk_pure _ _ _).mpr (h have_ s.world)
  | succ fuel ih =>
    unfold recvLoop
    split
    · rw [wpOk_bind]
      apply wpOk_callWorld
      intro b w
      split
      · exact wpOk_throw _ _ _
      · exact ih _ fun bytes w' => h bytes w'
    · exact (wpOk_pure _ _ _).mpr (h have_ s.world)

/-- A call to the outside world that returns. -/
theorem wpOk_world {x : Prog W Error α} {Q : α → System P W → Prop} {s : System P W}
    (h : ∀ a w, x s.world = some (.ok a, w) → Q a { s with world := w }) :
    wpOk (callWorld x) Q s := by
  intro a s' hrun
  unfold callWorld at hrun
  cases hx : x s.world with
  | none =>
    rw [hx] at hrun
    cases hrun
  | some out =>
    obtain ⟨r, w⟩ := out
    rw [hx] at hrun
    cases hrun
    exact h a w hx

/-- Reading a record moves the outside world only. -/
theorem wpOk_readRecord (capacity : ℕ) {Q : Bytes → System P W → Prop} {s : System P W}
    (h : ∀ record w, Q record { s with world := w }) : wpOk (readRecord E capacity) Q s := by
  unfold readRecord
  rw [wpOk_bind, wpOk_getClient]
  split
  · exact wpOk_throw _ _ _
  · split
    · exact wpOk_throw _ _ _
    · rw [wpOk_bind]
      apply wpOk_recvLoop
      intro header w
      rw [wpOk_bind, wpOk_lift]
      intro rh _
      split
      · exact wpOk_throw _ _ _
      · apply wpOk_recvLoop
        intro record w'
        exact h record w'

/-- A write that returned is in the trace. -/
theorem wpOk_writeStream (stream : ℕ) (bytes : Bytes) {Q : Unit → System P W → Prop}
    {s : System P W}
    (h : ∀ w, Q () { s with world := w, trace := s.trace ++ [.wrote bytes] }) :
    wpOk (writeStream E stream bytes) Q s := by
  unfold writeStream
  rw [wpOk_bind]
  apply wpOk_callWorld
  intro _ w
  rw [wpOk_emit]
  exact h w

/-- A record that was opened is in the trace. -/
theorem wpOk_unprotectRecord (slot : KeySlot) (record : Bytes)
    {Q : UInt8 × Bytes → System P W → Prop} {s : System P W}
    (h : ∀ t content, Q (t, content) (afterOpen s slot record)) :
    wpOk (unprotectRecord slot record) Q s := by
  have hwp : wp (unprotectRecord slot record) (fun r s' => ∀ a, r = .ok a → Q a s') s := by
    apply wp_unprotectRecord
    · intro e a ha
      cases ha
    · intro e plaintext _ a ha
      cases ha
    · intro t content _ a ha
      cases ha
      exact h t content
  exact wpOk_mono (wpOk_of_wp hwp) fun a s' ha => ha a rfl

/-- A fragment that was appended is at the end of the deframer. -/
theorem wpOk_appendFragment (stage : Stage) (content : Bytes) {Q : Unit → System P W → Prop}
    {s : System P W}
    (h : ∀ d, d.buffer = s.client.deframer.buffer ++ content → Q ()
      { s with
        client := { s.client with deframer := d }
        trace := s.trace ++ [.fragment stage s.client.deframer.buffer content] }) :
    wpOk (appendFragment stage content) Q s := by
  unfold appendFragment
  rw [wpOk_bind, wpOk_getClient, wpOk_bind, wpOk_lift]
  intro d hd
  rw [wpOk_bind, wpOk_modifyClient, wpOk_emit]
  apply h
  unfold HandshakeDeframer.append at hd
  split at hd
  · cases hd
  · cases hd
    rfl

/-- The message that was consumed was at the front of the deframer. -/
theorem wpOk_consumeMessage {Q : Unit → System P W → Prop} {s : System P W}
    (h : ∀ d msg n, parseHandshakeMessage s.client.deframer.buffer = .ok (msg, n) →
      d.buffer = s.client.deframer.buffer.drop n →
      Q () { s with client := { s.client with deframer := d } }) :
    wpOk consumeMessage Q s := by
  unfold consumeMessage
  rw [wpOk_bind, wpOk_getClient, wpOk_bind, wpOk_lift]
  intro d hd
  rw [wpOk_modifyClient]
  unfold HandshakeDeframer.consume at hd
  cases hparse : parseHandshakeMessage s.client.deframer.buffer with
  | error e =>
    rw [hparse] at hd
    cases hd
  | ok m =>
    rw [hparse] at hd
    cases hd
    exact h _ m.1 m.2 hparse rfl

end Small

/-! ## Messages in the deframer -/

/-- A message at the front of the deframer is a prefix of it. -/
theorem parseHandshakeMessage_front {input : Bytes} {msg : HandshakeMessage} {n : ℕ}
    (h : parseHandshakeMessage input = .ok (msg, n)) :
    msg.encoded = input.take n ∧ msg.encoded.length = n ∧ msg.encoded ++ input.drop n = input := by
  unfold parseHandshakeMessage at h
  split at h
  · cases h
  · dsimp only at h
    split at h
    · cases h
    · split at h
      · cases h
      · next hlen =>
        cases h
        refine ⟨rfl, ?_, List.take_append_drop _ _⟩
        rw [List.length_take]
        omega

/-- A message that was cut out of the deframer is parsed as the same message again. -/
theorem parseHandshakeMessage_encoded {input : Bytes} {msg : HandshakeMessage} {n : ℕ}
    (h : parseHandshakeMessage input = .ok (msg, n)) :
    parseHandshakeMessage msg.encoded = .ok (msg, n) := by
  have hfront := parseHandshakeMessage_front h
  unfold parseHandshakeMessage at h
  split at h
  · cases h
  · dsimp only at h
    split at h
    · cases h
    · next hbody =>
      split at h
      · cases h
      · next hlen hlen' =>
        cases h
        have htake : (input.take (loadBe24 input 1 + 4)).length = loadBe24 input 1 + 4 := by
          rw [List.length_take]
          omega
        have hload : loadBe24 (input.take (loadBe24 input 1 + 4)) 1 = loadBe24 input 1 :=
          loadBe24_take (by omega)
        have hslice : slice (input.take (loadBe24 input 1 + 4)) 4 (loadBe24 input 1) =
            slice input 4 (loadBe24 input 1) := by
          unfold slice
          rw [List.drop_take, Nat.add_sub_cancel, List.take_take, Nat.min_self]
        unfold parseHandshakeMessage
        dsimp only
        rw [hload, htake, if_neg (by omega), if_neg hbody, if_neg (by omega), hslice,
          byteAt_take (by omega), List.take_take, Nat.min_self]

/-- A message that is peeked is at the front. -/
theorem peek_ok {d : HandshakeDeframer} {msg : HandshakeMessage} (h : d.peek = .ok msg) :
    ∃ n, parseHandshakeMessage d.buffer = .ok (msg, n) := by
  unfold HandshakeDeframer.peek at h
  cases hparse : parseHandshakeMessage d.buffer with
  | error e =>
    rw [hparse] at h
    cases h
  | ok m =>
    rw [hparse] at h
    cases h
    exact ⟨m.2, rfl⟩

/-! ## One message -/

/-- Hashing one more message. -/
theorem transcriptUpdate_encodings {base : Bytes} {msgs : List HandshakeMessage}
    (msg : HandshakeMessage) {t : TranscriptHash P}
    (h : t = P.shaUpdate P.shaReset (base ++ encodings msgs)) :
    transcriptUpdate P t msg.encoded =
      P.shaUpdate P.shaReset (base ++ encodings (msgs ++ [msg])) := by
  rw [transcriptUpdate_eq, h, P.shaUpdate_append, encodings_concat, List.append_assoc]

/-- The verifier accepts nothing else. -/
structure Abides (E : Env W) (V : Verdicts) : Prop where
  chain : ∀ verifier chain hostname w w',
    E.verifyChain verifier chain hostname w = some (.ok (), w') → V.chain verifier chain hostname
  signature : ∀ verifier scheme leaf message signature w w',
    E.verifySignature verifier scheme leaf message signature w = some (.ok (), w') →
      V.signature verifier scheme leaf message signature

/-- An environment abides by what it accepts. -/
theorem abides_acceptedBy : Abides E (acceptedBy E) :=
  ⟨fun _ _ _ w w' h => ⟨w, w', h⟩, fun _ _ _ _ _ w w' h => ⟨w, w', h⟩⟩

/-- What a step of the flight loop leaves alone. -/
structure SameSession (s s' : System P W) : Prop where
  state : s'.client.state = s.client.state
  config : s'.client.config = s.client.config
  schedule : s'.client.schedule = s.client.schedule

/-- A message was accepted: it is hashed, and the log has grown by its step. -/
structure Accepted (base : Bytes) (terms : FlightTerms) (msgs : List HandshakeMessage)
    (log : List Event) (s : System P W) (msg : HandshakeMessage) (l' : FlightLocals)
    (s' : System P W) : Prop where
  same : SameSession s s'
  deframer : s'.client.deframer = s.client.deframer
  transcript : s'.client.transcript =
    P.shaUpdate P.shaReset (base ++ encodings (msgs ++ [msg]))
  trace : ∃ evs, s'.trace = s.trace ++ evs ∧ (∀ stage, received stage evs = []) ∧
    FlightLog P base terms (msgs ++ [msg]) l' (log ++ handshakeEvents evs)

/-- The client judges the flight by these terms. -/
structure Judges (E : Env W) (terms : FlightTerms) (s : System P W) : Prop where
  verifier : s.client.config.verifier = some terms.verifier
  hostname : s.client.config.hostname = some terms.hostname
  secret : s.client.schedule.serverHandshakeTrafficSecret = terms.serverSecret
  verdicts : Abides E terms.verdicts

section OneMessage

variable {base : Bytes} {terms : FlightTerms} {msgs : List HandshakeMessage} {l : FlightLocals}
variable {log : List Event} {msg : HandshakeMessage} {s : System P W}
variable (hlog : FlightLog P base terms msgs l log) (hopen : l.gotFinished = false)
variable (hself : parseHandshakeMessage msg.encoded = .ok (msg, msg.encoded.length))
variable (htranscript : s.client.transcript = P.shaUpdate P.shaReset (base ++ encodings msgs))

include hlog hopen hself htranscript

/-- EncryptedExtensions that were handled are logged. -/
theorem wpOk_handleEncryptedExtensions (htype : msg.type = hsEncryptedExtensions) :
    wpOk (handleEncryptedExtensions msg l) (Accepted base terms msgs log s msg) s := by
  have hend : ∀ alpn : Bytes, Accepted base terms msgs log s msg l
      { s with
        client := { s.client with
          negotiatedAlpn := alpn
          transcript := transcriptUpdate P s.client.transcript msg.encoded }
        trace := s.trace ++ [.flight msg] } := by
    intro alpn
    exact ⟨⟨rfl, rfl, rfl⟩, rfl, transcriptUpdate_encodings msg htranscript, [.flight msg], rfl,
      fun _ => rfl, hlog.snoc hopen hself (.extensions htype)⟩
  unfold handleEncryptedExtensions
  rw [wpOk_bind, wpOk_lift]
  intro ee _
  rw [wpOk_bind]
  unfold storeAlpn
  split
  · rw [wpOk_pure]
    simp only [hashMessage, wpOk_bind, wpOk_modifyClient, wpOk_emit, wpOk_pure]
    exact hend s.client.negotiatedAlpn
  · next alpn _ =>
    split
    · exact wpOk_throw _ _ _
    · simp only [hashMessage, wpOk_bind, wpOk_modifyClient, wpOk_emit, wpOk_pure]
      exact hend alpn

/-- A Certificate that was handled is logged and saved. -/
theorem wpOk_handleCertificate (htype : msg.type = hsCertificate) :
    wpOk (handleCertificate msg l) (Accepted base terms msgs log s msg) s := by
  unfold handleCertificate
  split
  · exact wpOk_throw _ _ _
  · rw [wpOk_bind, wpOk_modifyClient, wpOk_bind, wpOk_lift]
    intro saved hsaved
    rw [hself] at hsaved
    cases hsaved
    rw [wpOk_bind, wpOk_lift]
    intro info hparse
    simp only [hashMessage, wpOk_bind, wpOk_modifyClient, wpOk_emit, wpOk_pure]
    exact ⟨⟨rfl, rfl, rfl⟩, rfl, transcriptUpdate_encodings msg htranscript, [.flight msg], rfl,
      fun _ => rfl, hlog.snoc hopen hself (.certificate htype hparse)⟩

/-- A Finished that was handled had the right verify data. -/
theorem wpOk_handleFinished (htype : msg.type = hsFinished) (hterms : Judges E terms s) :
    wpOk (handleFinished msg l) (Accepted base terms msgs log s msg) s := by
  unfold handleFinished
  rw [wpOk_bind, wpOk_getClient, wpOk_bind, wpOk_lift]
  intro _ hverify
  simp only [hashMessage, wpOk_bind, wpOk_modifyClient, wpOk_emit, wpOk_pure]
  have hhash : transcriptSnapshot P s.client.transcript = P.sha256 (base ++ encodings msgs) := by
    rw [htranscript]
    rfl
  rw [hhash, hterms.secret] at hverify
  refine ⟨⟨rfl, rfl, rfl⟩, rfl, transcriptUpdate_encodings msg htranscript,
    [.finishedVerified (P.sha256 (base ++ encodings msgs)), .flight msg], ?_,
    fun _ => rfl, hlog.snoc hopen hself (.finished htype hverify)⟩
  dsimp only
  rw [hhash, List.append_assoc]
  rfl

/-- A CertificateVerify is accepted only through `authenticate_server_flight`. -/
theorem wpOk_handleCertificateVerify (htype : msg.type = hsCertificateVerify)
    (hterms : Judges E terms s) :
    wpOk (handleCertificateVerify E msg l) (Accepted base terms msgs log s msg) s := by
  have hhash : transcriptSnapshot P s.client.transcript = P.sha256 (base ++ encodings msgs) := by
    rw [htranscript]
    rfl
  unfold handleCertificateVerify
  split
  · exact wpOk_throw _ _ _
  · next hcert =>
    have hcert : l.haveCert = true := by simpa using hcert
    rw [wpOk_bind, wpOk_lift]
    intro cv hparse
    rw [wpOk_bind, wpOk_getClient, wpOk_bind, hterms.hostname, hterms.verifier, hhash]
    unfold authenticateServerFlight
    dsimp only
    rw [wpOk_bind, wpOk_lift]
    intro chain hchain
    rw [wpOk_bind, wpOk_lift]
    intro leaf hleaf
    rw [wpOk_bind, wpOk_lift]
    intro _ hname
    rw [wpOk_bind]
    apply wpOk_world
    intro _ w haccepted
    rw [wpOk_bind, wpOk_emit, wpOk_bind, wpOk_lift]
    intro scheme hscheme
    rw [wpOk_bind, wpOk_lift]
    intro _ hkind
    rw [wpOk_bind, wpOk_lift]
    intro message hmessage
    rw [wpOk_bind]
    apply wpOk_world
    intro _ w' hsigned
    simp only [hashMessage, wpOk_bind, wpOk_modifyClient, wpOk_emit, wpOk_pure]
    refine ⟨⟨rfl, rfl, rfl⟩, rfl, transcriptUpdate_encodings msg htranscript,
      [.chainVerified chain terms.hostname, .signatureVerified scheme leaf message cv.signature,
        .authenticated l.certInfo cv (P.sha256 (base ++ encodings msgs)) terms.hostname,
        .flight msg], ?_, fun _ => rfl,
      hlog.snoc hopen hself (.verify hcert htype hparse hchain hleaf hname
        (hterms.verdicts.chain _ _ _ _ _ haccepted) hscheme hkind hmessage
        (hterms.verdicts.signature _ _ _ _ _ _ _ hsigned))⟩
    simp only [List.append_assoc]
    rfl

end OneMessage

/-- **One message of the flight.**  Whatever `handle_handshake_message` accepts extends the
log by one of the steps of `FlightLog`. -/
theorem wpOk_handleHandshakeMessage {base : Bytes} {terms : FlightTerms}
    {msgs : List HandshakeMessage} {l : FlightLocals} {log : List Event}
    {msg : HandshakeMessage} {s : System P W}
    (hlog : FlightLog P base terms msgs l log) (hopen : l.gotFinished = false)
    (hself : parseHandshakeMessage msg.encoded = .ok (msg, msg.encoded.length))
    (htranscript : s.client.transcript = P.shaUpdate P.shaReset (base ++ encodings msgs))
    (hterms : Judges E terms s) :
    wpOk (handleHandshakeMessage E msg l) (Accepted base terms msgs log s msg) s := by
  unfold handleHandshakeMessage
  split
  · next htype => exact wpOk_handleEncryptedExtensions hlog hopen hself htranscript htype
  · split
    · next htype => exact wpOk_handleCertificate hlog hopen hself htranscript htype
    · split
      · next htype => exact wpOk_handleCertificateVerify E hlog hopen hself htranscript htype hterms
      · split
        · next htype => exact wpOk_handleFinished E hlog hopen hself htranscript htype hterms
        · exact wpOk_throw _ _ _

/-! ## The loop -/

/-- The flight so far: its log, its transcript, and the bytes that the records brought. -/
structure InFlight (s₀ : System P W) (base : Bytes) (terms : FlightTerms) (l : FlightLocals)
    (s : System P W) : Prop where
  same : SameSession s₀ s
  log : ∃ evs msgs, s.trace = s₀.trace ++ evs ∧
    FlightLog P base terms msgs l (handshakeEvents evs) ∧
    s.client.transcript = P.shaUpdate P.shaReset (base ++ encodings msgs) ∧
    received .handshake evs = encodings msgs ++ s.client.deframer.buffer ∧
    received .plaintext evs = []

/-- One step of the session after the other. -/
theorem SameSession.trans {s s' s'' : System P W} (h : SameSession s s')
    (h' : SameSession s' s'') : SameSession s s'' :=
  ⟨h'.state.trans h.state, h'.config.trans h.config, h'.schedule.trans h.schedule⟩

section Loop

/-- Within a session the flight is judged by the same terms. -/
theorem Judges.same {terms : FlightTerms} {s s' : System P W} (h : Judges E terms s)
    (hsame : SameSession s s') : Judges E terms s' := by
  refine ⟨?_, ?_, ?_, h.verdicts⟩
  · rw [hsame.config, h.verifier]
  · rw [hsame.config, h.hostname]
  · rw [hsame.schedule, h.secret]

variable {s₀ : System P W} {base : Bytes} {terms : FlightTerms}

/-- Draining the deframer accepts messages one after the other. -/
theorem wpOk_drainFlight (fuel : ℕ) {l : FlightLocals} {s : System P W}
    (hterms : Judges E terms s₀) (hopen : l.gotFinished = false)
    (hs : InFlight s₀ base terms l s) :
    wpOk (drainFlight E fuel l) (InFlight s₀ base terms) s := by
  induction fuel generalizing l s with
  | zero => exact wpOk_diverge _ _
  | succ fuel ih =>
    obtain ⟨hsame, evs, msgs, htrace, hlog, htranscript, hreceived, hplain⟩ := hs
    unfold drainFlight
    rw [wpOk_bind, wpOk_getClient]
    split
    · rw [wpOk_pure]
      exact ⟨hsame, evs, msgs, htrace, hlog, htranscript, hreceived, hplain⟩
    · exact wpOk_throw _ _ _
    · next msg hpeek =>
      obtain ⟨n, hparse⟩ := peek_ok hpeek
      have hfront := parseHandshakeMessage_front hparse
      have hself : parseHandshakeMessage msg.encoded = .ok (msg, msg.encoded.length) := by
        rw [hfront.2.1]
        exact parseHandshakeMessage_encoded hparse
      refine wpOk_bind_of_spec (wpOk_handleHandshakeMessage E hlog hopen hself htranscript
        (hterms.same E hsame)) ?_
      intro l' s₁ haccepted
      obtain ⟨hsame₁, hdeframer₁, htranscript₁, evs', htrace₁, hreceived', hlog₁⟩ := haccepted
      rw [wpOk_bind]
      apply wpOk_consumeMessage
      intro d msg' n' hparse' hbuffer
      have hn : n' = n := by
        rw [hdeframer₁, hparse] at hparse'
        cases hparse'
        rfl
      have hnext : InFlight s₀ base terms l'
          { s₁ with client := { s₁.client with deframer := d } } := by
        have hsame₂ := hsame.trans hsame₁
        refine ⟨⟨hsame₂.state, hsame₂.config, hsame₂.schedule⟩, evs ++ evs', msgs ++ [msg], ?_,
          ?_, htranscript₁, ?_, ?_⟩
        · dsimp only
          rw [htrace₁, htrace, List.append_assoc]
        · rw [handshakeEvents_append]
          exact hlog₁
        · dsimp only
          rw [received_append, hreceived', List.append_nil, hreceived, encodings_concat, hbuffer,
            hdeframer₁, hn, List.append_assoc, hfront.2.2]
        · rw [received_append, hplain, hreceived']
          rfl
      split
      · rw [wpOk_pure]
        exact hnext
      · next hgoing => exact ih (by simpa using hgoing) hnext

/-- One record of the flight. -/
theorem wpOk_flightRound {l : FlightLocals} {s : System P W}
    (hterms : Judges E terms s₀) (hopen : l.gotFinished = false)
    (hs : InFlight s₀ base terms l s) :
    wpOk (flightRound E l) (InFlight s₀ base terms) s := by
  obtain ⟨hsame, evs, msgs, htrace, hlog, htranscript, hreceived, hplain⟩ := hs
  unfold flightRound
  rw [wpOk_bind]
  apply wpOk_readRecord
  intro record w
  rw [wpOk_bind, wpOk_lift]
  intro rh _
  split
  · rw [wpOk_bind, wpOk_emit, wpOk_pure]
    refine ⟨⟨hsame.state, hsame.config, hsame.schedule⟩, evs ++ [.changeCipherSpec .handshake
      record], msgs, ?_, ?_, htranscript, ?_, ?_⟩
    · dsimp only
      rw [htrace, List.append_assoc]
    · rw [handshakeEvents_append]
      simpa [handshakeEvents, handshakeEvent] using hlog
    · rw [received_append, hreceived]
      exact List.append_nil _
    · rw [received_append, hplain]
      rfl
  · split
    · rw [wpOk_bind]
      exact fun e s' _ => wpOk_throw _ _ _
    · split
      · exact wpOk_throw _ _ _
      · rw [wpOk_bind]
        apply wpOk_unprotectRecord
        intro t content
        dsimp only
        split
        · rw [wpOk_bind]
          exact fun e s' _ => wpOk_throw _ _ _
        · split
          · exact wpOk_throw _ _ _
          · rw [wpOk_bind]
            apply wpOk_appendFragment
            intro d hbuffer
            rw [wpOk_bind, wpOk_getClient]
            apply wpOk_drainFlight E _ hterms hopen
            refine ⟨⟨hsame.state, hsame.config, hsame.schedule⟩,
              evs ++ [.opened .serverHs (s.client.keys .serverHs) record,
                .fragment .handshake s.client.deframer.buffer content], msgs, ?_, ?_,
              htranscript, ?_, ?_⟩
            · simp only [afterOpen]
              rw [htrace, List.append_assoc, List.append_assoc]
              rfl
            · rw [handshakeEvents_append]
              simpa [handshakeEvents, handshakeEvent] using hlog
            · dsimp only
              rw [received_append, hreceived, hbuffer, List.append_assoc]
              simp [received, afterOpen, TlsClient.setKeys]
            · rw [received_append, hplain]
              rfl

/-- **The flight loop.**  When it ends, a Finished was accepted and the events are a flight
log. -/
theorem wpOk_flightLoop (fuel : ℕ) {l : FlightLocals} {s : System P W}
    (hterms : Judges E terms s₀)
    (hs : InFlight s₀ base terms l s) :
    wpOk (flightLoop E fuel l)
      (fun _ s' => ∃ l', l'.gotFinished = true ∧ InFlight s₀ base terms l' s') s := by
  induction fuel generalizing l s with
  | zero => exact wpOk_diverge _ _
  | succ fuel ih =>
    unfold flightLoop
    split
    · next hdone =>
      rw [wpOk_pure]
      exact ⟨l, hdone, hs⟩
    · next hgoing =>
      have hopen : l.gotFinished = false := by simpa using hgoing
      refine wpOk_bind_of_spec (wpOk_flightRound E hterms hopen hs) ?_
      intro l' s' hs'
      exact ih hs'

end Loop

end XboxTls.Analysis
