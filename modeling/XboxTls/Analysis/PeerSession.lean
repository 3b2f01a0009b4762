import XboxTls.Analysis.Connected
import XboxTls.Analysis.PeerLink

/-!
# The client and its peer in step

Whatever order the calls of the client and the steps of the peer come in, each side opens the
records of the other with the keys that they were sealed with, if the deframer of the client is
empty when they start.
-/

set_option autoImplicit false

namespace XboxTls.Analysis

open Programs Programs.Prog XboxTls.Model XboxTls.Interface

variable {P : Crypto} {W : Type}

/-! ## What the events say -/

/-- The epochs of a longer trace are those of its parts. -/
theorem epoch_append (slot : KeySlot) (a b : List Event) :
    epoch slot (a ++ b) = epoch slot a + epoch slot b :=
  List.countP_append

/-- Reading does not count for the direction to the peer. -/
theorem ReadStep.sealed {s s' : System P W} (h : ReadStep s s') :
    sealedRecords .clientApp s'.trace = sealedRecords .clientApp s.trace ∧
      epoch .clientApp s'.trace = epoch .clientApp s.trace := by
  obtain ⟨evs, htrace, hevs⟩ := h.trace
  rw [htrace, sealedRecords_append, epoch_append]
  have hsealed : sealedRecords .clientApp evs = [] := by
    unfold sealedRecords
    rw [List.filterMap_eq_nil_iff]
    intro ev hev
    have hread := hevs ev hev
    cases ev <;> first | rfl | cases hread
  have hepoch : epoch .clientApp evs = 0 := by
    unfold epoch
    rw [List.countP_eq_zero]
    intro ev hev
    have hread := hevs ev hev
    cases ev with
    | keysDerived slot _ =>
      cases slot with
      | clientApp => cases hread
      | _ => simp
    | _ => simp
  rw [hsealed, hepoch, List.append_nil]
  exact ⟨rfl, rfl⟩

/-- Answering does not count for the direction from the peer. -/
theorem WriteStep.opened {s s' : System P W} (h : WriteStep s s') :
    openedRecords .serverApp s'.trace = openedRecords .serverApp s.trace ∧
      postMessages s'.trace = postMessages s.trace ∧
      epoch .serverApp s'.trace = epoch .serverApp s.trace := by
  obtain ⟨evs, htrace, hevs⟩ := h.trace
  have hbetween : ∀ ev ∈ evs, betweenMessages ev = true := by
    intro ev hev
    have hwrite := hevs ev hev
    cases ev with
    | opened _ _ _ => cases hwrite
    | postHandshake _ => cases hwrite
    | _ => rfl
  have hepoch : epoch .serverApp evs = 0 := by
    unfold epoch
    rw [List.countP_eq_zero]
    intro ev hev
    have hwrite := hevs ev hev
    cases ev with
    | keysDerived slot _ =>
      cases slot with
      | serverApp => cases hwrite
      | _ => simp
    | _ => simp
  obtain ⟨hopened, hpost⟩ := openedRecords_between hbetween
  rw [htrace, openedRecords_append, postMessages_append, epoch_append, hopened, hpost, hepoch,
    List.append_nil, List.append_nil]
  exact ⟨rfl, rfl, rfl⟩

/-! ## Taking messages, however an answer ends -/

/-- The client after it took messages. -/
structure Took (messages : List PostMessage) (s s' : System P W) : Prop
    extends Untouched s s' where
  capacity : s'.client.deframer.capacity = s.client.deframer.capacity
  read : readTraffic s'.client =
    (Traffic.update P)^[(Content.handshake messages).keyUpdates] (readTraffic s.client)
  opened : openedRecords .serverApp s'.trace = openedRecords .serverApp s.trace
  epoch : epoch .serverApp s'.trace =
    epoch .serverApp s.trace + (Content.handshake messages).keyUpdates

/-- No messages were taken. -/
theorem Took.nil (s : System P W) : Took [] s s :=
  ⟨Untouched.refl s, rfl, rfl, rfl, rfl⟩

/-- One more message was taken first. -/
theorem Took.cons {m : PostMessage} {messages : List PostMessage} {s s' s'' : System P W}
    (h : Took [m] s s') (h' : Took messages s' s'') : Took (m :: messages) s s'' where
  toUntouched := h.toUntouched.trans h'.toUntouched
  capacity := h'.capacity.trans h.capacity
  read := by rw [h'.read, h.read, keyUpdates_cons m messages, Function.iterate_add_apply]
  opened := h'.opened.trans h.opened
  epoch := by
    rw [h'.epoch, h.epoch, keyUpdates_cons m messages]
    omega

section Taking

variable (E : Env W) (K : System P W → Prop) (J : Error → System P W → Prop)

/-- How the answer to a KeyUpdate ends. -/
def Answered (s : System P W) : Except Error Unit → System P W → Prop
  | .ok _, s' => WriteStep s s' ∧ K s'
  | .error e, s' => J e s'

/-- How the handling of a message ends. -/
def Handled (m : PostMessage) (s : System P W) : Except Error Unit → System P W → Prop
  | .ok _, s' => K s' ∧ Took [m] s s' ∧ s'.client.deframer = s.client.deframer ∧
      postMessages s'.trace = postMessages s.trace
  | .error e, s' => J e s'

/-- How the processing of messages ends. -/
def Drained (messages : List PostMessage) (s : System P W) : Except Error Unit → System P W → Prop
  | .ok _, s' => K s' ∧ Took messages s s' ∧ s'.client.deframer.buffer = [] ∧
      postMessages s'.trace = postMessages s.trace ++ messages.map PostMessage.message
  | .error e, s' => J e s'

variable {K J}
variable (hread : ∀ s s', ReadStep s s' →
  openedRecords .serverApp s'.trace = openedRecords .serverApp s.trace → K s → K s')
variable (hanswer : ∀ s, s.client.state = .connected → K s → wp (answer E) (Answered K J s) s)

/-- A KeyUpdate was taken. -/
theorem took_afterKeyUpdate (requestUpdate : Bool) (s : System P W) :
    Took [.keyUpdate requestUpdate] s (afterKeyUpdate s) := by
  refine ⟨(readStep_afterKeyUpdate s).toUntouched, rfl, rfl, ?_, ?_⟩
  · show openedRecords .serverApp (s.trace ++ keyUpdateEvents s) = _
    rw [openedRecords_append]
    exact List.append_nil _
  · show epoch .serverApp (s.trace ++ keyUpdateEvents s) = _
    rw [epoch_append]
    rfl

/-- The answer to a KeyUpdate takes no message. -/
theorem Took.answered {messages : List PostMessage} {s s' s'' : System P W}
    (h : Took messages s s') (h' : WriteStep s' s'') : Took messages s s'' where
  toUntouched := h.toUntouched.trans h'.toUntouched
  capacity := by rw [h'.deframer, h.capacity]
  read := h'.read.trans h.read
  opened := h'.opened.1.trans h.opened
  epoch := h'.opened.2.2.trans h.epoch

include hread hanswer in
/-- One message. -/
theorem handled_handlePostHandshake (m : PostMessage) {s : System P W} (hs : K s)
    (hstate : s.client.state = .connected) :
    wp (handlePostHandshake E m.message) (Handled K J m s) s := by
  cases m with
  | newSessionTicket body =>
    have hrun : handlePostHandshake E (PostMessage.newSessionTicket body).message s =
        some (.ok (), s) := by
      unfold handlePostHandshake
      rw [PostMessage.type_newSessionTicket, if_pos rfl]
      rfl
    exact wp_of_run hrun ⟨hs, ⟨Untouched.refl s, rfl, rfl, rfl, rfl⟩, rfl, rfl⟩
  | keyUpdate requestUpdate =>
    have hstep := readStep_afterKeyUpdate s
    have htook := took_afterKeyUpdate requestUpdate s
    have hK : K (afterKeyUpdate s) := hread _ _ hstep htook.opened hs
    have hpost : postMessages (afterKeyUpdate s).trace = postMessages s.trace := by
      show postMessages (s.trace ++ keyUpdateEvents s) = _
      rw [postMessages_append]
      exact List.append_nil _
    refine wp_congr (handleKeyUpdate_apply E requestUpdate s) ?_
    cases requestUpdate with
    | false =>
      rw [if_neg Bool.false_ne_true, wp_pure]
      exact ⟨hK, htook, rfl, hpost⟩
    | true =>
      rw [if_pos rfl]
      refine wp_mono (hanswer (afterKeyUpdate s) hstate hK) ?_
      intro r s' hr
      cases r with
      | error e => exact hr
      | ok u =>
        obtain ⟨hwrite, hs'⟩ := hr
        exact ⟨hs', htook.answered hwrite, hwrite.deframer, hwrite.opened.2.1.trans hpost⟩

include hread hanswer in
/-- The messages in the deframer, one after the other. -/
theorem drained_drainPostHandshake (messages : List PostMessage) (fuel : ℕ) {s : System P W}
    (hs : K s) (hstate : s.client.state = .connected)
    (hbuffer : s.client.deframer.buffer = encodeMessages messages)
    (hlength : (encodeMessages messages).length ≤ 0xFFFFFF) :
    wp (drainPostHandshake E fuel) (Drained K J messages s) s := by
  induction messages generalizing fuel s with
  | nil =>
    cases fuel with
    | zero => exact wp_diverge _ _
    | succ fuel =>
      refine wp_of_run (drainPostHandshake_empty E fuel hbuffer) ?_
      exact ⟨hs, Took.nil s, hbuffer, (List.append_nil _).symm⟩
  | cons m messages ih =>
    cases fuel with
    | zero => exact wp_diverge _ _
    | succ fuel =>
      rw [encodeMessages_cons] at hbuffer hlength
      rw [List.length_append] at hlength
      have hparse := parseHandshakeMessage_post m (encodeMessages messages) (by omega)
      rw [← hbuffer] at hparse
      unfold drainPostHandshake
      rw [wp_bind, wp_getClient, thenWp_ok, peek_of_parse hparse]
      dsimp only
      rw [wp_bind]
      refine wp_mono (handled_handlePostHandshake E hread hanswer m hs hstate) ?_
      intro r s₁ hr
      cases r with
      | error e => exact hr
      | ok u =>
        obtain ⟨hs₁, htook₁, hdeframer₁, hpost₁⟩ := hr
        rw [← hdeframer₁] at hparse
        obtain ⟨d, hcapacity, hd, hconsume⟩ := consumeMessage_run hparse
        rw [thenWp_ok, wp_bind]
        refine wp_of_run hconsume ?_
        rw [thenWp_ok, wp_bind, wp_emit, thenWp_ok]
        -- after the message is consumed, the rest of the buffer is the other messages
        have hrest : d.buffer = encodeMessages messages := by
          rw [hd, hdeframer₁, hbuffer, List.drop_left]
        have hstep₂ := readStep_deframer s₁ d
        have hstep₃ := readStep_emit { s₁ with client := { s₁.client with deframer := d } }
          (e := .postHandshake m.message) rfl
        have hopened₃ : openedRecords .serverApp (s₁.trace ++ [.postHandshake m.message]) =
            openedRecords .serverApp s₁.trace := by
          rw [openedRecords_append]
          exact List.append_nil _
        have hepoch₃ : epoch .serverApp (s₁.trace ++ [.postHandshake m.message]) =
            epoch .serverApp s₁.trace := by
          rw [epoch_append]
          rfl
        have hK₃ := hread _ _ hstep₃ hopened₃ (hread _ _ hstep₂ rfl hs₁)
        refine wp_mono (ih fuel hK₃ (htook₁.state.trans hstate) hrest (by omega)) ?_
        intro r s' hr
        cases r with
        | error e => exact hr
        | ok u =>
          obtain ⟨hs', htook, hempty, hpost⟩ := hr
          have hfirst : Took [m] s ⟨{ s₁.client with deframer := d }, s₁.world,
              s₁.trace ++ [.postHandshake m.message]⟩ := {
            toUntouched := htook₁.toUntouched.trans (hstep₂.toUntouched.trans hstep₃.toUntouched)
            capacity := hcapacity.trans htook₁.capacity
            read := htook₁.read
            opened := hopened₃.trans htook₁.opened
            epoch := hepoch₃.trans htook₁.epoch }
          refine ⟨hs', hfirst.cons htook, hempty, ?_⟩
          rw [hpost, postMessages_append, hpost₁, List.append_assoc]
          rfl

include hread hanswer in
/-- **The messages of one record**, however the answers to them end. -/
theorem drained_processPostHandshake (messages : List PostMessage) {s : System P W} (hs : K s)
    (hstate : s.client.state = .connected) (hempty : s.client.deframer.buffer = [])
    (hcapacity : s.client.deframer.capacity = 32768)
    (hlength : (encodeMessages messages).length ≤ 16384) :
    wp (processPostHandshake E (encodeMessages messages)) (Drained K J messages s) s := by
  have hroom : s.client.deframer.buffer.length + (encodeMessages messages).length ≤
      s.client.deframer.capacity := by
    rw [hempty, List.length_nil]
    omega
  obtain ⟨d, hdcapacity, hd, happend⟩ := appendFragment_run .application hroom
  rw [hempty, List.nil_append] at hd
  have hstep₁ := readStep_deframer s d
  have hstep₂ := readStep_emit { s with client := { s.client with deframer := d } }
    (e := .fragment .application s.client.deframer.buffer (encodeMessages messages)) rfl
  have hopened₂ : openedRecords .serverApp (s.trace ++ [.fragment .application
      s.client.deframer.buffer (encodeMessages messages)]) = openedRecords .serverApp s.trace := by
    rw [openedRecords_append]
    exact List.append_nil _
  have hepoch₂ : epoch .serverApp (s.trace ++ [.fragment .application
      s.client.deframer.buffer (encodeMessages messages)]) = epoch .serverApp s.trace := by
    rw [epoch_append]
    rfl
  have hpost₂ : postMessages (s.trace ++ [.fragment .application
      s.client.deframer.buffer (encodeMessages messages)]) = postMessages s.trace := by
    rw [postMessages_append]
    exact List.append_nil _
  have hK₂ := hread _ _ hstep₂ hopened₂ (hread _ _ hstep₁ rfl hs)
  unfold processPostHandshake
  rw [wp_bind]
  refine wp_of_run happend ?_
  rw [thenWp_ok, wp_bind, wp_getClient, thenWp_ok]
  refine wp_mono (drained_drainPostHandshake E hread hanswer messages _ hK₂ hstate hd (by omega)) ?_
  intro r s' hr
  cases r with
  | error e => exact hr
  | ok u =>
    obtain ⟨hs', htook, hlast, hpost⟩ := hr
    refine ⟨hs', ⟨?_, ?_, htook.read, ?_, ?_⟩, hlast, ?_⟩
    · exact hstep₁.toUntouched.trans (hstep₂.toUntouched.trans htook.toUntouched)
    · exact htook.capacity.trans hdcapacity
    · exact htook.opened.trans hopened₂
    · rw [htook.epoch]
      exact congrArg (· + _) hepoch₂
    · rw [hpost]
      exact congrArg (· ++ _) hpost₂

end Taking

/-! ## What the client writes -/

/-- The client has sealed exactly these records since the direction to the peer was `up`. -/
structure Wrote (up : Traffic) (written : List PeerRecord) (s : System P W) : Prop where
  traffic : writeTraffic s.client = trafficAfter P up written
  sealed : sealedRecords .clientApp s.trace = sealings P up written
  epoch : epoch .clientApp s.trace = keyUpdatesOf written

/-- The client on its link, after it opened `consumed` and took `taken` bytes. -/
structure Linked (down up : Traffic) (view : W → Link) (consumed : List PeerRecord) (taken : ℕ)
    (s : System P W) : Prop where
  stream : ∃ stream, s.client.config.stream = some stream
  opened : openedRecords .serverApp s.trace = sealings P down consumed
  link : ∃ written, Wrote up written s ∧
    Served P down up view consumed written taken s.world

/-- What holds of the link whatever became of the client. -/
def Parted (down up : Traffic) (view : W → Link) (s : System P W) : Prop :=
  ∃ consumed written taken, Served P down up view consumed written taken s.world ∧
    openedRecords .serverApp s.trace = sealings P down consumed ∧
    sealings P up written <+: sealedRecords .clientApp s.trace

variable {down up : Traffic} {view : W → Link} {consumed written : List PeerRecord} {taken : ℕ}
variable {E : Env W}

/-- A linked client may be parted. -/
theorem Linked.parted {s : System P W} (h : Linked down up view consumed taken s) :
    Parted down up view s := by
  obtain ⟨written, hwrote, hserved⟩ := h.link
  exact ⟨consumed, written, taken, hserved, h.opened, hwrote.sealed ▸ List.prefix_rfl⟩

/-- The peer goes on. -/
theorem parted_steps {s : System P W} {w : W} (h : Parted down up view s)
    (hsteps : PeerSteps P (view s.world) (view w)) : Parted down up view { s with world := w } := by
  obtain ⟨consumed, written, taken, hserved, hopened, hsealed⟩ := h
  exact ⟨consumed, written, taken, served_steps hserved hsteps, hopened, hsealed⟩

/-- A stream that is closed lets the peer go on. -/
theorem closedWorld_steps (hE : Joins P E view) (config : ClientConfig) (w : W) :
    PeerSteps P (view w) (view (closedWorld E config w)) := by
  unfold closedWorld
  cases config.stream with
  | none => exact Relation.ReflTransGen.refl
  | some stream => exact hE.close stream w

/-- A client that ends is parted. -/
theorem parted_afterEnd (hE : Joins P E view) (state : ClientState) {s : System P W}
    (h : Parted down up view s) : Parted down up view (afterEnd E state s) := by
  obtain ⟨consumed, written, taken, hserved, hopened, hsealed⟩ := h
  exact ⟨consumed, written, taken, served_steps hserved (closedWorld_steps hE _ _), hopened,
    hsealed⟩

/-- What the peer does keeps the client linked. -/
theorem Linked.steps {s : System P W} {w : W} (h : Linked down up view consumed taken s)
    (hsteps : PeerSteps P (view s.world) (view w)) :
    Linked down up view consumed taken { s with world := w } := by
  obtain ⟨written, hwrote, hserved⟩ := h.link
  exact ⟨h.stream, h.opened, written, ⟨hwrote.traffic, hwrote.sealed, hwrote.epoch⟩,
    served_steps hserved hsteps⟩

/-- Memory is there whenever it is asked for. -/
def HasMemory (E : Env W) : Prop := ∀ n w, (E.malloc n w).1 = true

/-- How the sending of a record ends. -/
def Sent (E : Env W) (down up : Traffic) (view : W → Link) (consumed written : List PeerRecord)
    (taken : ℕ) (r : PeerRecord) (s : System P W) : Except Error Unit → System P W → Prop
  | .ok _, s' => ∃ w, s' = afterSend s (r.seal P (writeTraffic s.client)) w ∧
      Served P down up view consumed (written ++ [r]) taken w
  | .error e, s' => Parted down up view s' ∧ (HasMemory E →
      checkProtect r.content.innerType r.content.bytes r.padding 16645 = .ok () → e = .io)

/-- A record that was sealed is written. -/
theorem wp_writeStream (hE : Joins P E view) {stream : ℕ} {s : System P W} {r : PeerRecord}
    (hr : IsClientRecord r) (hlinked : Linked down up view consumed taken s)
    (hwrote : Wrote up written s) {w : W}
    (hserved : Served P down up view consumed written taken w) :
    wp (writeStream E stream (r.seal P (writeTraffic s.client)))
      (Sent E down up view consumed written taken r s)
      (afterSeal s .clientApp w (r.seal P (writeTraffic s.client))) := by
  unfold writeStream
  rw [wp_bind, wp_callWorld]
  intro res w' hsend
  cases res with
  | error e =>
    obtain ⟨rfl, hsteps⟩ := hE.sendStopped _ _ _ _ _ hsend
    refine ⟨⟨consumed, written, taken, served_steps hserved hsteps, ?_, ?_⟩, fun _ _ => rfl⟩
    · show openedRecords .serverApp (s.trace ++ [_]) = _
      rw [openedRecords_append, hlinked.opened]
      exact List.append_nil _
    · show _ <+: sealedRecords .clientApp (s.trace ++ [_])
      rw [sealedRecords_append, hwrote.sealed]
      exact List.prefix_append _ _
  | ok u =>
    obtain ⟨l, hbefore, hafter⟩ := hE.sendAll _ _ _ _ hsend
    rw [thenWp_ok, wp_emit]
    refine ⟨w', ?_, ?_⟩
    · simp only [afterSeal, afterSend, List.append_assoc]
      rfl
    · obtain ⟨more, hmore⟩ := hserved
      obtain ⟨more₁, hserves₁⟩ := serves_steps hmore hbefore
      have hwritten := serves_write hserves₁ hr
      rw [← hwrote.traffic] at hwritten
      obtain ⟨more₂, hserves₂⟩ := serves_steps hwritten hafter
      exact ⟨more ++ more₁ ++ more₂, by simpa only [List.append_assoc] using hserves₂⟩

/-- A record is sealed, or nothing but the outside world changes. -/
theorem wp_sealRecord (hE : Joins P E view) (r : PeerRecord)
    {f : Bytes → ClientM P W Unit} {s : System P W}
    (hlinked : Linked down up view consumed taken s)
    (hserved : Served P down up view consumed written taken s.world)
    (hwrite : ∀ w, checkProtect r.content.innerType r.content.bytes r.padding 16645 = .ok () →
      Served P down up view consumed written taken w →
      wp (f (r.seal P (writeTraffic s.client))) (Sent E down up view consumed written taken r s)
        (afterSeal s .clientApp w (r.seal P (writeTraffic s.client)))) :
    wp (protectRecord E .clientApp r.content.innerType r.content.bytes r.padding >>= f)
      (Sent E down up view consumed written taken r s) s := by
  rw [wp_bind]
  apply wp_protectRecord_malloc
  · intro e hcheck
    refine ⟨hlinked.parted, fun _ hok => ?_⟩
    rw [hok] at hcheck
    cases hcheck
  · intro hfailed
    refine ⟨(hlinked.steps (hE.malloc _ _)).parted, fun hmemory _ => ?_⟩
    rw [hmemory] at hfailed
    cases hfailed
  · intro hcheck
    exact hwrite _ hcheck (served_steps hserved (hE.malloc _ _))

/-- What passes the checks of `protect_record_aes128_gcm` is a record that fits. -/
theorem fits_of_checkProtect {r : PeerRecord}
    (h : checkProtect r.content.innerType r.content.bytes r.padding 16645 = .ok ()) : r.Fits := by
  obtain ⟨-, -, hcontent, -, hfrag⟩ := checkProtect_ok h
  exact ⟨hcontent, hfrag⟩

/-- `send_protected` of a connected client sends a KeyUpdate. -/
theorem wp_sendKeyUpdate (hE : Joins P E view) (requestUpdate : Bool) {s : System P W}
    (hstate : s.client.state = .connected) (hlinked : Linked down up view consumed taken s)
    (hwrote : Wrote up written s)
    (hserved : Served P down up view consumed written taken s.world) :
    wp (sendProtected E contentHandshake (keyUpdateMessage requestUpdate))
      (Sent E down up view consumed written taken ⟨.handshake [.keyUpdate requestUpdate], 0⟩ s)
      s := by
  obtain ⟨stream, hstream⟩ := hlinked.stream
  have hbytes : (Content.handshake [.keyUpdate requestUpdate]).bytes =
      keyUpdateMessage requestUpdate := List.append_nil _
  unfold sendProtected
  rw [wp_bind, wp_getClient, thenWp_ok]
  dsimp only
  rw [if_pos hstate, hstream, ← hbytes]
  refine wp_sealRecord hE ⟨.handshake [.keyUpdate requestUpdate], 0⟩ hlinked hserved ?_
  intro w hcheck hw
  rw [wp_bind]
  refine wp_of_run rfl ?_
  exact wp_writeStream hE ⟨fits_of_checkProtect hcheck, Or.inr ⟨requestUpdate, rfl⟩⟩ hlinked
    hwrote hw

/-- One record of `send`. -/
theorem wp_sendChunk (hE : Joins P E view) (padding : ℕ) (content : Bytes) {s : System P W}
    (hlinked : Linked down up view consumed taken s) (hwrote : Wrote up written s)
    (hserved : Served P down up view consumed written taken s.world) :
    wp (sendChunk E padding content)
      (Sent E down up view consumed written taken ⟨.data content, padding⟩ s) s := by
  obtain ⟨stream, hstream⟩ := hlinked.stream
  unfold sendChunk
  refine wp_sealRecord hE ⟨.data content, padding⟩ hlinked hserved ?_
  intro w hcheck hw
  rw [wp_bind, wp_getClient, thenWp_ok, wp_bind]
  have hderef : deref s.client.config.stream (afterSeal s .clientApp w
      (PeerRecord.seal P (writeTraffic s.client) ⟨.data content, padding⟩)) =
      some (.ok stream, afterSeal s .clientApp w
        (PeerRecord.seal P (writeTraffic s.client) ⟨.data content, padding⟩)) := by
    rw [hstream]
    rfl
  refine wp_of_run hderef ?_
  · exact wp_writeStream hE ⟨fits_of_checkProtect hcheck, Or.inl ⟨content, rfl⟩⟩ hlinked
      hwrote hw

/-- Application data was sent. -/
theorem wrote_data {s : System P W} (h : Wrote up written s) (content : Bytes) (padding : ℕ)
    (w : W) : Wrote up (written ++ [⟨.data content, padding⟩]) (afterSend s
      (PeerRecord.seal P (writeTraffic s.client) ⟨.data content, padding⟩) w) where
  traffic := by
    rw [trafficAfter_concat, ← h.traffic]
    rfl
  sealed := by
    rw [sealings_concat, ← h.traffic, ← h.sealed]
    exact sealedRecords_append _ _ _
  epoch := by
    show epoch .clientApp (s.trace ++ _) = _
    rw [epoch_append, h.epoch, keyUpdatesOf_concat]
    rfl

/-- A KeyUpdate was sent, and the write keys were replaced. -/
theorem wrote_keyUpdate {s : System P W} (h : Wrote up written s) (requestUpdate : Bool) (w : W) :
    Wrote up (written ++ [⟨.handshake [.keyUpdate requestUpdate], 0⟩])
      (afterWriteUpdate (afterSend s (PeerRecord.seal P (writeTraffic s.client)
        ⟨.handshake [.keyUpdate requestUpdate], 0⟩) w)) where
  traffic := by
    rw [trafficAfter_concat, next_keyUpdate, ← h.traffic]
    rfl
  sealed := by
    rw [sealings_concat, ← h.traffic, ← h.sealed]
    show sealedRecords .clientApp (s.trace ++ _ ++ _) = _
    rw [sealedRecords_append, sealedRecords_append]
    exact List.append_nil _
  epoch := by
    show epoch .clientApp (s.trace ++ _ ++ _) = _
    rw [epoch_append, epoch_append, h.epoch, keyUpdatesOf_concat]
    cases requestUpdate <;> rfl

/-- The answer to a KeyUpdate. -/
theorem wp_answer (hE : Joins P E view) {s : System P W} (hstate : s.client.state = .connected)
    (hlinked : Linked down up view consumed taken s) :
    wp (answer E) (Answered (Linked down up view consumed taken)
      (fun e s' => Parted down up view s' ∧ (HasMemory E → e = .io)) s) s := by
  obtain ⟨written, hwrote, hserved⟩ := hlinked.link
  unfold answer
  rw [wp_bind]
  refine wp_mono (wp_sendKeyUpdate hE false hstate hlinked hwrote hserved) ?_
  intro r s' hr
  cases r with
  | error e => exact ⟨hr.1, fun hmemory => hr.2 hmemory (by decide)⟩
  | ok u =>
    obtain ⟨w, rfl, hw⟩ := hr
    rw [thenWp_ok]
    refine wp_of_run (updateClientKeys_run _) ?_
    have hstep := writeStep_answered s (PeerRecord.seal P (writeTraffic s.client)
      ⟨.handshake [.keyUpdate false], 0⟩) w
    refine ⟨hstep, ?_, hstep.opened.1.trans hlinked.opened, _, wrote_keyUpdate hwrote false w, hw⟩
    rw [hstep.config]
    exact hlinked.stream

end XboxTls.Analysis
