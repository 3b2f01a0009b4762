import XboxTls.Analysis.Frames
import XboxTls.Analysis.RecordLayer

/-!
# Methods that change neither the state nor the configuration

`Firm s s'` allows every change of `Still s s'` and any change of the keys and of the key
schedule; `Steady s s'` allows those of `Quiet s s'` too.  The methods of the encrypted
flight, of the key updates and of `send` maintain every invariant that steady changes
preserve; only `connect`, `recv`, `reset` and `close` do more.
-/

set_option autoImplicit false

namespace XboxTls.Analysis

open Programs Programs.Prog XboxTls.Model XboxTls.Interface

variable {P : Crypto} {W : Type}

/-- The events of steady changes.  Sealing a record beyond the limit is none of them; `send`
needs a hypothesis for it. -/
def steadyEvent : Event → Bool
  | .connect _ | .appData _ _ | .delivered _ => false
  | .sealed _ _ record => innerLength record ≤ innerLimit
  | _ => true

/-- The events of firm changes. -/
def firmEvent : Event → Bool
  | .keysDerived _ _ | .opened _ _ _ => true
  | .sealed _ _ record => innerLength record ≤ innerLimit
  | ev => stillEvent ev

/-- A change of keys, and whatever is still. -/
structure Firm (s s' : System P W) : Prop where
  state : s'.client.state = s.client.state
  config : s'.client.config = s.client.config
  deframer : s'.client.deframer = s.client.deframer
  negotiatedAlpn : s'.client.negotiatedAlpn = s.client.negotiatedAlpn
  pendingApp : s'.client.pendingApp = s.client.pendingApp
  pendingAppOffset : s'.client.pendingAppOffset = s.client.pendingAppOffset
  pendingAppLength : s'.client.pendingAppLength = s.client.pendingAppLength
  trace : ∃ evs, s'.trace = s.trace ++ evs ∧ ∀ ev ∈ evs, firmEvent ev = true

/-- A change that touches neither state, configuration nor application data. -/
structure Steady (s s' : System P W) : Prop where
  state : s'.client.state = s.client.state
  config : s'.client.config = s.client.config
  pendingApp : s'.client.pendingApp = s.client.pendingApp
  pendingAppOffset : s'.client.pendingAppOffset = s.client.pendingAppOffset
  pendingAppLength : s'.client.pendingAppLength = s.client.pendingAppLength
  trace : ∃ evs, s'.trace = s.trace ++ evs ∧ ∀ ev ∈ evs, steadyEvent ev = true

/-- A quiet event is steady. -/
theorem steadyEvent_of_quietEvent {ev : Event} (h : quietEvent ev = true) :
    steadyEvent ev = true := by
  cases ev <;> first | rfl | cases h

/-- A quiet change is steady. -/
theorem Quiet.steady {s s' : System P W} (h : Quiet s s') : Steady s s' := by
  obtain ⟨evs, htrace, hevs⟩ := h.trace
  exact ⟨h.state, h.config, h.pendingApp, h.pendingAppOffset, h.pendingAppLength, evs, htrace,
    fun ev hev => steadyEvent_of_quietEvent (hevs ev hev)⟩

/-- A still event is firm. -/
theorem firmEvent_of_stillEvent {ev : Event} (h : stillEvent ev = true) :
    firmEvent ev = true := by
  cases ev <;> first | rfl | cases h

/-- A firm event is steady. -/
theorem steadyEvent_of_firmEvent {ev : Event} (h : firmEvent ev = true) :
    steadyEvent ev = true := by
  cases ev <;> first | rfl | exact h

/-- A still change is firm. -/
theorem Still.firm {s s' : System P W} (h : Still s s') : Firm s s' := by
  obtain ⟨evs, htrace, hevs⟩ := h.trace
  exact ⟨h.state, h.config, h.deframer, h.negotiatedAlpn, h.pendingApp, h.pendingAppOffset,
    h.pendingAppLength, evs, htrace, fun ev hev => firmEvent_of_stillEvent (hevs ev hev)⟩

/-- A firm change is steady. -/
theorem Firm.steady {s s' : System P W} (h : Firm s s') : Steady s s' := by
  obtain ⟨evs, htrace, hevs⟩ := h.trace
  exact ⟨h.state, h.config, h.pendingApp, h.pendingAppOffset, h.pendingAppLength, evs, htrace,
    fun ev hev => steadyEvent_of_firmEvent (hevs ev hev)⟩

/-- A firm event changes nothing else. -/
theorem firm_trace (s : System P W) {ev : Event} (h : firmEvent ev = true) :
    Firm s { s with trace := s.trace ++ [ev] } :=
  ⟨rfl, rfl, rfl, rfl, rfl, rfl, rfl, [ev], rfl, by simp [h]⟩

/-- Other keys in a slot. -/
theorem firm_setKeys (s : System P W) (slot : KeySlot) (k : TrafficKeys) :
    Firm s { s with client := s.client.setKeys slot k } := by
  cases slot <;> exact ⟨rfl, rfl, rfl, rfl, rfl, rfl, rfl, [], by simp, by simp⟩

/-- Opening a record is a firm change. -/
theorem firm_afterOpen (s : System P W) (slot : KeySlot) (record : Bytes) :
    Firm s (afterOpen s slot record) := by
  cases slot <;> exact ⟨rfl, rfl, rfl, rfl, rfl, rfl, rfl, [_], rfl, by simp [firmEvent]⟩

/-- A steady event changes nothing else. -/
theorem steady_emit (s : System P W) {ev : Event} (h : steadyEvent ev = true) :
    Steady s { s with trace := s.trace ++ [ev] } :=
  ⟨rfl, rfl, rfl, rfl, rfl, [ev], rfl, by simp [h]⟩

/-! ## Firm programs -/

section Firm

variable (E : Env W) {I J : System P W → Prop} {α : Type}
variable (hF : ∀ s s', Firm s s' → I s → I s') (hJ : ∀ s, I s → J s)
variable (hW : ∀ s s', Wiped s s' → I s → J s')

include hF in
/-- What is closed under firm changes is so under still ones. -/
theorem Firm.still_closed : ∀ s s', Still s s' → I s → I s' :=
  fun s s' h => hF s s' h.firm

include hF in
/-- A firm change of the client. -/
theorem firm_modifyClient {f : TlsClient P → TlsClient P}
    (hf : ∀ s : System P W, Firm s { s with client := f s.client }) :
    Maintains I J (modifyClient f : ClientM P W Unit) := by
  intro s hs
  rw [wp_modifyClient]
  exact hF _ _ (hf s) hs

include hF in
/-- A firm event is emitted. -/
theorem firm_emit {ev : Event} (h : firmEvent ev = true) :
    Maintains I J (emit ev : ClientM P W Unit) := by
  intro s hs
  rw [wp_emit]
  exact hF _ _ (firm_trace s h) hs

include hF hJ in
/-- Sealing a record, where the invariant bears the record. -/
theorem maintains_protectRecord (slot : KeySlot) (innerType : UInt8) (content : Bytes)
    (padding : ℕ)
    (hseal : ∀ (s : System P W) keys, checkProtect innerType content padding 16645 = .ok () → I s →
      I { s with trace := s.trace ++
        [.sealed slot keys (sealedRecord P keys innerType content padding)] }) :
    Maintains I J (protectRecord E slot innerType content padding : ClientM P W Bytes) := by
  intro s hs
  apply wp_protectRecord
  · intro e w
    exact hJ _ (Firm.still_closed hF _ _ (still_world s w) hs)
  · intro w hcheck
    have hworld : I { s with world := w } := Firm.still_closed hF _ _ (still_world s w) hs
    have hkeys := hF _ _ (firm_setKeys _ slot (s.client.keys slot).advance) hworld
    exact hseal _ (s.client.keys slot) hcheck hkeys

include hF hJ in
/-- Without padding, what passes the checks is short enough. -/
theorem firm_protectRecord (slot : KeySlot) (innerType : UInt8) (content : Bytes) :
    Maintains I J (protectRecord E slot innerType content 0 : ClientM P W Bytes) := by
  apply maintains_protectRecord E hF hJ
  intro s keys hcheck hs
  obtain ⟨-, -, hcontent, -, -⟩ := checkProtect_ok hcheck
  apply hF _ _ (firm_trace s ?_) hs
  simp only [firmEvent, decide_eq_true_eq]
  rw [innerLength_sealedRecord _ _ (by unfold fragLength; omega)]
  unfold innerLimit
  omega

include hF hJ in
/-- Opening a record is a firm change. -/
theorem firm_unprotectRecord (slot : KeySlot) (record : Bytes) :
    Maintains I J (unprotectRecord slot record : ClientM P W (UInt8 × Bytes)) := by
  unfold unprotectRecord
  refine maintains_bind maintains_getClient fun c => ?_
  refine maintains_bind (maintains_lift hJ _) fun plaintext => ?_
  refine maintains_bind (firm_emit hF rfl) fun _ => ?_
  refine maintains_bind (maintains_lift hJ _) fun tc => ?_
  exact maintains_bind (firm_modifyClient hF fun s => firm_setKeys s slot _)
    fun _ => maintains_pure _

include hF hJ in
/-- Deriving keys is a firm change. -/
theorem firm_deriveKeys (slot : KeySlot) (secret : FixedBytes 32) :
    Maintains I J (deriveKeys slot secret : ClientM P W Unit) := by
  unfold deriveKeys
  refine maintains_bind (maintains_lift hJ _) fun keys => ?_
  refine maintains_bind (firm_modifyClient hF fun s => firm_setKeys s slot _) fun _ => ?_
  exact firm_emit hF rfl

include hF hJ in
/-- `send_protected` is a firm change. -/
theorem firm_sendProtected (innerType : UInt8) (payload : Bytes) :
    Maintains I J (sendProtected E innerType payload : ClientM P W Unit) := by
  unfold sendProtected
  refine maintains_bind maintains_getClient fun c => ?_
  refine maintains_bind (firm_protectRecord E hF hJ _ _ _) fun record => ?_
  refine maintains_bind (maintains_deref _) fun stream => ?_
  exact maintains_writeStream E (Firm.still_closed hF) hJ _ _

include hF hJ in
/-- The update of the client's keys is a firm change. -/
theorem firm_updateClientKeys : Maintains I J (updateClientKeys : ClientM P W Unit) := by
  unfold updateClientKeys
  refine maintains_bind maintains_getClient fun c => ?_
  refine maintains_bind (maintains_lift hJ _) fun nk => ?_
  refine maintains_bind (firm_modifyClient hF fun s => ?_) fun _ =>
    firm_emit hF rfl
  exact ⟨rfl, rfl, rfl, rfl, rfl, rfl, rfl, [], by simp, by simp⟩

include hF hJ in
/-- The update of the server's keys is a firm change. -/
theorem firm_updateServerKeys : Maintains I J (updateServerKeys : ClientM P W Unit) := by
  unfold updateServerKeys
  refine maintains_bind maintains_getClient fun c => ?_
  refine maintains_bind (maintains_lift hJ _) fun nk => ?_
  refine maintains_bind (firm_modifyClient hF fun s => ?_) fun _ =>
    firm_emit hF rfl
  exact ⟨rfl, rfl, rfl, rfl, rfl, rfl, rfl, [], by simp, by simp⟩

include hF hJ hW in
/-- `key_update` is a firm change. -/
theorem firm_keyUpdate (requestPeerUpdate : Bool) :
    Maintains I J (keyUpdate E requestPeerUpdate : ClientM P W Unit) := by
  unfold keyUpdate
  refine maintains_bind maintains_getClient fun c => ?_
  split
  · exact maintains_throw hJ _
  · exact maintains_bind
      (maintains_orFail E hW (firm_sendProtected E hF (fun _ h => h) _ _)) fun _ =>
      maintains_orFail E hW (firm_updateClientKeys hF (fun _ h => h))

include hF hW in
/-- The loop of `send`, where the invariant bears the records that hold a part of the data. -/
theorem firm_sendLoop (padding maxContent fuel : ℕ) (data : Bytes)
    (hseal : ∀ (s : System P W) keys content, content.length ≤ data.length → I s →
      I { s with trace := s.trace ++
        [.sealed .clientApp keys (sealedRecord P keys contentApplicationData content padding)] }) :
    Maintains I J (sendLoop E padding maxContent fuel data : ClientM P W Unit) := by
  induction fuel generalizing data with
  | zero => exact maintains_pure ()
  | succ fuel ih =>
    unfold sendLoop
    split
    · exact maintains_pure ()
    · refine maintains_bind (maintains_orFail E hW ?_) fun _ => ih _ fun s keys content hlen => ?_
      · unfold sendChunk
        refine maintains_bind (maintains_protectRecord E hF (fun _ h => h) _ _ _ _
          fun s keys _ => hseal s keys _ (List.length_take_le' _ _)) fun record => ?_
        refine maintains_bind maintains_getClient fun c => ?_
        refine maintains_bind (maintains_deref _) fun stream => ?_
        exact maintains_writeStream E (Firm.still_closed hF) (fun _ h => h) _ _
      · rw [List.length_drop] at hlen
        exact hseal s keys content (by omega)

include hF hJ hW in
/-- `send` is a firm change but for the records that it seals. -/
theorem firm_send (null : Bool) (data : Bytes)
    (hseal : ∀ (s : System P W) keys record, I s →
      I { s with trace := s.trace ++ [.sealed .clientApp keys record] }) :
    Maintains I J (send E null data : ClientM P W Unit) := by
  unfold send
  refine maintains_bind maintains_getClient fun c => ?_
  split
  · exact maintains_throw hJ _
  · split
    · exact maintains_throw hJ _
    · exact firm_sendLoop E hF hW _ _ _ _ fun s keys _ _ => hseal s keys _

end Firm

/-! ## From the handshake keys to the client's Finished -/

/-- The events around the messages of the flight, and those of the messages after it. -/
def betweenEvent : Event → Bool
  | .fragment _ _ _ | .sharedSecret _ _ | .readKeysChanged _ _ | .clientFinished _ _
  | .postHandshake _ => true
  | _ => false

/-- What happens around the messages of the flight, and with those after it. -/
structure BetweenClosed (I : System P W → Prop) : Prop where
  firm : ∀ s s', Firm s s' → I s → I s'
  deframer : ∀ (s : System P W) d, d.capacity = s.client.deframer.capacity → I s →
    I { s with client := { s.client with deframer := d } }
  event : ∀ (s : System P W) ev, betweenEvent ev = true → I s →
    I { s with trace := s.trace ++ [ev] }

section Between

variable (E : Env W) {I J : System P W → Prop} {α : Type}
variable (hB : BetweenClosed I) (hJ : ∀ s, I s → J s)
variable (hW : ∀ s s', Wiped s s' → I s → J s')

include hB in
/-- An event that may come between two changes of the read keys. -/
theorem between_emit {ev : Event} (h : betweenEvent ev = true) :
    Maintains I J (emit ev : ClientM P W Unit) :=
  maintains_of_emit fun s => hB.event s ev h

/-- An append leaves the capacity. -/
theorem append_capacity {d d' : HandshakeDeframer} {bytes : Bytes} (h : d.append bytes = .ok d') :
    d'.capacity = d.capacity := by
  unfold HandshakeDeframer.append at h
  split at h
  · cases h
  · cases h
    rfl

include hB hJ in
/-- A fragment is appended between two changes of the read keys. -/
theorem between_appendFragment (stage : Stage) (content : Bytes) :
    Maintains I J (appendFragment stage content : ClientM P W Unit) := by
  intro s hs
  unfold appendFragment
  rw [wp_bind, wp_getClient, thenWp_ok, wp_bind, wp_lift]
  cases happend : s.client.deframer.append content with
  | error e => exact hJ s hs
  | ok d =>
    rw [thenWp_ok, wp_bind, wp_modifyClient, thenWp_ok]
    exact between_emit hB rfl _ (hB.deframer s d (append_capacity happend) hs)

include hB hW in
/-- The handshake keys are derived. -/
theorem between_deriveHandshakeKeys (sh : ServerHelloInfo) (group : NamedGroup) :
    Maintains I J (deriveHandshakeKeys E sh group : ClientM P W Unit) := by
  have hreset : Maintains I J (modifyClient (fun c => { c with deframer := c.deframer.reset }) :
      ClientM P W Unit) := by
    intro s hs
    rw [wp_modifyClient]
    exact hB.deframer s _ rfl hs
  unfold deriveHandshakeKeys
  refine maintains_bind maintains_getClient fun c => ?_
  refine maintains_bind hreset fun _ => ?_
  split
  · exact maintains_failWith E hW _
  · refine maintains_bind maintains_getClient fun c => ?_
    refine maintains_bind (maintains_orFail E hW (maintains_lift (fun _ h => h) _))
      fun shared => ?_
    refine maintains_bind (between_emit hB rfl) fun _ => ?_
    refine maintains_bind (firm_modifyClient hB.firm fun s => ?_) fun _ => ?_
    · exact ⟨rfl, rfl, rfl, rfl, rfl, rfl, rfl, [], by simp, by simp⟩
    · refine maintains_bind maintains_getClient fun c => ?_
      refine maintains_bind (maintains_orFail E hW (maintains_lift (fun _ h => h) _))
        fun schedule => ?_
      refine maintains_bind (firm_modifyClient hB.firm fun s => ?_) fun _ => ?_
      · exact ⟨rfl, rfl, rfl, rfl, rfl, rfl, rfl, [], by simp, by simp⟩
      · refine maintains_bind (maintains_orFail E hW
          (firm_deriveKeys hB.firm (fun _ h => h) _ _)) fun _ => ?_
        refine maintains_bind (maintains_orFail E hW
          (firm_deriveKeys hB.firm (fun _ h => h) _ _)) fun _ => ?_
        exact between_emit hB rfl

include hB hJ in
/-- A round of the flight ends as draining its record does. -/
theorem yields_flightRound {R : FlightLocals → System P W → Prop} {l : FlightLocals}
    (hccs : ∀ (s : System P W) record, I s →
      R l { s with trace := s.trace ++ [.changeCipherSpec .handshake record] })
    (hdrain : ∀ fuel, Yields I R J (drainFlight E fuel l : ClientM P W FlightLocals)) :
    Yields I R J (flightRound E l : ClientM P W FlightLocals) := by
  have hT : ∀ s s', Still s s' → I s → I s' := Firm.still_closed hB.firm
  unfold flightRound
  apply yields_bind (maintains_readRecord E hT hJ _)
  intro record
  apply yields_bind (maintains_lift hJ _)
  intro rh
  split
  · intro s hs
    rw [wp_bind, wp_emit, thenWp_ok, wp_pure]
    exact hccs s record hs
  · split
    · exact yields_bind (maintains_handleAlert hT _) fun e => yields_throw hJ e
    · split
      · exact yields_throw hJ _
      · apply yields_bind (firm_unprotectRecord hB.firm hJ _ _)
        rintro ⟨inner, content⟩
        dsimp only
        split
        · exact yields_bind (maintains_handleAlert hT _) fun e => yields_throw hJ e
        · split
          · exact yields_throw hJ _
          · apply yields_bind (between_appendFragment hB hJ _ _)
            intro _
            exact yields_bind maintains_getClient fun c => hdrain _

include hB hJ in
/-- A record of the encrypted flight. -/
theorem between_flightRound
    (hccs : ∀ (s : System P W) record, I s →
      I { s with trace := s.trace ++ [.changeCipherSpec .handshake record] })
    (hdrain : ∀ fuel l, Maintains I J (drainFlight E fuel l : ClientM P W FlightLocals))
    (l : FlightLocals) : Maintains I J (flightRound E l : ClientM P W FlightLocals) :=
  maintains_of_yields (yields_flightRound E hB hJ hccs fun fuel =>
    yields_of_maintains (hdrain fuel l))

include hB hJ in
/-- The application keys are derived and the Finished is sent. -/
theorem between_finishHandshake : Maintains I J (finishHandshake E : ClientM P W Unit) := by
  unfold finishHandshake
  refine maintains_bind maintains_getClient fun c => ?_
  refine maintains_bind (maintains_lift hJ _) fun schedule => ?_
  refine maintains_bind (firm_modifyClient hB.firm fun s => ?_) fun _ => ?_
  · exact ⟨rfl, rfl, rfl, rfl, rfl, rfl, rfl, [], by simp, by simp⟩
  · refine maintains_bind (firm_deriveKeys hB.firm hJ _ _) fun _ => ?_
    refine maintains_bind (firm_deriveKeys hB.firm hJ _ _) fun _ => ?_
    refine maintains_bind maintains_getClient fun c => ?_
    refine maintains_bind (between_emit hB rfl) fun _ => ?_
    refine maintains_bind (maintains_lift hJ _) fun fin => ?_
    refine maintains_bind (firm_sendProtected E hB.firm hJ _ _) fun _ => ?_
    refine maintains_bind (maintains_hashMessage (Firm.still_closed hB.firm) _) fun _ => ?_
    exact between_emit hB rfl

include hB hJ in
/-- A message after the handshake. -/
theorem between_handlePostHandshake (msg : HandshakeMessage) :
    Maintains I J (handlePostHandshake E msg : ClientM P W Unit) := by
  unfold handlePostHandshake
  split
  · exact maintains_pure ()
  · split
    · unfold handleKeyUpdate
      split
      · exact maintains_throw hJ _
      · refine maintains_bind (firm_updateServerKeys hB.firm hJ) fun _ => ?_
        refine maintains_bind maintains_getClient fun c => ?_
        refine maintains_bind (between_emit hB rfl) fun _ => ?_
        split
        · exact maintains_bind (firm_sendProtected E hB.firm hJ _ _) fun _ =>
            firm_updateClientKeys hB.firm hJ
        · exact maintains_pure ()
    · exact maintains_throw hJ _

include hB hJ in
/-- The messages of a record after the handshake. -/
theorem between_processPostHandshake (content : Bytes) :
    Maintains I J (processPostHandshake E content : ClientM P W Unit) := by
  have hdrain : ∀ fuel, Maintains I J (drainPostHandshake E fuel : ClientM P W Unit) := by
    intro fuel
    induction fuel with
    | zero => exact maintains_diverge
    | succ fuel ih =>
      unfold drainPostHandshake
      refine maintains_bind maintains_getClient fun c => ?_
      split
      · exact maintains_pure ()
      · exact maintains_throw hJ _
      · refine maintains_bind (between_handlePostHandshake E hB hJ _) fun _ => ?_
        refine maintains_bind (maintains_consumeMessage
          (fun s d h => hB.deframer s d h.capacity) hJ)
          fun _ => ?_
        exact maintains_bind (between_emit hB rfl) fun _ => ih
  unfold processPostHandshake
  refine maintains_bind (between_appendFragment hB hJ _ _) fun _ => ?_
  exact maintains_bind maintains_getClient fun c => hdrain _

/-- The flight loop maintains what its rounds maintain. -/
theorem maintains_flightLoop
    (hround : ∀ l, Maintains I J (flightRound E l : ClientM P W FlightLocals)) (fuel : ℕ)
    (l : FlightLocals) : Maintains I J (flightLoop E fuel l : ClientM P W Unit) := by
  induction fuel generalizing l with
  | zero => exact maintains_diverge
  | succ fuel ih =>
    unfold flightLoop
    split
    · exact maintains_pure ()
    · exact maintains_bind (hround l) fun l' => ih l'

include hB hW in
/-- The handshake maintains what its records and its messages maintain; `K` is what is left of
it when the flight fails. -/
theorem between_connectHandshake {K : System P W → Prop} (hK : ∀ s, I s → K s)
    (hKW : ∀ s s', Wiped s s' → K s → J s') (hH : HelloClosed I)
    (hccs : ∀ (s : System P W) stage record, I s →
      I { s with trace := s.trace ++ [.changeCipherSpec stage record] })
    (hmessage : ∀ msg l, Maintains I K (handleHandshakeMessage E msg l : ClientM P W FlightLocals))
    (fuel : ℕ) (config : ClientConfig) :
    Maintains I J (connectHandshake E fuel config : ClientM P W Unit) := by
  have hT : ∀ s s', Still s s' → I s → I s' := Firm.still_closed hB.firm
  have happend : ∀ content, Keeps I (appendFragment .plaintext content : ClientM P W Unit) :=
    fun content => between_appendFragment hB (fun _ h => h) _ content
  have hdrain : ∀ fuel l, Maintains I K (drainFlight E fuel l : ClientM P W FlightLocals) :=
    maintains_drainMessages E hK hmessage fun s d h => hB.deframer s d h.capacity
  have hround := between_flightRound E hB hK (fun s => hccs s .handshake) hdrain
  unfold connectHandshake
  apply maintains_bind (maintains_startHello E hW hH config)
  intro h
  apply maintains_bind
  · exact maintains_helloLoop E hW hH
      (maintains_readHelloRecord E hT hW (fun s => hccs s .plaintext) happend) fuel h
  rintro ⟨sh, h⟩
  apply maintains_bind (between_deriveHandshakeKeys E hB hW _ _)
  intro _
  apply maintains_orFail E hKW
  exact maintains_bind (maintains_flightLoop E hround fuel _) fun _ =>
    between_finishHandshake E hB hK

end Between

/-! ## Steady programs -/

section Steady

variable (E : Env W) {I J : System P W → Prop} {α : Type}
variable (hS : ∀ s s', Steady s s' → I s → I s') (hJ : ∀ s, I s → J s)
variable (hW : ∀ s s', Wiped s s' → I s → J s')

include hS in
/-- What is closed under steady changes is so under quiet ones. -/
theorem Steady.quiet_closed : ∀ s s', Quiet s s' → I s → I s' :=
  fun s s' h => hS s s' h.steady

include hS in
/-- What is closed under steady changes is so under firm ones. -/
theorem Steady.firm_closed : ∀ s s', Firm s s' → I s → I s' :=
  fun s s' h => hS s s' h.steady

include hS in
/-- What is closed under steady changes is so under still ones. -/
theorem Steady.still_closed : ∀ s s', Still s s' → I s → I s' :=
  fun s s' h => hS s s' h.firm.steady

include hS in
/-- What is closed under steady changes is so between two changes of the read keys. -/
theorem Steady.betweenClosed : BetweenClosed I where
  firm := Steady.firm_closed hS
  deframer s _ _ := hS s _ ⟨rfl, rfl, rfl, rfl, rfl, [], by simp, by simp⟩
  event s ev h := hS s _ (steady_emit s (by cases ev <;> first | rfl | cases h))

include hS hJ in
/-- A record of the encrypted flight is a steady change. -/
theorem steady_flightRound (l : FlightLocals) :
    Maintains I J (flightRound E l : ClientM P W FlightLocals) :=
  between_flightRound E (Steady.betweenClosed hS) hJ (fun s _ => hS s _ (steady_emit s rfl))
    (fun fuel l => maintains_drainFlight E (Steady.quiet_closed hS) hJ fuel l) l

include hS hJ in
/-- The whole encrypted flight is a steady change. -/
theorem steady_processServerHandshake (fuel : ℕ) :
    Maintains I J (processServerHandshake E fuel : ClientM P W Unit) :=
  maintains_bind (maintains_flightLoop E (steady_flightRound E hS hJ) _ _) fun _ =>
    between_finishHandshake E (Steady.betweenClosed hS) hJ

include hS hW in
/-- The whole handshake is a steady change. -/
theorem steady_connectHandshake (fuel : ℕ) (config : ClientConfig) :
    Maintains I J (connectHandshake E fuel config : ClientM P W Unit) := by
  have hQ : ∀ s s', Quiet s s' → I s → I s' := Steady.quiet_closed hS
  unfold connectHandshake
  refine maintains_bind (maintains_startHello E hW (Quiet.helloClosed hQ) config) fun h => ?_
  refine maintains_bind (maintains_helloLoop E hW (Quiet.helloClosed hQ)
    (Quiet.readHelloRecord E hQ hW) fuel h) fun ⟨sh, h⟩ => ?_
  refine maintains_bind (between_deriveHandshakeKeys E (Steady.betweenClosed hS) hW _ _)
    fun _ => ?_
  exact maintains_orFail E hW (steady_processServerHandshake E hS (fun _ h => h) fuel)

include hS hJ in
/-- The messages of a record after the handshake are a steady change. -/
theorem steady_processPostHandshake (content : Bytes) :
    Maintains I J (processPostHandshake E content : ClientM P W Unit) :=
  between_processPostHandshake E (Steady.betweenClosed hS) hJ content

end Steady

/-! ## What `recv` hands out and keeps -/

section Handing

variable (E : Env W)

/-- Bytes within the array are those that were copied there. -/
theorem readPending_run {offset n : ℕ} (s : System P W) (hfits : offset + n ≤ 16384) :
    readPending E offset n s = some (.ok (slice s.client.pendingApp offset n), s) := by
  unfold readPending
  rw [bind_of_ok rfl, if_pos hfits]
  rfl

/-- What `recv` hands out of the pending buffer, wherever the bytes come from. -/
theorem wp_recvPending_of {size : ℕ} {Q : Except Error Bytes → System P W → Prop}
    {s : System P W}
    (h : ∀ bytes, bytes.length ≤ min s.client.pendingAppLength size → Q (.ok bytes) { s with
      client := { s.client with
        pendingAppOffset :=
          if s.client.pendingAppLength - min s.client.pendingAppLength size = 0 then 0
          else s.client.pendingAppOffset + min s.client.pendingAppLength size
        pendingAppLength := s.client.pendingAppLength - min s.client.pendingAppLength size }
      trace := s.trace ++ [.delivered bytes] }) :
    wp (recvPending E size) Q s := by
  unfold recvPending readPending
  simp only [wp_bind, wp_getClient, thenWp_ok]
  split
  · simp only [wp_pure, thenWp_ok, wp_bind, wp_modifyClient, wp_emit]
    exact h _ (slice_length_le _ _ _)
  · simp only [wp_bind, wp_updateWorld, wp_pure, thenWp_ok, wp_modifyClient, wp_emit]
    apply h
    have hinside : (slice (s.client.pendingApp.take 16384) s.client.pendingAppOffset
        (min s.client.pendingAppLength size)).length ≤ 16384 - s.client.pendingAppOffset := by
      unfold slice
      rw [List.length_take, List.length_drop, List.length_take]
      omega
    have hcount := slice_length_le (s.client.pendingApp.take 16384) s.client.pendingAppOffset
      (min s.client.pendingAppLength size)
    have hbehind := (E.readBehind (s.client.pendingAppOffset - 16384)
      (min s.client.pendingAppLength size - (16384 - s.client.pendingAppOffset))
      s.world).property
    rw [List.length_append, hbehind]
    omega

/-- What fits the array is copied there, and nothing else changes. -/
theorem copyToPending_run {rest : Bytes} (s : System P W) (hfits : rest.length ≤ 16384) :
    copyToPending E rest s = some (.ok (), { s with client := { s.client with
      pendingApp := rest
      pendingAppOffset := 0
      pendingAppLength := rest.length } }) := by
  have hnone : rest.drop 16384 = [] := List.drop_eq_nil_of_le hfits
  unfold copyToPending
  rw [hnone]
  rfl

/-- What `recv` does with application data: it hands out what fits, and keeps the rest, which
may go over the last alert and over the world behind the object. -/
theorem wp_recvData_of {content : Bytes} {size : ℕ} {Q : Except Error Bytes → System P W → Prop}
    {s : System P W}
    (hfits : content.length ≤ size → Q (.ok (content.take (min content.length size)))
      { s with trace := s.trace ++ [.appData content size] ++
        [.delivered (content.take (min content.length size))] })
    (hkeeps : size < content.length → ∀ level description w,
      Q (.ok (content.take (min content.length size))) { s with
        client := { s.client with
          pendingApp := content.drop size
          pendingAppOffset := 0
          pendingAppLength := content.length - size
          lastAlertLevel := level
          lastAlertDescription := description }
        world := w
        trace := s.trace ++ [.appData content size] ++
          [.delivered (content.take (min content.length size))] }) :
    wp (recvData E content size) Q s := by
  unfold recvData keepRest
  simp only [wp_bind, wp_emit, thenWp_ok]
  split
  · next hlong =>
    have hmin : min content.length size = size := by omega
    rw [hmin] at hkeeps ⊢
    unfold copyToPending
    rw [← List.length_drop] at hkeeps
    dsimp only
    split
    · simp only [wp_pure, thenWp_ok, wp_modifyClient, wp_bind, wp_emit]
      exact hkeeps (by omega) _ _ _
    · simp only [wp_updateWorld, thenWp_ok, wp_modifyClient, wp_bind, wp_emit, wp_pure]
      exact hkeeps (by omega) _ _ _
  · simp only [thenWp_ok, wp_bind, wp_emit, wp_pure]
    exact hfits (by omega)

end Handing

/-! ## The records of `recv` -/

section Records

variable (E : Env W) {I I' J : System P W → Prop}
variable (hF : ∀ s s', Firm s s' → I s → I s')
variable (hW : ∀ s s', Wiped s s' → I s → J s')

include hF hW in
/-- The record loop of `recv` on an invariant that firm changes and its branches preserve. -/
theorem leads_recvRecords (size : ℕ)
    (hccs : ∀ (s : System P W) record, I s →
      I { s with trace := s.trace ++ [.changeCipherSpec .application record] })
    (hdata : ∀ (s : System P W) record content, I s →
      unprotectRecordAes128Gcm P s.client.serverAppKeys record 16640 =
        .ok ⟨contentApplicationData, content, s.client.serverAppKeys.advance⟩ →
      wp (recvData E content size) (ends I' J) (afterOpen s .serverApp record))
    (halert : ∀ content, Leads I I' J (recvAlert E content : ClientM P W Bytes))
    (hpost : ∀ content,
      Maintains I J (orFail E (processPostHandshake E content) : ClientM P W Unit))
    (fuel : ℕ) : Leads I I' J (recvRecords E size fuel : ClientM P W Bytes) := by
  have hT : ∀ s s', Still s s' → I s → I s' := Firm.still_closed hF
  have hfail : ∀ e, Leads I I' J (failWith E e : ClientM P W Bytes) := by
    intro e s hs
    rw [wp_failWith_iff]
    exact hW _ _ (wiped_afterEnd E s) hs
  induction fuel with
  | zero =>
    intro s _
    exact wp_diverge _ s
  | succ fuel ih =>
    unfold recvRecords
    apply leads_bind (maintains_orFail E hW (maintains_readRecord E hT (fun _ h => h) _))
    intro record
    apply leads_bind (maintains_orFail E hW (maintains_lift (fun _ h => h) _))
    intro rh
    split
    · exact leads_bind (maintains_of_emit fun s => hccs s record) fun _ => ih
    · split
      · exact hfail _
      · intro s hs
        rw [wp_bind, orFail, wp_onError]
        apply wp_unprotectRecord
        · intro e
          rw [handledWp_error, wp_failWith_iff]
          exact hW _ _ (wiped_afterEnd E s) hs
        · intro e plaintext _
          rw [handledWp_error, wp_failWith_iff]
          have hemit := @firm_trace P W s (.opened .serverApp (s.client.keys .serverApp) record)
            rfl
          exact hW _ _ (wiped_afterEnd E _) (hF _ _ hemit hs)
        · intro inner content hopen
          have hs' : I (afterOpen s .serverApp record) := hF _ _ (firm_afterOpen s _ _) hs
          rw [handledWp_ok, thenWp_ok]
          dsimp only
          split
          · next hinner =>
            subst hinner
            exact hdata s record content hs hopen
          · split
            · exact halert content _ hs'
            · split
              · exact leads_bind (hpost content) (fun _ => ih) _ hs'
              · exact hfail _ _ hs'

end Records

section Steady

variable (E : Env W) {I J : System P W → Prop}
variable (hS : ∀ s s', Steady s s' → I s → I s')
variable (hW : ∀ s s', Wiped s s' → I s → J s')

include hS hW in
/-- The record loop of `recv` maintains what steady changes and its two branches on
application data and alerts maintain. -/
theorem steady_recvRecords (size : ℕ)
    (hdata : ∀ (s : System P W) record content, I s →
      unprotectRecordAes128Gcm P s.client.serverAppKeys record 16640 =
        .ok ⟨contentApplicationData, content, s.client.serverAppKeys.advance⟩ →
      wp (recvData E content size) (ends I J) (afterOpen s .serverApp record))
    (halert : ∀ content, Maintains I J (recvAlert E content : ClientM P W Bytes))
    (fuel : ℕ) : Maintains I J (recvRecords E size fuel : ClientM P W Bytes) :=
  leads_recvRecords E (Steady.firm_closed hS) hW size
    (fun s _ => hS s _ (steady_emit s rfl)) hdata halert
    (fun _ => maintains_orFail E hW (steady_processPostHandshake E hS (fun _ h => h) _)) fuel

end Steady

/-! ## The calls that neither connect nor receive -/

section Calls

/-- What `close` and `reset` do to a client besides wiping its secrets. -/
structure Ended (s s' : System P W) : Prop where
  state : s'.client.state = .idle ∨ s'.client.state = .closed
  trace : s'.trace = s.trace
  capacity : s'.client.deframer.capacity = s.client.deframer.capacity
  pendingApp : s'.client.pendingApp = s.client.pendingApp
  pending : (s'.client.pendingAppOffset = s.client.pendingAppOffset ∧
    s'.client.pendingAppLength = s.client.pendingAppLength) ∨
    (s'.client.pendingAppOffset = 0 ∧ s'.client.pendingAppLength = 0)

variable (E : Env W) {I : System P W → Prop}
variable (hF : ∀ s s', Firm s s' → I s → I s')
variable (hend : ∀ s s', Ended s s' → I s → I s')

include hF hend in
/-- `close` keeps what holds of a wiped client. -/
theorem keeps_close : Keeps I (close E : ClientM P W Unit) := by
  have hJ : ∀ s : System P W, I s → I s := fun _ h => h
  have hlast : Keeps I (do
      closeStream E
      modifyClient fun c => { c.wipeSecrets with state := .closed } : ClientM P W Unit) := by
    intro s hs r s' hrun
    simp only [bind_apply, closeStream_apply, modifyClient] at hrun
    cases hrun
    exact hend s _ ⟨Or.inr rfl, rfl, rfl, rfl, Or.inl ⟨rfl, rfl⟩⟩ hs
  unfold close
  apply maintains_bind maintains_getClient
  intro c
  split
  · exact maintains_pure ()
  · refine maintains_bind ?_ fun _ => hlast
    unfold sendCloseNotify
    split
    · exact keeps_attempt (firm_sendProtected E hF hJ _ _)
    · exact maintains_pure _

include hend in
/-- `reset` keeps what holds of a wiped client. -/
theorem keeps_reset : Keeps I (reset E : ClientM P W Unit) := by
  unfold reset
  apply maintains_bind maintains_getClient
  intro c
  split
  · exact maintains_throw (fun _ h => h) _
  · intro s hs r s' hrun
    simp only [bind_apply, closeStream_apply, modifyClient] at hrun
    cases hrun
    exact hend s _ ⟨Or.inl rfl, rfl, rfl, rfl, Or.inr ⟨rfl, rfl⟩⟩ hs

include hF hend in
/-- A call keeps what firm changes, failing and ending preserve, if `connect` and `recv` do. -/
theorem keeps_call (hW : ∀ s s', Wiped s s' → I s → I s') (fuel : ℕ) (call : Call)
    (hconnect : ∀ config, call = .connect config →
      Keeps I (connect E fuel config : ClientM P W Unit))
    (hsend : ∀ null data, call = .send null data → Keeps I (send E null data : ClientM P W Unit))
    (hrecv : ∀ receivedNull outNull size, call = .recv receivedNull outNull size →
      Keeps I (recv E fuel receivedNull outNull size : ClientM P W Bytes)) :
    Keeps I (call.run E fuel : ClientM P W Bytes) := by
  have hJ : ∀ s : System P W, I s → I s := fun _ h => h
  cases call with
  | connect config => exact maintains_bind (hconnect config rfl) fun _ => maintains_pure []
  | send null data => exact maintains_bind (hsend null data rfl) fun _ => maintains_pure []
  | recv receivedNull outNull size => exact hrecv receivedNull outNull size rfl
  | keyUpdate request =>
    exact maintains_bind (firm_keyUpdate E hF hJ hW request) fun _ => maintains_pure []
  | reset => exact maintains_bind (keeps_reset E hend) fun _ => maintains_pure []
  | close => exact maintains_bind (keeps_close E hF hend) fun _ => maintains_pure []

end Calls

end XboxTls.Analysis
