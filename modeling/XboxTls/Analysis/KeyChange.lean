import XboxTls.Analysis.Lifecycle
import XboxTls.Analysis.FlightRun
import XboxTls.Interface.KeyChange

/-!
# Messages that span a key change

After a ServerHello `connect` checks that the deframer is empty; after the server's Finished
and after a KeyUpdate nothing does.  Bytes behind them in the same record stay in the
deframer and become part of the next message, which comes under other keys.  Where the
server ends its records with these messages, no bytes cross a change of keys
(`noneAcross_of_run`).
-/

set_option autoImplicit false

namespace XboxTls.Analysis

open Programs Programs.Prog XboxTls.Model XboxTls.Interface

variable {P : Crypto} {W : Type} (E : Env W)

/-! ## Traces that grow -/

/-- The demand on a trace is one on all its beginnings. -/
theorem keyChangesEndFragments_left {a b : List Event} (h : KeyChangesEndFragments (a ++ b)) :
    KeyChangesEndFragments a := by
  refine ⟨?_, ?_⟩
  · intro x buffered content y fin z rest heq
    have hlong : a ++ b =
        x ++ .fragment .handshake buffered content :: y ++ .flight fin :: (z ++ b) := by
      rw [heq]
      simp
    exact h.finished x buffered content y fin (z ++ b) rest hlong
  · intro buffered content msg rest hmem
    exact h.keyUpdate buffered content msg rest (List.mem_append_left b hmem)

/-- What an event has to satisfy for `NoneAcross` to go on. -/
def Uncrossed (evs : List Event) : Event → Prop
  | .readKeysChanged _ beyond => beyond = []
  | .fragment _ buffered _ => buffered <:+ epochBytes evs
  | _ => True

/-- One more event that crosses nothing. -/
theorem noneAcross_concat {evs : List Event} {ev : Event} (h : NoneAcross evs)
    (hev : Uncrossed evs ev) : NoneAcross (evs ++ [ev]) := by
  refine ⟨?_, ?_⟩
  · intro stage beyond hmem
    rcases List.mem_append.mp hmem with hmem | hmem
    · exact h.atChange stage beyond hmem
    · obtain rfl := List.mem_singleton.mp hmem
      exact hev
  · intro a stage buffered content b heq
    rcases List.eq_nil_or_concat b with rfl | ⟨b, ev', rfl⟩
    · obtain ⟨rfl, rfl⟩ := List.append_singleton_inj.mp heq
      exact hev
    · rw [List.concat_eq_append, ← List.cons_append, ← List.append_assoc] at heq
      obtain ⟨heq, -⟩ := List.append_singleton_inj.mp heq
      exact h.sameKeys a stage buffered content b heq

/-- One more event counts as it does. -/
theorem epochBytes_concat (evs : List Event) (ev : Event) :
    epochBytes (evs ++ [ev]) = epochStep (epochBytes evs) ev := by
  simp only [epochBytes, List.foldl_append, List.foldl_cons, List.foldl_nil]

/-- The events that have nothing to do with the deframer. -/
def passiveEvent : Event → Bool
  | .connect _ | .fragment _ _ _ | .readKeysChanged _ _ => false
  | _ => true

/-- A passive event crosses nothing. -/
theorem noneAcross_passive {evs : List Event} {ev : Event} (hev : passiveEvent ev = true)
    (h : NoneAcross evs) : NoneAcross (evs ++ [ev]) := by
  apply noneAcross_concat h
  cases ev with
  | readKeysChanged slot buffered => cases hev
  | _ => trivial

/-- A passive event adds no bytes to the epoch. -/
theorem epochBytes_passive (evs : List Event) {ev : Event} (hev : passiveEvent ev = true) :
    epochBytes (evs ++ [ev]) = epochBytes evs := by
  rw [epochBytes_concat]
  cases ev <;> first | rfl | cases hev

/-- A firm event is passive. -/
theorem passiveEvent_of_firmEvent {ev : Event} (h : firmEvent ev = true) :
    passiveEvent ev = true := by
  cases ev <;> first | rfl | cases h

/-- `evs` passive events later. -/
theorem passive_append {trace evs : List Event} (hevs : ∀ ev ∈ evs, passiveEvent ev = true) :
    (NoneAcross trace → NoneAcross (trace ++ evs)) ∧
      epochBytes (trace ++ evs) = epochBytes trace := by
  induction evs using List.reverseRecOn with
  | nil => simp
  | append_singleton evs ev ih =>
    obtain ⟨hnone, hbytes⟩ := ih fun e he => hevs e (List.mem_append_left _ he)
    have hev := hevs ev (by simp)
    rw [← List.append_assoc]
    exact ⟨fun h => noneAcross_passive hev (hnone h), (epochBytes_passive _ hev).trans hbytes⟩

/-! ## The invariant -/

/-- No bytes have crossed so far. -/
def Sound (s : System P W) : Prop := KeyChangesEndFragments s.trace → NoneAcross s.trace

/-- And those in the deframer came under the current keys. -/
def Clean (s : System P W) : Prop :=
  KeyChangesEndFragments s.trace →
    NoneAcross s.trace ∧ s.client.deframer.buffer <:+ epochBytes s.trace

/-- And there are none. -/
def Empty (s : System P W) : Prop :=
  KeyChangesEndFragments s.trace → NoneAcross s.trace ∧ s.client.deframer.buffer = []

/-- A clean state is sound. -/
theorem Clean.sound {s : System P W} (h : Clean s) : Sound s := fun hends => (h hends).1

/-- A state with an empty deframer is clean. -/
theorem Empty.clean {s : System P W} (h : Empty s) : Clean s := fun hends =>
  ⟨(h hends).1, by rw [(h hends).2]; exact List.nil_suffix⟩

/-- A change that leaves the deframer alone, with passive events. -/
structure Passive (s s' : System P W) : Prop where
  deframer : s'.client.deframer = s.client.deframer
  trace : ∃ evs, s'.trace = s.trace ++ evs ∧ ∀ ev ∈ evs, passiveEvent ev = true

/-- A firm change is passive. -/
theorem Firm.passive {s s' : System P W} (h : Firm s s') : Passive s s' := by
  obtain ⟨evs, htrace, hevs⟩ := h.trace
  exact ⟨h.deframer, evs, htrace, fun ev hev => passiveEvent_of_firmEvent (hevs ev hev)⟩

/-- A passive event changes nothing else. -/
theorem passive_emit (s : System P W) {ev : Event} (h : passiveEvent ev = true) :
    Passive s { s with trace := s.trace ++ [ev] } :=
  ⟨rfl, [ev], rfl, by simp [h]⟩

/-- A passive change keeps a state sound. -/
theorem sound_passive {s s' : System P W} (h : Passive s s') (hs : Sound s) : Sound s' := by
  obtain ⟨evs, htrace, hevs⟩ := h.trace
  intro hends
  rw [htrace] at hends ⊢
  exact (passive_append hevs).1 (hs (keyChangesEndFragments_left hends))

/-- A passive change keeps a state clean. -/
theorem clean_passive {s s' : System P W} (h : Passive s s') (hs : Clean s) : Clean s' := by
  obtain ⟨evs, htrace, hevs⟩ := h.trace
  intro hends
  rw [htrace] at hends ⊢
  obtain ⟨hnone, hsuffix⟩ := hs (keyChangesEndFragments_left hends)
  rw [h.deframer, (passive_append hevs).2]
  exact ⟨(passive_append hevs).1 hnone, hsuffix⟩

/-- A passive change keeps the deframer empty. -/
theorem empty_passive {s s' : System P W} (h : Passive s s') (hs : Empty s) : Empty s' := by
  obtain ⟨evs, htrace, hevs⟩ := h.trace
  intro hends
  rw [htrace] at hends ⊢
  obtain ⟨hnone, hempty⟩ := hs (keyChangesEndFragments_left hends)
  rw [h.deframer]
  exact ⟨(passive_append hevs).1 hnone, hempty⟩

/-- Dropping bytes from the front. -/
theorem clean_shorten (s : System P W) (d : HandshakeDeframer)
    (hd : d.buffer <:+ s.client.deframer.buffer) (hs : Clean s) :
    Clean { s with client := { s.client with deframer := d } } :=
  fun hends => ⟨(hs hends).1, hd.trans (hs hends).2⟩

/-- A fragment is added to bytes of the same keys. -/
theorem clean_append {s : System P W} {stage : Stage} {content : Bytes} {d : HandshakeDeframer}
    (hd : d.buffer = s.client.deframer.buffer ++ content) (hs : Clean s) :
    Clean { s with
      client := { s.client with deframer := d }
      trace := s.trace ++ [.fragment stage s.client.deframer.buffer content] } := by
  intro hends
  obtain ⟨hnone, hsuffix⟩ := hs (keyChangesEndFragments_left hends)
  refine ⟨noneAcross_concat hnone hsuffix, ?_⟩
  dsimp only
  rw [hd, epochBytes_concat]
  obtain ⟨front, hfront⟩ := hsuffix
  exact ⟨front, by rw [← hfront, ← List.append_assoc]; rfl⟩

/-- The keys change while nothing is left. -/
theorem empty_readKeysChanged {s : System P W} {stage : Stage} (hs : Empty s) :
    Empty { s with
      trace := s.trace ++ [.readKeysChanged stage s.client.deframer.buffer] } := by
  intro hends
  obtain ⟨hnone, hempty⟩ := hs (keyChangesEndFragments_left hends)
  exact ⟨noneAcross_concat hnone hempty, hempty⟩

/-- Wiping the secrets keeps a state sound. -/
theorem sound_wiped {s s' : System P W} (h : Wiped s s') (hs : Sound s) : Sound s' := by
  unfold Sound
  rw [h.trace]
  exact hs

/-! ## Between two calls -/

/-- Between two calls, the deframer of a connected client holds bytes of the current keys. -/
def Between (s : System P W) : Prop :=
  Sound s ∧ (s.client.state = .connected → Clean s)

/-- A failed client is between two calls. -/
theorem between_of_wiped {s s' : System P W} (h : Wiped s s') (hs : Sound s) : Between s' :=
  ⟨sound_wiped h hs, fun hconn => by rw [h.client] at hconn; cases hconn⟩

/-- A clean state is one between two calls. -/
theorem between_of_clean {s : System P W} (hs : Clean s) : Between s := ⟨hs.sound, fun _ => hs⟩

/-- A passive change that leaves the state of the client stays between two calls. -/
theorem between_of_passive {s s' : System P W} (h : Passive s s')
    (hstate : s'.client.state = s.client.state) (hs : Between s) : Between s' :=
  ⟨sound_passive h hs.1, fun hconn => clean_passive h (hs.2 (hstate ▸ hconn))⟩

/-! ## The hello messages -/

/-- A firm change keeps a state clean. -/
theorem clean_firm {s s' : System P W} (h : Firm s s') (hs : Clean s) : Clean s' :=
  clean_passive h.passive hs

/-- A firm change keeps the deframer empty. -/
theorem empty_firm {s s' : System P W} (h : Firm s s') (hs : Empty s) : Empty s' :=
  empty_passive h.passive hs

/-- A still change keeps a state clean. -/
theorem clean_still {s s' : System P W} (h : Still s s') (hs : Clean s) : Clean s' :=
  clean_firm h.firm hs

/-- A clean state that fails is between two calls. -/
theorem between_of_clean_wiped {s s' : System P W} (h : Wiped s s') (hs : Clean s) :
    Between s' :=
  between_of_wiped h hs.sound

/-- A fragment that is appended keeps a state clean. -/
theorem clean_appendFragment (stage : Stage) (content : Bytes) :
    Keeps Clean (appendFragment stage content : ClientM P W Unit) := by
  intro s hs
  unfold appendFragment
  rw [wp_bind, wp_getClient, thenWp_ok, wp_bind, wp_lift]
  cases happend : s.client.deframer.append content with
  | error e => exact hs
  | ok d =>
    rw [thenWp_ok, wp_bind, wp_modifyClient, thenWp_ok, wp_emit]
    apply clean_append _ hs
    unfold HandshakeDeframer.append at happend
    split at happend
    · cases happend
    · cases happend
      rfl

/-- The hello loop keeps a state clean. -/
theorem clean_helloClosed : HelloClosed (Clean : System P W → Prop) where
  still _ _ := clean_still
  shorten s d h := clean_shorten s d h.suffix
  clientHello s _ _ := clean_passive (passive_emit s rfl)
  retry s _ _ := clean_passive (passive_emit s rfl)
  serverHello s _ _ := clean_passive (passive_emit s rfl)

/-- After the ServerHello nothing is left. -/
theorem empties_consumeHello (s : System P W) :
    wpOk (consumeHello E) (fun _ s' => s'.client.deframer.buffer = []) s := by
  unfold consumeHello
  rw [wpOk_bind, wpOk_attempt]
  intro r s' _
  split
  · exact wpOk_failWith E _ _ _
  · rw [wpOk_bind, wpOk_getClient]
    split
    · exact wpOk_failWith E _ _ _
    · next hlen =>
      rw [wpOk_pure]
      exact List.length_eq_zero_iff.mp (not_not.mp hlen)

/-- The hello loop leaves the deframer empty. -/
theorem empties_helloLoop (fuel : ℕ) (h : HelloLocals) (s : System P W) :
    wpOk (helloLoop E fuel h) (fun _ s' => s'.client.deframer.buffer = []) s := by
  induction fuel generalizing h s with
  | zero => exact wpOk_diverge _ _
  | succ fuel ih =>
    unfold helloLoop
    rw [wpOk_bind, wpOk_getClient]
    split
    · rw [wpOk_bind]
      exact fun _ s' _ => ih h s'
    · exact wpOk_failWith E _ _ _
    · split
      · exact wpOk_failWith E _ _ _
      · rw [wpOk_bind]
        intro sh s₁ _
        split
        · exact wpOk_failWith E _ _ _
        · split
          · rw [wpOk_bind]
            exact fun h' s' _ => ih h' s'
          · rw [wpOk_bind]
            intro _ s₂ _
            refine wpOk_bind_of_spec (empties_consumeHello E s₂) ?_
            intro _ s₃ hempty
            rw [wpOk_bind, wpOk_emit, wpOk_pure]
            exact hempty

/-- The hello loop leads from a clean state to an empty deframer. -/
theorem empty_helloLoop (fuel : ℕ) (h : HelloLocals) :
    Leads Clean Empty Between
      (helloLoop E fuel h : ClientM P W (ServerHelloInfo × HelloLocals)) := by
  have hread : Maintains Clean Between (readHelloRecord E : ClientM P W Unit) :=
    maintains_readHelloRecord E (fun _ _ => clean_still) (fun _ _ => between_of_clean_wiped)
      (fun s _ => clean_passive (passive_emit s rfl)) (clean_appendFragment .plaintext)
  intro s hs r s' hrun
  have hclean := maintains_helloLoop E (fun _ _ => between_of_clean_wiped) clean_helloClosed hread
    fuel h s hs r s' hrun
  cases r with
  | error e => exact hclean
  | ok a => exact fun hends => ⟨(hclean hends).1, empties_helloLoop E fuel h s a s' hrun⟩

/-! ## The handshake keys -/

section Passive

variable {I J : System P W → Prop}
variable (hP : ∀ s s', Passive s s' → I s → I s')

include hP in
/-- A change that leaves the deframer. -/
theorem passive_modifyClient {f : TlsClient P → TlsClient P}
    (hf : ∀ c, (f c).deframer = c.deframer) :
    Maintains I J (modifyClient f : ClientM P W Unit) := by
  intro s hs
  rw [wp_modifyClient]
  exact hP s _ ⟨hf _, [], by simp, by simp⟩ hs

include hP in
/-- A passive event is emitted. -/
theorem passive_maintains_emit {ev : Event} (h : passiveEvent ev = true) :
    Maintains I J (emit ev : ClientM P W Unit) :=
  maintains_of_emit fun s => hP s _ (passive_emit s h)

end Passive

/-- The deframer is empty, also before it was reset. -/
def EmptyBeyond (beyond : Bytes) (s : System P W) : Prop :=
  Empty s ∧ (KeyChangesEndFragments s.trace → beyond = [])

/-- A passive change keeps deframer and bytes beyond it empty. -/
theorem emptyBeyond_passive {beyond : Bytes} {s s' : System P W} (h : Passive s s')
    (hs : EmptyBeyond beyond s) : EmptyBeyond beyond s' := by
  refine ⟨empty_passive h hs.1, ?_⟩
  intro hends
  obtain ⟨evs, htrace, -⟩ := h.trace
  rw [htrace] at hends
  exact hs.2 (keyChangesEndFragments_left hends)

/-- The change to the handshake keys comes with an empty deframer. -/
theorem empty_deriveHandshakeKeys (sh : ServerHelloInfo) (group : NamedGroup) :
    Leads Empty Empty Between (deriveHandshakeKeys E sh group : ClientM P W Unit) := by
  intro s hs
  unfold deriveHandshakeKeys
  rw [wp_bind, wp_getClient, thenWp_ok, wp_bind, wp_modifyClient, thenWp_ok]
  have hstart : EmptyBeyond s.client.deframer.buffer
      { s with client := { s.client with deframer := s.client.deframer.reset } } :=
    ⟨fun hends => ⟨(hs hends).1, rfl⟩, fun hends => (hs hends).2⟩
  generalize s.client.deframer.buffer = beyond at hstart
  have hP : ∀ s s' : System P W, Passive s s' → EmptyBeyond beyond s → EmptyBeyond beyond s' :=
    fun _ _ => emptyBeyond_passive
  have hF : ∀ s s' : System P W, Firm s s' → EmptyBeyond beyond s → EmptyBeyond beyond s' :=
    fun s s' h => hP s s' h.passive
  have hW : ∀ s s' : System P W, Wiped s s' → EmptyBeyond beyond s → Between s' :=
    fun _ _ h hs => between_of_clean_wiped h hs.1.clean
  suffices hrest : Leads (EmptyBeyond beyond) Empty Between (if sh.group ≠ group then
      failWith E .badHandshake else do
      let c ← getClient
      let shared ← orFail E (Prog.lift (computeShared (P := P) c.privateKey sh))
      emit (.sharedSecret c.privateKey shared)
      modifyClient fun c => { c with schedule := c.schedule.deriveEarlySecret P [] }
      let c ← getClient
      let th := transcriptSnapshot P c.transcript
      let schedule ← orFail E (Prog.lift (c.schedule.deriveHandshakeSecret P shared.val th))
      modifyClient fun c => { c with schedule := schedule }
      orFail E (deriveKeys .clientHs schedule.clientHandshakeTrafficSecret)
      orFail E (deriveKeys .serverHs schedule.serverHandshakeTrafficSecret)
      emit (.readKeysChanged .handshake beyond) : ClientM P W Unit) from hrest _ hstart
  split
  · intro s hs
    rw [wp_failWith_iff]
    exact hW _ _ (wiped_afterEnd E s) hs
  · apply leads_bind maintains_getClient
    intro c
    apply leads_bind (maintains_orFail E hW (maintains_lift (fun _ h => h) _))
    intro shared
    apply leads_bind (passive_maintains_emit hP rfl)
    intro _
    refine leads_bind (passive_modifyClient hP fun c => ?_) fun _ => ?_
    · rfl
    apply leads_bind maintains_getClient
    intro c
    apply leads_bind (maintains_orFail E hW (maintains_lift (fun _ h => h) _))
    intro schedule
    refine leads_bind (passive_modifyClient hP fun c => ?_) fun _ => ?_
    · rfl
    apply leads_bind (maintains_orFail E hW (firm_deriveKeys hF (fun _ h => h) _ _))
    intro _
    apply leads_bind (maintains_orFail E hW (firm_deriveKeys hF (fun _ h => h) _ _))
    intro _ s hs
    rw [wp_emit]
    intro hends
    have hbefore := keyChangesEndFragments_left hends
    exact ⟨noneAcross_concat (hs.1 hbefore).1 (hs.2 hbefore), (hs.1 hbefore).2⟩

/-! ## The encrypted flight -/

/-- What is left of a fragment of the flight, while whole messages of it were accepted. -/
structure Draining (a : List Event) (buffered content : Bytes) (s : System P W) : Prop where
  clean : Clean s
  trace : ∃ b, s.trace = a ++ .fragment .handshake buffered content :: b ∧
    ∀ ev ∈ b, isFragment ev = false
  left : Skips (fun _ => True) (buffered ++ content) s.client.deframer.buffer

/-- And the last event is that of a message. -/
structure AcceptingMessage (a : List Event) (buffered content : Bytes) (msg : HandshakeMessage)
    (s : System P W) : Prop extends Draining a buffered content s where
  last : ∃ b, s.trace = a ++ .fragment .handshake buffered content :: b ++ [.flight msg] ∧
    ∀ ev ∈ b, isFragment ev = false

section Draining

variable {a : List Event} {buffered content : Bytes}

/-- A passive event is no fragment. -/
theorem isFragment_of_passive {ev : Event} (h : passiveEvent ev = true) :
    isFragment ev = false := by
  cases ev <;> first | rfl | cases h

/-- A passive change goes on with the messages of the fragment. -/
theorem draining_passive {s s' : System P W} (h : Passive s s')
    (hs : Draining a buffered content s) : Draining a buffered content s' := by
  obtain ⟨evs, htrace, hevs⟩ := h.trace
  obtain ⟨b, hb, hnone⟩ := hs.trace
  refine ⟨clean_passive h hs.clean, ⟨b ++ evs, ?_, ?_⟩, ?_⟩
  · rw [htrace, hb, List.append_assoc, List.cons_append]
  · intro ev hev
    rcases List.mem_append.mp hev with hev | hev
    · exact hnone ev hev
    · exact isFragment_of_passive (hevs ev hev)
  · rw [h.deframer]
    exact hs.left

/-- The flight goes on with the messages of the fragment. -/
theorem draining_flightClosed : FlightClosed (Draining a buffered content : System P W → Prop) where
  still _ _ h := draining_passive h.firm.passive
  alpn s _ := draining_passive ⟨rfl, [], by simp, by simp⟩
  finishedVerified s _ := draining_passive (passive_emit s rfl)

/-- Only a Finished ends the flight. -/
theorem finished_of_handleHandshakeMessage (msg : HandshakeMessage) {l : FlightLocals}
    (hopen : l.gotFinished = false) (s : System P W) :
    wpOk (handleHandshakeMessage E msg l)
      (fun l' _ => l'.gotFinished = true → msg.type = hsFinished) s := by
  have hend : ∀ (l' : FlightLocals) (s : System P W), l'.gotFinished = l.gotFinished →
      wpOk (do hashMessage msg.encoded; emit (.flight msg); pure l')
        (fun l' _ => l'.gotFinished = true → msg.type = hsFinished) s := by
    intro l' s hl'
    simp only [hashMessage, wpOk_bind, wpOk_modifyClient, wpOk_emit, wpOk_pure]
    intro hdone
    rw [hl', hopen] at hdone
    cases hdone
  unfold handleHandshakeMessage
  split
  · unfold handleEncryptedExtensions
    rw [wpOk_bind, wpOk_lift]
    intro ee _
    rw [wpOk_bind]
    exact fun _ s₁ _ => hend l s₁ rfl
  · split
    · unfold handleCertificate
      split
      · exact wpOk_throw _ _ _
      · rw [wpOk_bind, wpOk_modifyClient, wpOk_bind, wpOk_lift]
        intro saved _
        rw [wpOk_bind, wpOk_lift]
        exact fun info _ => hend _ _ rfl
    · split
      · unfold handleCertificateVerify
        split
        · exact wpOk_throw _ _ _
        · rw [wpOk_bind, wpOk_lift]
          intro cv _
          rw [wpOk_bind, wpOk_getClient, wpOk_bind]
          exact fun _ s₁ _ => hend l s₁ rfl
      · split
        · next htype => exact fun _ _ _ _ => htype
        · exact wpOk_throw _ _ _

/-- The state after some messages of the flight. -/
def FlightEnds : Except Error FlightLocals → System P W → Prop
  | .ok l', s' => Clean s' ∧ (l'.gotFinished = true → Empty s')
  | .error _, s' => Sound s'

/-- When the Finished is taken out of the deframer, nothing is left. -/
theorem empty_of_finished {s : System P W} {msg : HandshakeMessage} {n : ℕ}
    {d : HandshakeDeframer} (hs : AcceptingMessage a buffered content msg s)
    (htype : msg.type = hsFinished)
    (hparse : parseHandshakeMessage s.client.deframer.buffer = .ok (msg, n))
    (hd : d.buffer = s.client.deframer.buffer.drop n) :
    Empty { s with client := { s.client with deframer := d } } := by
  intro hends
  obtain ⟨b, htrace, hnone⟩ := hs.last
  have hstands : StandsIn (fun _ => True) (buffered ++ content) msg
      (s.client.deframer.buffer.drop n) := ⟨_, n, hs.left, hparse, rfl⟩
  have hrest := hends.finished a buffered content b msg [] _ htrace hnone htype hstands
  exact ⟨(hs.clean hends).1, hd.trans hrest⟩

/-- The messages of a fragment end where the fragment does, or the next ones are waited for. -/
theorem wp_drainFlight (fuel : ℕ) {l : FlightLocals} (hopen : l.gotFinished = false)
    {s : System P W} (hs : Draining a buffered content s) :
    wp (drainFlight E fuel l) FlightEnds s := by
  induction fuel generalizing l s with
  | zero => exact wp_diverge _ s
  | succ fuel ih =>
    unfold drainFlight
    rw [wp_bind, wp_getClient, thenWp_ok]
    split
    · rw [wp_pure]
      exact ⟨hs.clean, fun hdone => by rw [hopen] at hdone; cases hdone⟩
    · rw [wp_throw]
      exact hs.clean.sound
    · next msg hpeek =>
      obtain ⟨n, hparse⟩ := peek_ok hpeek
      -- handling a message leaves the deframer as it is
      have hkeep : FlightClosed fun s' : System P W =>
          Draining a buffered content s' ∧ s'.client.deframer = s.client.deframer :=
        ⟨fun s₁ s₂ h hs₁ => ⟨draining_flightClosed.still s₁ s₂ h hs₁.1, h.deframer.trans hs₁.2⟩,
          fun s₁ alpn hs₁ => ⟨draining_flightClosed.alpn s₁ alpn hs₁.1, hs₁.2⟩,
          fun s₁ th hs₁ => ⟨draining_flightClosed.finishedVerified s₁ th hs₁.1, hs₁.2⟩⟩
      have hflight : ∀ s₁ : System P W,
          Draining a buffered content s₁ ∧ s₁.client.deframer = s.client.deframer →
          AcceptingMessage a buffered content msg { s₁ with trace := s₁.trace ++ [.flight msg] } ∧
            s₁.client.deframer = s.client.deframer := by
        rintro s₁ ⟨hs₁, hd⟩
        obtain ⟨b, hb, hnone⟩ := hs₁.trace
        exact ⟨⟨draining_passive (passive_emit s₁ rfl) hs₁, b, by rw [hb], hnone⟩, hd⟩
      have hhandle := leads_handleHandshakeMessage (J := Sound) E (fun _ h => h.1.clean.sound)
        hkeep msg l (K := fun s' => AcceptingMessage a buffered content msg s' ∧
          s'.client.deframer = s.client.deframer) hflight s ⟨hs, rfl⟩
      have hfin := finished_of_handleHandshakeMessage E msg hopen s
      rw [wp_bind]
      intro r s₁ hrun
      cases r with
      | error e => exact hhandle _ _ hrun
      | ok l' =>
        obtain ⟨haccept, hdeframer⟩ := hhandle _ _ hrun
        rw [← hdeframer] at hparse
        obtain ⟨d, -, hd, hconsume⟩ := consumeMessage_run hparse
        have hnext : Draining a buffered content
            { s₁ with client := { s₁.client with deframer := d } } := by
          refine ⟨clean_shorten s₁ d ?_ haccept.clean, haccept.trace, ?_⟩
          · rw [hd]
            exact List.drop_suffix _ _
          · dsimp only
            rw [hd]
            exact haccept.left.step hparse trivial
        rw [thenWp_ok]
        intro r s₂ hrun₂
        rw [bind_of_ok hconsume] at hrun₂
        split at hrun₂
        · next hdone =>
          cases hrun₂
          have hempty := empty_of_finished haccept (hfin l' s₁ hrun hdone) hparse hd
          exact ⟨hempty.clean, fun _ => hempty⟩
        · next hgoing => exact ih (by simpa using hgoing) hnext r s₂ hrun₂

end Draining

/-- A fragment of the flight is where draining begins. -/
theorem draining_append {s : System P W} {content : Bytes} {d : HandshakeDeframer}
    (hd : d.buffer = s.client.deframer.buffer ++ content) (hs : Clean s) :
    Draining s.trace s.client.deframer.buffer content
      { s with
        client := { s.client with deframer := d }
        trace := s.trace ++ [.fragment .handshake s.client.deframer.buffer content] } := by
  refine ⟨clean_append hd hs, ⟨[], rfl, by simp⟩, ?_⟩
  dsimp only
  rw [hd]
  exact .refl

/-- A record of the flight ends where a message does, or more is waited for. -/
theorem wp_flightRound {l : FlightLocals} (hopen : l.gotFinished = false) {s : System P W}
    (hs : Clean s) : wp (flightRound E l) FlightEnds s := by
  have hT : ∀ s s' : System P W, Still s s' → Clean s → Clean s' := fun _ _ => clean_still
  have hJ : ∀ s : System P W, Clean s → Sound s := fun _ h => h.sound
  have hgoing : ∀ s : System P W, Clean s → FlightEnds (.ok l) s := fun s hs =>
    ⟨hs, fun hdone => by rw [hopen] at hdone; cases hdone⟩
  have halert : ∀ content, ∀ s : System P W, Clean s → wp (do
      let e ← handleAlert content
      Prog.throw e : ClientM P W FlightLocals) FlightEnds s := by
    intro content s hs
    refine wp_bind_of_spec (maintains_handleAlert (J := Sound) hT content s hs) ?_ ?_
    · intro e s' hs'
      rw [wp_throw]
      exact hJ s' hs'
    · exact fun e s' hs' => hs'
  unfold flightRound
  refine wp_bind_of_spec (maintains_readRecord E hT hJ _ s hs) ?_ fun e s' hs' => hs'
  intro record s₁ hs₁
  refine wp_bind_of_spec (maintains_lift hJ (parseRecordHeader record) s₁ hs₁) ?_
    fun e s' hs' => hs'
  intro rh s₂ hs₂
  split
  · rw [wp_bind, wp_emit, thenWp_ok, wp_pure]
    exact hgoing _ (clean_passive (passive_emit s₂ rfl) hs₂)
  · split
    · exact halert _ s₂ hs₂
    · split
      · rw [wp_throw]
        exact hJ s₂ hs₂
      · refine wp_bind_of_spec (firm_unprotectRecord (fun _ _ => clean_firm) hJ .serverHs record
          s₂ hs₂) ?_ fun e s' hs' => hs'
        rintro ⟨inner, content⟩ s₃ hs₃
        dsimp only
        split
        · exact halert _ s₃ hs₃
        · split
          · rw [wp_throw]
            exact hJ s₃ hs₃
          · unfold appendFragment
            simp only [wp_bind, wp_getClient, thenWp_ok, wp_lift]
            cases happend : s₃.client.deframer.append content with
            | error e => exact hJ s₃ hs₃
            | ok d =>
              simp only [thenWp_ok, wp_bind, wp_modifyClient, wp_emit, wp_getClient]
              refine wp_drainFlight E _ hopen (draining_append ?_ hs₃)
              unfold HandshakeDeframer.append at happend
              split at happend
              · cases happend
              · cases happend
                rfl

/-- The flight ends with an empty deframer where no bytes follow the Finished. -/
theorem empty_flightLoop (fuel : ℕ) {l : FlightLocals} {s : System P W}
    (hs : FlightEnds (.ok l) s) :
    wp (flightLoop E fuel l : ClientM P W Unit) (ends Empty Sound) s := by
  induction fuel generalizing l s with
  | zero => exact wp_diverge _ s
  | succ fuel ih =>
    unfold flightLoop
    split
    · next hdone =>
      rw [wp_pure]
      exact hs.2 hdone
    · next hopen =>
      refine wp_bind_of_spec (wp_flightRound E (by simpa using hopen) hs.1) ?_ ?_
      · exact fun l' s' hs' => ih hs'
      · exact fun e s' hs' => hs'

/-- The change to the application keys comes with an empty deframer. -/
theorem empty_finishHandshake :
    Leads Empty Empty Sound (finishHandshake E : ClientM P W Unit) := by
  have hP : ∀ s s' : System P W, Passive s s' → Empty s → Empty s' := fun _ _ => empty_passive
  have hF : ∀ s s' : System P W, Firm s s' → Empty s → Empty s' := fun _ _ => empty_firm
  have hJ : ∀ s : System P W, Empty s → Sound s := fun _ h => h.clean.sound
  unfold finishHandshake
  apply leads_bind maintains_getClient
  intro c
  apply leads_bind (maintains_lift hJ _)
  intro schedule
  refine leads_bind (passive_modifyClient hP fun c => ?_) fun _ => ?_
  · rfl
  apply leads_bind (firm_deriveKeys hF hJ _ _)
  intro _
  apply leads_bind (firm_deriveKeys hF hJ _ _)
  intro _ s hs
  rw [wp_bind, wp_getClient, thenWp_ok, wp_bind, wp_emit, thenWp_ok]
  suffices hrest : Leads Empty Empty Sound (do
      let fin ← Prog.lift (buildFinishedSha256 P schedule.clientHandshakeTrafficSecret
        (transcriptSnapshot P s.client.transcript) 64)
      sendProtected E contentHandshake fin
      hashMessage fin
      emit (.clientFinished (transcriptSnapshot P s.client.transcript) fin) : ClientM P W Unit)
    from hrest _ (empty_readKeysChanged hs)
  apply leads_bind (maintains_lift hJ _)
  intro fin
  apply leads_bind (firm_sendProtected E hF hJ _ _)
  intro _
  apply leads_bind (maintains_hashMessage (Firm.still_closed hF) _)
  intro _
  exact passive_maintains_emit hP rfl

/-- The whole handshake ends with an empty deframer. -/
theorem empty_connectHandshake (fuel : ℕ) (config : ClientConfig) :
    Leads Clean Empty Between (connectHandshake E fuel config : ClientM P W Unit) := by
  unfold connectHandshake
  apply leads_bind (maintains_startHello E (fun _ _ => between_of_clean_wiped) clean_helloClosed
    config)
  intro h
  apply leads_bind (empty_helloLoop E fuel h)
  rintro ⟨sh, h⟩
  apply leads_bind (empty_deriveHandshakeKeys E _ _)
  intro _
  have hserver : Leads Empty Empty Sound (processServerHandshake E fuel : ClientM P W Unit) := by
    intro s hs
    refine wp_bind_of_spec (empty_flightLoop E fuel ⟨hs.clean, fun _ => hs⟩) ?_ ?_
    · exact fun _ s' hs' => empty_finishHandshake E s' hs'
    · exact fun e s' hs' => hs'
  exact maintains_orFail E (fun _ _ => between_of_wiped) hserver

/-! ## After the handshake -/

/-- What is left of a fragment after the handshake: it stands behind tickets, or a KeyUpdate
was the end of it. -/
structure PostDraining (buffered content : Bytes) (s : System P W) : Prop where
  clean : Clean s
  fragment : .fragment .application buffered content ∈ s.trace
  left : Skips (fun m => m.type = hsNewSessionTicket) (buffered ++ content)
    s.client.deframer.buffer ∨ Empty s

/-- The keys have changed, and the message of `n` bytes that changed them is all that the
deframer holds. -/
structure AtEnd (buffered content : Bytes) (n : ℕ) (s : System P W) : Prop where
  fragment : .fragment .application buffered content ∈ s.trace
  ended : KeyChangesEndFragments s.trace →
    NoneAcross s.trace ∧ s.client.deframer.buffer.drop n = []

section PostDraining

variable {buffered content : Bytes}

/-- A passive change goes on with the messages of the record. -/
theorem postDraining_passive {s s' : System P W} (h : Passive s s')
    (hs : PostDraining buffered content s) : PostDraining buffered content s' := by
  obtain ⟨evs, htrace, -⟩ := h.trace
  refine ⟨clean_passive h hs.clean, ?_, ?_⟩
  · rw [htrace]
    exact List.mem_append_left evs hs.fragment
  · rw [h.deframer]
    exact hs.left.imp_right (empty_passive h)

/-- A passive change stays at the end of a message. -/
theorem atEnd_passive {n : ℕ} {s s' : System P W} (h : Passive s s')
    (hs : AtEnd buffered content n s) : AtEnd buffered content n s' := by
  obtain ⟨evs, htrace, hevs⟩ := h.trace
  refine ⟨?_, ?_⟩
  · rw [htrace]
    exact List.mem_append_left evs hs.fragment
  · intro hends
    rw [htrace] at hends ⊢
    obtain ⟨hnone, hdrop⟩ := hs.ended (keyChangesEndFragments_left hends)
    rw [h.deframer]
    exact ⟨(passive_append hevs).1 hnone, hdrop⟩

/-- At the end of a message a state is sound. -/
theorem AtEnd.sound {n : ℕ} {s : System P W} (h : AtEnd buffered content n s) : Sound s :=
  fun hends => (h.ended hends).1

/-- At a KeyUpdate nothing stands behind it. -/
theorem atEnd_of_keyUpdate {s : System P W} {msg : HandshakeMessage} {n : ℕ}
    (hs : PostDraining buffered content s) (hmsg : IsKeyUpdate msg)
    (hparse : parseHandshakeMessage s.client.deframer.buffer = .ok (msg, n)) :
    AtEnd buffered content n { s with
      trace := s.trace ++ [.readKeysChanged .application (s.client.deframer.buffer.drop n)] } := by
  refine ⟨List.mem_append_left _ hs.fragment, ?_⟩
  intro hends
  have hbefore := keyChangesEndFragments_left hends
  have hrest : s.client.deframer.buffer.drop n = [] := by
    rcases hs.left with hleft | hempty
    · exact hbefore.keyUpdate buffered content msg _ hs.fragment ⟨_, n, hleft, hparse, rfl⟩ hmsg
    · rw [(hempty hbefore).2, List.drop_nil]
  exact ⟨noneAcross_concat (hs.clean hbefore).1 hrest, hrest⟩

/-- A KeyUpdate that is processed leaves nothing behind it. -/
theorem wp_handleKeyUpdate {s : System P W} {msg : HandshakeMessage} {n : ℕ}
    (hs : PostDraining buffered content s) (htype : msg.type = hsKeyUpdate)
    (hparse : parseHandshakeMessage s.client.deframer.buffer = .ok (msg, n)) :
    wp (handleKeyUpdate E msg)
      (ends (fun s' => AtEnd buffered content n s' ∧ s'.client.deframer = s.client.deframer)
        Sound) s := by
  have hlen : msg.encoded.length = n := (parseHandshakeMessage_front hparse).2.1
  unfold handleKeyUpdate
  split
  · rw [wp_throw]
    exact hs.clean.sound
  · next hbody =>
    have hmsg : IsKeyUpdate msg := by
      rw [not_or] at hbody
      exact ⟨htype, not_not.mp hbody.1, UInt8.not_lt.mp hbody.2⟩
    have hupdate : Maintains (fun s' : System P W => PostDraining buffered content s' ∧
        s'.client.deframer = s.client.deframer) Sound (updateServerKeys : ClientM P W Unit) :=
      firm_updateServerKeys
        (fun _ _ h hs => ⟨postDraining_passive h.passive hs.1, h.deframer.trans hs.2⟩)
        (fun _ hs => hs.1.clean.sound)
    refine wp_bind_of_spec (hupdate s ⟨hs, rfl⟩) ?_ fun e s' hs' => hs'
    rintro _ s₁ ⟨hs₁, hd⟩
    rw [wp_bind, wp_getClient, thenWp_ok, wp_bind, wp_emit, thenWp_ok]
    rw [← hd] at hparse
    have hend := atEnd_of_keyUpdate hs₁ hmsg hparse
    rw [hlen]
    have hF : ∀ s₂ s₃ : System P W, Firm s₂ s₃ →
        AtEnd buffered content n s₂ ∧ s₂.client.deframer = s.client.deframer →
        AtEnd buffered content n s₃ ∧ s₃.client.deframer = s.client.deframer :=
      fun _ _ h hs₂ => ⟨atEnd_passive h.passive hs₂.1, h.deframer.trans hs₂.2⟩
    have hJ : ∀ s₂ : System P W,
        AtEnd buffered content n s₂ ∧ s₂.client.deframer = s.client.deframer →
        Sound s₂ := fun _ h => h.1.sound
    split
    · have hreply : Maintains (fun s' : System P W => AtEnd buffered content n s' ∧
          s'.client.deframer = s.client.deframer) Sound (do
            sendProtected E contentHandshake (keyUpdateMessage false)
            updateClientKeys : ClientM P W Unit) :=
        maintains_bind (firm_sendProtected E hF hJ _ _) fun _ => firm_updateClientKeys hF hJ
      exact hreply _ ⟨hend, hd⟩
    · rw [wp_pure]
      exact ⟨hend, hd⟩

/-- The messages of a record after the handshake leave a clean state. -/
theorem wp_drainPostHandshake (fuel : ℕ) {s : System P W}
    (hs : PostDraining buffered content s) :
    wp (drainPostHandshake E fuel : ClientM P W Unit) (ends Clean Sound) s := by
  induction fuel generalizing s with
  | zero => exact wp_diverge _ s
  | succ fuel ih =>
    unfold drainPostHandshake
    rw [wp_bind, wp_getClient, thenWp_ok]
    split
    · rw [wp_pure]
      exact hs.clean
    · rw [wp_throw]
      exact hs.clean.sound
    · next msg hpeek =>
      obtain ⟨n, hparse⟩ := peek_ok hpeek
      -- taking the message out and going on
      have hgo : ∀ s₁ : System P W, s₁.client.deframer = s.client.deframer →
          (∀ d : HandshakeDeframer, d.buffer = s₁.client.deframer.buffer.drop n →
            PostDraining buffered content
              { s₁ with client := { s₁.client with deframer := d } }) →
          wp (do
            consumeMessage
            emit (.postHandshake msg)
            drainPostHandshake E fuel : ClientM P W Unit) (ends Clean Sound) s₁ := by
        intro s₁ hd₁ hnext r s₂ hrun
        rw [← hd₁] at hparse
        obtain ⟨d, -, hd, hconsume⟩ := consumeMessage_run hparse
        rw [bind_of_ok hconsume, bind_of_ok rfl] at hrun
        exact ih (postDraining_passive (passive_emit _ rfl) (hnext d hd)) r s₂ hrun
      have hshort : ∀ (s₁ : System P W) (d : HandshakeDeframer),
          d.buffer = s₁.client.deframer.buffer.drop n →
          d.buffer <:+ s₁.client.deframer.buffer := by
        intro s₁ d hd
        rw [hd]
        exact List.drop_suffix _ _
      unfold handlePostHandshake
      split
      · next hticket =>
        rw [wp_bind, wp_pure, thenWp_ok]
        apply hgo s rfl
        intro d hd
        refine ⟨clean_shorten s d (hshort s d hd) hs.clean, hs.fragment, ?_⟩
        rcases hs.left with hleft | hempty
        · left
          dsimp only
          rw [hd]
          exact hleft.step hparse hticket
        · right
          intro hends
          refine ⟨(hempty hends).1, ?_⟩
          dsimp only
          rw [hd, (hempty hends).2, List.drop_nil]
      · split
        · next hupdate =>
          refine wp_bind_of_spec (wp_handleKeyUpdate E hs hupdate hparse) ?_ fun e s' hs' => hs'
          rintro _ s₁ ⟨hend, hd₁⟩
          apply hgo s₁ hd₁
          intro d hd
          have hempty : Empty { s₁ with client := { s₁.client with deframer := d } } :=
            fun hends => ⟨(hend.ended hends).1, hd.trans (hend.ended hends).2⟩
          exact ⟨hempty.clean, hend.fragment, Or.inr hempty⟩
        · rw [wp_bind, wp_throw]
          exact hs.clean.sound

end PostDraining

/-- A record after the handshake. -/
theorem clean_processPostHandshake (content : Bytes) :
    Maintains Clean Sound (processPostHandshake E content : ClientM P W Unit) := by
  intro s hs
  unfold processPostHandshake appendFragment
  simp only [wp_bind, wp_getClient, thenWp_ok, wp_lift]
  cases happend : s.client.deframer.append content with
  | error e => exact hs.sound
  | ok d =>
    have hd : d.buffer = s.client.deframer.buffer ++ content := by
      unfold HandshakeDeframer.append at happend
      split at happend
      · cases happend
      · cases happend
        rfl
    simp only [thenWp_ok, wp_bind, wp_modifyClient, wp_emit, wp_getClient]
    have hdraining : PostDraining s.client.deframer.buffer content
        { s with
          client := { s.client with deframer := d }
          trace := s.trace ++ [.fragment .application s.client.deframer.buffer content] } := by
      refine ⟨clean_append hd hs, by simp, Or.inl ?_⟩
      dsimp only
      rw [hd]
      exact .refl
    exact wp_drainPostHandshake E _ hdraining

/-! ## Calls -/

/-- `connect` leads from call to call. -/
theorem keeps_between_connect (fuel : ℕ) (config : ClientConfig) :
    Keeps Between (connect E fuel config : ClientM P W Unit) := by
  intro s hs
  unfold connect
  rw [wp_bind, wp_getClient, thenWp_ok]
  split
  · rw [wp_throw]
    exact hs
  · simp only [wp_bind, wp_modifyClient, thenWp_ok, wp_emit]
    have hstart : Clean (⟨beginConnect config s.client, s.world, s.trace ++ [.connect config]⟩ :
        System P W) := by
      intro hends
      have hnone := hs.1 (keyChangesEndFragments_left hends)
      exact ⟨noneAcross_concat hnone trivial, List.nil_suffix⟩
    refine wp_mono (empty_connectHandshake E fuel config _ hstart) ?_
    intro r s' hr
    cases r with
    | error e => exact hr
    | ok u =>
      rw [thenWp_ok, wp_modifyClient]
      exact between_of_clean (Empty.clean hr)

/-- `recv` on a connected client. -/
theorem clean_recv (fuel : ℕ) (receivedNull outNull : Bool) (size : ℕ) :
    Maintains Clean Between (recv E fuel receivedNull outNull size : ClientM P W Bytes) := by
  have hF : ∀ s s' : System P W, Firm s s' → Clean s → Clean s' := fun _ _ => clean_firm
  have hW : ∀ s s' : System P W, Wiped s s' → Clean s → Between s' :=
    fun _ _ => between_of_clean_wiped
  have hJ : ∀ s : System P W, Clean s → Between s := fun _ => between_of_clean
  have hdata : ∀ (s : System P W) record content, Clean s →
      unprotectRecordAes128Gcm P s.client.serverAppKeys record 16640 =
        .ok ⟨contentApplicationData, content, s.client.serverAppKeys.advance⟩ →
      wp (recvData E content size) (ends Clean Between) (afterOpen s .serverApp record) := by
    intro s record content hs _
    have hs : Clean (afterOpen s .serverApp record) := clean_firm (firm_afterOpen s _ _) hs
    have hpassive : ∀ bytes : Bytes, ∀ ev ∈ [Event.appData content size, .delivered bytes],
        passiveEvent ev = true := by
      simp [passiveEvent]
    apply wp_recvData_of
    · intro _
      refine clean_passive ?_ hs
      exact ⟨rfl, _, List.append_assoc _ _ _, hpassive _⟩
    · intro _ level description w
      refine clean_passive ?_ hs
      exact ⟨rfl, _, List.append_assoc _ _ _, hpassive _⟩
  have halert : ∀ content, Leads Clean Clean Between
      (recvAlert E content : ClientM P W Bytes) := by
    intro content
    unfold recvAlert
    apply leads_bind (maintains_handleAlert (fun _ _ => clean_still) _)
    intro ae
    split
    · intro s hs r s' hrun
      rw [recvClosed_apply] at hrun
      cases hrun
      exact ⟨hs.sound, fun hconn => by cases hconn⟩
    · exact maintains_failWith E hW _
  unfold recv
  apply maintains_bind maintains_getClient
  intro c
  split
  · exact maintains_throw hJ _
  · split
    · exact maintains_throw hJ _
    · split
      · intro s hs
        apply wp_recvPending_of
        intro bytes _
        refine clean_passive (s := s) ?_ hs
        exact ⟨rfl, [_], rfl, by simp [passiveEvent]⟩
      · exact leads_recvRecords E hF hW size
          (fun s record => clean_passive (passive_emit s rfl)) hdata halert
          (fun content => maintains_orFail E (fun _ _ => between_of_wiped)
            (clean_processPostHandshake E content)) fuel

/-- Every call keeps the deframer of a connected client to bytes of the current keys. -/
theorem between_of_call {fuel : ℕ} {call : Call} {s s' : System P W} {r : Except Error Bytes}
    (hs : Between s) (hrun : call.run E fuel s = some (r, s')) : Between s' := by
  refine Keeps.run (keeps_call E (fun _ _ h => between_of_passive h.passive h.state) ?_
    (fun _ _ h hs => between_of_wiped h hs.1) fuel call
    (fun config _ => keeps_between_connect E fuel config)
    (fun null data _ => firm_send E (fun _ _ h => between_of_passive h.passive h.state)
      (fun _ h => h) (fun _ _ h hs => between_of_wiped h hs.1) null data
      fun s _ _ => between_of_passive (passive_emit s rfl) rfl) ?_) hs hrun
  · intro s s' hended hs
    refine ⟨?_, fun hconn => ?_⟩
    · unfold Sound
      rw [hended.trace]
      exact hs.1
    · rcases hended.state with h | h <;> rw [h] at hconn <;> cases hconn
  · intro receivedNull outNull size _ s hs r s' hrun
    by_cases hconn : s.client.state = .connected
    · have hend := clean_recv E fuel receivedNull outNull size s (hs.2 hconn) r s' hrun
      cases r with
      | ok bytes => exact between_of_clean hend
      | error e => exact hend
    · have hsilent : s' = s := by
        suffices hwp : wp (recv E fuel receivedNull outNull size) (fun _ s' => s' = s) s from
          hwp r s' hrun
        unfold recv
        simp only [wp_bind, wp_getClient, thenWp_ok]
        rw [if_pos (show s.client.state ≠ .connected from hconn)]
        split <;> rw [wp_throw]
      rw [hsilent]
      cases r <;> exact hs

/-- **No bytes cross a change of keys**, in every run in which the server ends its fragments
with the messages that change its keys. -/
theorem noneAcross_of_run {w : W} {log : List (Call × Except Error Bytes)} {s : System P W}
    (hrun : Run E (System.fresh P w) log s) (hends : KeyChangesEndFragments s.trace) :
    NoneAcross s.trace := by
  have hfresh : Between (System.fresh P w) := by
    have hnone : NoneAcross ([] : List Event) :=
      ⟨by simp, fun a _ _ _ b h => by cases a <;> cases h⟩
    exact ⟨fun _ => hnone, fun hconn => by cases hconn⟩
  have hbetween : Between s := by
    apply hrun.invariant (I := Between) _ hfresh
    rintro call s r s' hs ⟨fuel, hret⟩
    exact between_of_call E hs hret
  exact hbetween.1 hends

/-! ## The scripted server -/

/-- In a Finished with nothing behind it, only it stands, and nothing behind it. -/
theorem standsIn_finished {verifyData : FixedBytes 32} {skip : HandshakeMessage → Prop}
    {msg : HandshakeMessage} {rest : Bytes}
    (h : StandsIn skip (finishedMessage verifyData).encoded msg rest) :
    msg = finishedMessage verifyData ∧ rest = [] := by
  have hlen : (finishedMessage verifyData).encoded.length = 36 := by
    simp only [finishedMessage, List.length_append, verifyData.property, List.length_cons,
      List.length_nil]
  have hparse := parseHandshakeMessage_finished verifyData []
  rw [List.append_nil] at hparse
  have hend : (finishedMessage verifyData).encoded.drop 36 = [] := by
    rw [← hlen, List.drop_length]
  have hnone : ∀ m n, parseHandshakeMessage [] ≠ .ok (m, n) := by
    intro m n hm
    cases hm
  have hskips : ∀ b', Skips skip (finishedMessage verifyData).encoded b' →
      b' = (finishedMessage verifyData).encoded ∨ b' = [] := by
    intro b' hb
    induction hb with
    | refl => exact Or.inl rfl
    | step _ hm _ ih =>
      rcases ih with rfl | rfl
      · rw [hparse] at hm
        cases hm
        exact Or.inr hend
      · exact absurd hm (hnone _ _)
  obtain ⟨b', n, hb, hm, rfl⟩ := h
  rcases hskips b' hb with rfl | rfl
  · rw [hparse] at hm
    cases hm
    exact ⟨rfl, hend⟩
  · exact absurd hm (hnone _ _)

/-- The fragments of the scripted server: one, with its Finished. -/
theorem fragment_bare {padding : ℕ} {keys : TrafficKeys} {th : FixedBytes 32}
    {fin : HandshakeMessage} {extra rest : Bytes} {s : System P Bytes}
    (h : BareConnection padding keys th fin extra rest s) {stage : Stage}
    {buffered content : Bytes} (hstage : stage ≠ .plaintext)
    (hmem : .fragment stage buffered content ∈ s.trace) :
    stage = .handshake ∧ buffered = [] ∧ content = fin.encoded ++ extra := by
  obtain ⟨ch, shared, clientHs, record, th', clientFin, -, -, hmilestones⟩ := h.milestones
  have hmile : .fragment stage buffered content ∈ milestones s.trace := by
    apply List.mem_filter.mpr ⟨hmem, _⟩
    cases stage with
    | plaintext => exact absurd rfl hstage
    | _ => rfl
  rw [hmilestones] at hmile
  simpa using hmile

/-- The scripted server ends the fragment with its Finished when it puts nothing behind it. -/
theorem keyChangesEndFragments_bare {padding : ℕ} {keys : TrafficKeys} {th : FixedBytes 32}
    {fin : HandshakeMessage} {rest : Bytes} {s : System P Bytes}
    (h : BareConnection padding keys th fin [] rest s) : KeyChangesEndFragments s.trace := by
  obtain ⟨verifyData, hfin⟩ := h.finished
  constructor
  · intro a buffered content b fin' c rest' htrace _ _ hstands
    have hmem : .fragment .handshake buffered content ∈ s.trace := by
      rw [htrace]
      simp
    obtain ⟨-, rfl, rfl⟩ := fragment_bare h (by simp) hmem
    rw [List.nil_append, List.append_nil, hfin] at hstands
    exact (standsIn_finished hstands).2
  · intro buffered content msg rest' hmem
    obtain ⟨hstage, -⟩ := fragment_bare h (by simp) hmem
    cases hstage

/-- A connection in which no bytes cross a change of keys. -/
theorem noneAcross_scripted : ∃ (w : Bytes) (s : System plainCrypto Bytes),
    Run scriptEnv (System.fresh plainCrypto w) [(.connect (scriptConfig 0), .ok [])] s ∧
    s.client.state = .connected ∧ KeyChangesEndFragments s.trace ∧ NoneAcross s.trace := by
  obtain ⟨script, keys, th, fin, -, hscript⟩ :=
    scripted_reachable keyAgreementWorks_plainCrypto 0 [] (by decide)
  obtain ⟨s, -, hrun, hbare⟩ := hscript []
  have hends := keyChangesEndFragments_bare hbare
  exact ⟨_, s, hrun, hbare.state, hends, noneAcross_of_run scriptEnv hrun hends⟩

/-- **A byte behind the Finished crosses the change of keys**, whatever the crypto: it came
under the handshake keys and waits in the deframer of the connected client. -/
theorem byte_crosses :
    KeyAgreementWorks plainCrypto ∧ ∀ P : Crypto, KeyAgreementWorks P →
      ∃ (w : Bytes) (s : System P Bytes),
        Run scriptEnv (System.fresh P w) [(.connect (scriptConfig 0), .ok [])] s ∧
        s.client.state = .connected ∧ s.client.deframer.buffer = [1] ∧
        .readKeysChanged .application [1] ∈ s.trace ∧ ¬ NoneAcross s.trace := by
  refine ⟨keyAgreementWorks_plainCrypto, ?_⟩
  intro P hP
  obtain ⟨script, keys, th, fin, -, hscript⟩ := scripted_reachable hP 0 [1] (by decide)
  obtain ⟨s, -, hrun, hbare⟩ := hscript []
  obtain ⟨ch, shared, clientHs, record, th', clientFin, -, -, hmilestones⟩ := hbare.milestones
  have hmem : .readKeysChanged .application [1] ∈ s.trace := by
    apply List.mem_of_mem_filter (p := milestone)
    show _ ∈ milestones s.trace
    rw [hmilestones]
    simp
  refine ⟨_, s, hrun, hbare.state, hbare.deframer, hmem, ?_⟩
  intro hnone
  have hempty := hnone.atChange _ _ hmem
  cases hempty

end XboxTls.Analysis
