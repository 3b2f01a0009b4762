import XboxTls.Analysis.AlpnSelection
import XboxTls.Interface.ChangeCipherSpec

/-!
# Which change_cipher_spec records the client ignores

The hello loop looks at the payload of a change_cipher_spec; the loop of the encrypted flight
and that of `recv` do not.  A call ignores no more than it may if nothing arrives where nobody
looks.
-/

set_option autoImplicit false

namespace XboxTls.Analysis

open Programs Programs.Prog XboxTls.Model XboxTls.Interface

variable {P : Crypto} {W : Type} (E : Env W)

/-! ## Whole records -/

/-- A record of the length that its header gives. -/
def WholeRecord (record : Bytes) : Prop :=
  ∀ rh, parseRecordHeader record = .ok rh → record.length = 5 + rh.length

section Reading

variable {I J : System P W → Prop}
variable (hT : ∀ s s', Still s s' → I s → I s') (hJ : ∀ s, I s → J s)

include hT hJ in
/-- The loop ends with as many bytes as it was to read. -/
theorem yields_recvLoop (stream fuel total : ℕ) (have_ : Bytes) (hle : have_.length ≤ total)
    (hfuel : total ≤ have_.length + fuel) :
    Yields I (fun bytes s => (have_ <+: bytes ∧ bytes.length = total) ∧ I s) J
      (recvLoop E stream fuel total have_ : ClientM P W Bytes) := by
  induction fuel generalizing have_ with
  | zero =>
    intro s hs
    unfold recvLoop
    rw [wp_pure]
    exact ⟨⟨List.prefix_refl _, by omega⟩, hs⟩
  | succ fuel ih =>
    unfold recvLoop
    split
    · apply yields_bind (maintains_callWorld hT hJ _)
      rintro ⟨bytes, hbytes⟩
      dsimp only
      split
      · exact yields_throw hJ _
      · intro s hs
        have hlen : (have_ ++ bytes).length = have_.length + bytes.length := List.length_append
        refine wp_mono (ih (have_ ++ bytes) (by omega) (by omega) s hs) ?_
        intro r s' hr
        cases r with
        | error e => exact hr
        | ok all =>
          obtain ⟨⟨hmiddle, htotal⟩, hs'⟩ := hr
          exact ⟨⟨(List.prefix_append _ _).trans hmiddle, htotal⟩, hs'⟩
    · intro s hs
      rw [wp_pure]
      exact ⟨⟨List.prefix_refl _, by omega⟩, hs⟩

include hT hJ in
/-- `read_record` returns whole records. -/
theorem yields_readRecord (capacity : ℕ) :
    Yields I (fun record s => WholeRecord record ∧ I s) J
      (readRecord E capacity : ClientM P W Bytes) := by
  unfold readRecord
  apply yields_bind maintains_getClient
  intro c
  split
  · exact yields_throw hJ _
  · next stream _ =>
    split
    · exact yields_throw hJ _
    · intro s hs
      refine wp_bind_of_spec (yields_recvLoop E hT hJ stream 5 5 [] (by simp) (by simp) s hs) ?_
        fun e s' hs' => hs'
      rintro header s₁ ⟨⟨-, hheader⟩, hs₁⟩
      rw [wp_bind, wp_lift]
      cases hparse : parseRecordHeader header with
      | error e => exact hJ s₁ hs₁
      | ok rh =>
        rw [thenWp_ok]
        split
        · rw [wp_throw]
          exact hJ s₁ hs₁
        · refine wp_mono (yields_recvLoop E hT hJ stream rh.length (5 + rh.length) header
            (by omega) (by omega) s₁ hs₁) ?_
          intro r s₂ hr
          cases r with
          | error e => exact hr
          | ok record =>
            obtain ⟨⟨⟨rest, rfl⟩, hlength⟩, hs₂⟩ := hr
            refine ⟨?_, hs₂⟩
            intro rh' hparse'
            rw [parseRecordHeader_append hheader, hparse] at hparse'
            cases hparse'
            exact hlength

end Reading

/-- The check of the hello loop, on a whole record. -/
theorem payload_of_check {record : Bytes} {rh : RecordHeader} (hwhole : WholeRecord record)
    (hparse : parseRecordHeader record = .ok rh)
    (hcheck : ¬ (rh.length ≠ 1 ∨ byteAt record 5 ≠ 1)) :
    record.drop 5 = [1] := by
  have hlength := hwhole rh hparse
  push Not at hcheck
  rw [hcheck.1] at hlength
  obtain ⟨x, hx⟩ := List.length_eq_one_iff.mp
    (show (record.drop 5).length = 1 by rw [List.length_drop]; omega)
  have hbyte : byteAt record 5 = x := by
    unfold byteAt
    rw [List.getD_eq_getElem?_getD, ← List.getElem?_drop (i := 5) (j := 0), hx]
    rfl
  rw [hx, ← hbyte, hcheck.2]

/-! ## What was ignored -/

/-- Nothing arrived where no loop looks at it. -/
def Checked (evs : List Event) : Prop := ∀ ev ∈ evs, ¬ Unchecked ev

/-- Every change_cipher_spec was the single byte 1 and came before the server's Finished. -/
def OnlyIgnorable (evs : List Event) : Prop :=
  ∀ before stage record after, evs = before ++ .changeCipherSpec stage record :: after →
    Unfinished before ∧ record.drop 5 = [1]

/-- The events of neither change_cipher_spec nor Finished. -/
def plainEvent : Event → Bool
  | .changeCipherSpec _ _ | .finishedVerified _ => false
  | _ => true

/-- A firm event is no change_cipher_spec. -/
theorem plainEvent_of_firmEvent {ev : Event} (h : firmEvent ev = true) : plainEvent ev = true := by
  cases ev <;> first | rfl | cases h

/-- An event between two changes of the read keys is no change_cipher_spec. -/
theorem plainEvent_of_betweenEvent {ev : Event} (h : betweenEvent ev = true) :
    plainEvent ev = true := by
  cases ev <;> first | rfl | cases h

/-- The first part of a checked trace is checked. -/
theorem Checked.left {evs evs' : List Event} (h : Checked (evs ++ evs')) : Checked evs :=
  fun ev hev => h ev (List.mem_append_left _ hev)

/-- No events were ignored. -/
theorem onlyIgnorable_nil : OnlyIgnorable [] := by
  intro before stage record after h
  cases before <;> cases h

/-- Other events add nothing that was ignored. -/
theorem onlyIgnorable_append {evs evs' : List Event} (h : OnlyIgnorable evs)
    (hplain : ∀ ev ∈ evs', plainEvent ev = true) : OnlyIgnorable (evs ++ evs') := by
  intro before stage record after hsplit
  rcases split_append hsplit with ⟨rest, hold, -⟩ | ⟨rest, -, hnew⟩
  · exact h before stage record rest hold
  · have hno := hplain (.changeCipherSpec stage record) (by rw [hnew]; simp)
    cases hno

/-- A record of the byte 1 before the Finished may be ignored. -/
theorem onlyIgnorable_concat {evs : List Event} {stage : Stage} {record : Bytes}
    (h : OnlyIgnorable evs) (hunfinished : Unfinished evs) (hpayload : record.drop 5 = [1]) :
    OnlyIgnorable (evs ++ [.changeCipherSpec stage record]) := by
  intro before stage' record' after hsplit
  rcases split_concat hsplit with ⟨rest, hold⟩ | ⟨rfl, hnew, -⟩
  · exact h before stage' record' rest hold
  · cases hnew
    exact ⟨hunfinished, hpayload⟩

/-- Events that are no Finished leave the handshake unfinished. -/
theorem unfinished_append {evs evs' : List Event} (h : Unfinished evs)
    (hevs' : ∀ ev ∈ evs', ∀ th, ev ≠ .finishedVerified th) : Unfinished (evs ++ evs') := by
  intro th hmem
  rcases List.mem_append.mp hmem with hold | hnew
  · exact h th hold
  · exact hevs' _ hnew th rfl

/-! ## The methods of `connect` -/

/-- Since `base` only what may be ignored was ignored; the server's Finished has come only if
`finished` says so. -/
def Sifted (base : List Event) (finished : Bool) (s : System P W) : Prop :=
  ∃ evs, s.trace = base ++ evs ∧ (Checked evs → OnlyIgnorable evs) ∧
    (finished = false → Unfinished evs)

/-- What `IgnoresOnly` asks of a `connect` that failed. -/
def Refused (base : List Event) (s : System P W) : Prop :=
  ∃ evs, s.trace = base ++ evs ∧ (Checked evs →
    ∀ before stage record after, evs = before ++ .changeCipherSpec stage record :: after →
      (Unfinished before ∧ record.drop 5 = [1]) ∨ (after = [] ∧ s.client.state = .failed))

variable {base : List Event} {finished : Bool}

/-- Other events leave what was ignored. -/
theorem sifted_append {s s' : System P W} (evs : List Event) (htrace : s'.trace = s.trace ++ evs)
    (hplain : ∀ ev ∈ evs, plainEvent ev = true) (hs : Sifted base finished s) :
    Sifted base finished s' := by
  obtain ⟨evs₀, htrace₀, honly, hunfinished⟩ := hs
  refine ⟨evs₀ ++ evs, ?_, ?_, ?_⟩
  · rw [htrace, htrace₀, List.append_assoc]
  · intro hchecked
    exact onlyIgnorable_append (honly hchecked.left) hplain
  · intro hnot
    apply unfinished_append (hunfinished hnot)
    rintro ev hev th rfl
    cases hplain _ hev

/-- What was ignored depends on the trace only. -/
theorem sifted_same {s s' : System P W} (htrace : s'.trace = s.trace)
    (hs : Sifted base finished s) : Sifted base finished s' :=
  sifted_append [] (by rw [htrace, List.append_nil]) (by simp) hs

/-- Another event leaves what was ignored. -/
theorem sifted_event {s : System P W} {ev : Event} (h : plainEvent ev = true)
    (hs : Sifted base finished s) :
    Sifted base finished { s with trace := s.trace ++ [ev] } :=
  sifted_append (s := s) [ev] rfl (by simpa using h) hs

/-- A firm change leaves what was ignored. -/
theorem sifted_firm {s s' : System P W} (h : Firm s s') (hs : Sifted base finished s) :
    Sifted base finished s' := by
  obtain ⟨evs, htrace, hevs⟩ := h.trace
  exact sifted_append _ htrace (fun ev hev => plainEvent_of_firmEvent (hevs ev hev)) hs

/-- Whether the Finished was seen may be forgotten. -/
theorem sifted_weaken {s : System P W} (hs : Sifted base false s) : Sifted base finished s := by
  obtain ⟨evs, htrace, honly, hunfinished⟩ := hs
  exact ⟨evs, htrace, honly, fun _ => hunfinished rfl⟩

/-- The Finished may have been seen. -/
theorem sifted_seen {s : System P W} (hs : Sifted base finished s) : Sifted base true s := by
  obtain ⟨evs, htrace, honly, -⟩ := hs
  exact ⟨evs, htrace, honly, fun h => by cases h⟩

/-- Behind the Finished it has been seen. -/
theorem sifted_finished {s : System P W} {th : FixedBytes 32} (hs : Sifted base finished s) :
    Sifted base true { s with trace := s.trace ++ [.finishedVerified th] } := by
  obtain ⟨evs, htrace, honly, -⟩ := hs
  refine ⟨evs ++ [.finishedVerified th], ?_, ?_, fun h => by cases h⟩
  · show s.trace ++ _ = _
    rw [htrace, List.append_assoc]
  · intro hchecked before stage record after hsplit
    rcases split_concat hsplit with ⟨rest, hold⟩ | ⟨-, hnew, -⟩
    · exact honly hchecked.left before stage record rest hold
    · cases hnew

/-- A record that is looked at and holds the byte 1, or that nobody may look at. -/
theorem sifted_spec {s : System P W} {stage : Stage} {record : Bytes}
    (hpayload : ¬ Unchecked (.changeCipherSpec stage record) → record.drop 5 = [1])
    (hs : Sifted base false s) :
    Sifted base false { s with trace := s.trace ++ [.changeCipherSpec stage record] } := by
  obtain ⟨evs, htrace, honly, hunfinished⟩ := hs
  refine ⟨evs ++ [.changeCipherSpec stage record], ?_, ?_, ?_⟩
  · show s.trace ++ _ = _
    rw [htrace, List.append_assoc]
  · intro hchecked
    refine onlyIgnorable_concat (honly hchecked.left) (hunfinished rfl) (hpayload ?_)
    exact hchecked _ (List.mem_append_right _ (List.mem_singleton_self _))
  · intro _
    apply unfinished_append (hunfinished rfl)
    intro ev hev th hth
    rw [List.mem_singleton.mp hev] at hth
    cases hth

/-- An error leaves what was ignored. -/
theorem refused_of_sifted {s s' : System P W} (htrace : s'.trace = s.trace)
    (hs : Sifted base finished s) : Refused base s' := by
  obtain ⟨evs, htrace₀, honly, -⟩ := hs
  refine ⟨evs, htrace.trans htrace₀, ?_⟩
  intro hchecked before stage record after hsplit
  exact Or.inl (honly hchecked before stage record after hsplit)

/-- Wiping the secrets leaves what was ignored. -/
theorem refused_wiped (s s' : System P W) (h : Wiped s s') (hs : Sifted base finished s) :
    Refused base s' :=
  refused_of_sifted h.trace hs

/-- The steps of a handshake leave what was ignored. -/
theorem sifted_between : BetweenClosed (Sifted base finished : System P W → Prop) where
  firm _ _ := sifted_firm
  deframer _ _ _ := sifted_same rfl
  event _ _ h := sifted_event (plainEvent_of_betweenEvent h)

/-- The hello loop leaves what was ignored. -/
theorem sifted_hello : HelloClosed (Sifted base finished : System P W → Prop) where
  still _ _ h := sifted_firm h.firm
  shorten _ _ _ := sifted_same rfl
  clientHello _ _ _ := sifted_event rfl
  retry _ _ _ := sifted_event rfl
  serverHello _ _ _ := sifted_event rfl

/-- The hello loop fails on a change_cipher_spec that is not the byte 1. -/
theorem sifted_readHelloRecord :
    Maintains (Sifted base false) (Refused base) (readHelloRecord E : ClientM P W Unit) := by
  have hT : ∀ s s' : System P W, Still s s' → Sifted base false s → Sifted base false s' :=
    fun _ _ h => sifted_firm h.firm
  have hfail : ∀ (e : Error) (s : System P W), Sifted base false s →
      wp (failWith E e : ClientM P W Unit) (ends (Sifted base false) (Refused base)) s :=
    fun e s hs => wp_failWith E refused_wiped e hs
  intro s hs
  unfold readHelloRecord
  rw [wp_bind, orFail, wp_onError]
  refine wp_mono (yields_readRecord E hT (fun _ h => h) 16645 s hs) ?_
  intro r s₁ hr
  cases r with
  | error e =>
    rw [handledWp_error, wp_failWith_iff]
    exact refused_wiped _ _ (wiped_afterEnd E _) hr
  | ok record =>
    obtain ⟨hwhole, hs₁⟩ := hr
    rw [handledWp_ok, thenWp_ok, wp_bind, orFail, wp_onError, wp_lift]
    cases hparse : parseRecordHeader record with
    | error e =>
      rw [handledWp_error, wp_failWith_iff]
      exact refused_wiped _ _ (wiped_afterEnd E _) hs₁
    | ok rh =>
      rw [handledWp_ok, thenWp_ok]
      split
      · rw [wp_bind, wp_emit, thenWp_ok]
        split
        · rw [wp_failWith_iff]
          obtain ⟨evs, htrace, honly, -⟩ := hs₁
          refine ⟨evs ++ [.changeCipherSpec .plaintext record], ?_, ?_⟩
          · show s₁.trace ++ _ = _
            rw [htrace, List.append_assoc]
          · intro hchecked before stage record' after hsplit
            rcases split_concat hsplit with ⟨rest, hold⟩ | ⟨-, -, hlast⟩
            · exact Or.inl (honly hchecked.left before stage record' rest hold)
            · exact Or.inr ⟨hlast, rfl⟩
        · next hcheck =>
          rw [wp_pure]
          exact sifted_spec (fun _ => payload_of_check hwhole hparse hcheck) hs₁
      · split
        · refine wp_bind_of_spec (maintains_handleAlert (J := Refused base) hT _ s₁ hs₁) ?_
            fun e s' hs' => hs'
          intro ae s₂ hs₂
          exact hfail ae s₂ hs₂
        · split
          · exact hfail _ s₁ hs₁
          · exact maintains_orFail E refused_wiped
              (between_appendFragment sifted_between (fun _ h => h) _ _) s₁ hs₁

/-- A message of the flight is the Finished, or leaves it to come. -/
theorem sifted_message (msg : HandshakeMessage) (l : FlightLocals) :
    Yields (Sifted base false) (fun l' => Sifted base l'.gotFinished) (Sifted base true)
      (handleHandshakeMessage E msg l : ClientM P W FlightLocals) := by
  have hT : ∀ s s' : System P W, Still s s' → Sifted base false s → Sifted base false s' :=
    fun _ _ h => sifted_firm h.firm
  have hJ : ∀ s : System P W, Sifted base false s → Sifted base true s := fun _ => sifted_weaken
  by_cases htype : msg.type = hsFinished
  · have hbranch : handleHandshakeMessage E msg l =
        (handleFinished msg l : ClientM P W FlightLocals) := by
      unfold handleHandshakeMessage
      rw [htype]
      rfl
    rw [hbranch]
    unfold handleFinished
    apply yields_bind maintains_getClient
    intro c
    apply yields_bind (maintains_lift hJ _)
    intro _ s hs
    simp only [hashMessage, wp_bind, wp_emit, thenWp_ok, wp_modifyClient, wp_pure]
    exact sifted_event (s := { s with
      client := { s.client with transcript := transcriptUpdate P s.client.transcript msg.encoded }
      trace := s.trace ++ [.finishedVerified _] }) rfl (sifted_same rfl (sifted_finished hs))
  · have hmessage : Leads (Sifted base false) (Sifted base false) (Sifted base true)
        (handleHandshakeMessage E msg l : ClientM P W FlightLocals) :=
      leads_message E hJ msg l hT (fun h => absurd h htype)
        (fun _ => leads_encryptedExtensions hJ msg l hT (fun _ _ => sifted_same rfl)
          fun _ => sifted_event rfl)
        fun _ _ => sifted_event rfl
    intro s hs
    refine wp_mono (hmessage s hs) ?_
    intro r s' hr
    cases r with
    | ok l' => exact sifted_weaken hr
    | error e => exact hr

/-- The loop over the messages of a record may see the Finished. -/
theorem sifted_drainFlight (fuel : ℕ) (l : FlightLocals) (hl : l.gotFinished = false) :
    Yields (Sifted base false) (fun l' => Sifted base l'.gotFinished) (Sifted base true)
      (drainFlight E fuel l : ClientM P W FlightLocals) := by
  have hJ : ∀ s : System P W, Sifted base false s → Sifted base true s := fun _ => sifted_weaken
  induction fuel generalizing l with
  | zero =>
    intro s _
    exact wp_diverge _ s
  | succ fuel ih =>
    unfold drainFlight
    apply yields_bind maintains_getClient
    intro c
    split
    · intro s hs
      rw [wp_pure]
      exact sifted_weaken hs
    · exact yields_throw hJ _
    · intro s hs
      refine wp_bind_of_spec (sifted_message E _ l s hs) ?_ fun e s' hs' => hs'
      intro l' s₁ hs₁
      have hconsume : Maintains (Sifted base l'.gotFinished) (Sifted base true)
          (consumeMessage : ClientM P W Unit) := by
        exact maintains_consumeMessage (fun s d _ hs => sifted_same (s := s) rfl hs)
          fun _ => sifted_seen
      refine wp_bind_of_spec (hconsume s₁ hs₁) ?_ fun e s' hs' => hs'
      intro _ s₂ hs₂
      by_cases hfinished : l'.gotFinished = true
      · rw [if_pos hfinished, wp_pure]
        exact hs₂
      · rw [Bool.not_eq_true] at hfinished
        rw [hfinished] at hs₂
        rw [if_neg (by rw [hfinished]; decide)]
        exact ih l' hfinished s₂ hs₂

/-- The flight loop ends with the Finished. -/
theorem sifted_flightLoop (fuel : ℕ) (l : FlightLocals) :
    Yields (Sifted base l.gotFinished) (fun _ => Sifted base true) (Sifted base true)
      (flightLoop E fuel l : ClientM P W Unit) := by
  induction fuel generalizing l with
  | zero =>
    intro s _
    exact wp_diverge _ s
  | succ fuel ih =>
    intro s hs
    unfold flightLoop
    by_cases hfinished : l.gotFinished = true
    · rw [if_pos hfinished, wp_pure]
      rw [hfinished] at hs
      exact hs
    · rw [if_neg hfinished]
      rw [Bool.not_eq_true] at hfinished
      rw [hfinished] at hs
      have hround := yields_flightRound (R := fun l' => Sifted base l'.gotFinished) (l := l) E
        sifted_between (fun (s : System P W) (h : Sifted base false s) =>
          (sifted_weaken h : Sifted base true s))
        (fun s record hs => sifted_weaken (sifted_spec (fun h => by simpa [Unchecked] using h) hs))
        (fun fuel => sifted_drainFlight E fuel l hfinished)
      refine wp_bind_of_spec (hround s hs) ?_ fun e s' hs' => hs'
      intro l' s₁ hs₁
      exact ih l' s₁ hs₁

/-- What `connect` ignores after it has started. -/
theorem sifted_connectHandshake (fuel : ℕ) (config : ClientConfig) :
    Yields (Sifted base false) (fun _ => Sifted base true) (Refused base)
      (connectHandshake E fuel config : ClientM P W Unit) := by
  have hserver : Yields (Sifted base false) (fun _ => Sifted base true) (Sifted base true)
      (processServerHandshake E fuel : ClientM P W Unit) := by
    intro s hs
    unfold processServerHandshake
    refine wp_bind_of_spec (sifted_flightLoop E fuel ⟨false, ⟨[], []⟩, false⟩ s hs) ?_
      fun e s' hs' => hs'
    intro _ s₁ hs₁
    refine wp_mono (between_finishHandshake E sifted_between (fun _ h => h) s₁ hs₁) ?_
    intro r s₂ hr
    cases r with
    | ok _ => exact hr
    | error _ => exact hr
  unfold connectHandshake
  apply yields_bind (maintains_startHello E refused_wiped sifted_hello config)
  intro h
  apply yields_bind (maintains_helloLoop E refused_wiped sifted_hello (sifted_readHelloRecord E)
    fuel h)
  rintro ⟨sh, h⟩
  apply yields_bind (between_deriveHandshakeKeys E sifted_between refused_wiped _ _)
  intro _ s hs
  rw [orFail, wp_onError]
  refine wp_mono (hserver s hs) ?_
  intro r s' hr
  cases r with
  | ok _ => exact hr
  | error e =>
    rw [handledWp_error, wp_failWith_iff]
    exact refused_wiped _ _ (wiped_afterEnd E _) hr

/-! ## The calls -/

/-- Since `base` no change_cipher_spec arrived where no loop looks at it, nor any other. -/
def SpecFree (base : List Event) (s : System P W) : Prop :=
  ∃ evs, s.trace = base ++ evs ∧ (Checked evs →
    ∀ stage record, Event.changeCipherSpec stage record ∉ evs)

/-- Checked records keep the trace free of others. -/
theorem specFree_append {s s' : System P W} (evs : List Event)
    (htrace : s'.trace = s.trace ++ evs)
    (hplain : ∀ stage record, Event.changeCipherSpec stage record ∈ evs →
      Unchecked (.changeCipherSpec stage record)) (hs : SpecFree base s) : SpecFree base s' := by
  obtain ⟨evs₀, htrace₀, hfree⟩ := hs
  refine ⟨evs₀ ++ evs, ?_, ?_⟩
  · rw [htrace, htrace₀, List.append_assoc]
  · intro hchecked stage record hmem
    rcases List.mem_append.mp hmem with hold | hnew
    · exact hfree hchecked.left stage record hold
    · exact hchecked _ hmem (hplain stage record hnew)

/-- Whether the trace is free depends on the trace only. -/
theorem specFree_same {s s' : System P W} (htrace : s'.trace = s.trace) (hs : SpecFree base s) :
    SpecFree base s' :=
  specFree_append [] (by rw [htrace, List.append_nil]) (by simp) hs

/-- Another event keeps the trace free. -/
theorem specFree_event {s : System P W} {e : Event} (h : plainEvent e = true)
    (hs : SpecFree base s) : SpecFree base { s with trace := s.trace ++ [e] } := by
  refine specFree_append (s := s) [e] rfl ?_ hs
  intro stage record hmem
  rw [← List.mem_singleton.mp hmem] at h
  cases h

/-- A firm change keeps the trace free. -/
theorem specFree_firm {s s' : System P W} (h : Firm s s') (hs : SpecFree base s) :
    SpecFree base s' := by
  obtain ⟨evs, htrace, hevs⟩ := h.trace
  refine specFree_append _ htrace ?_ hs
  intro stage record hmem
  cases hevs _ hmem

/-- The steps after the handshake keep the trace free. -/
theorem specFree_between : BetweenClosed (SpecFree base : System P W → Prop) where
  firm _ _ := specFree_firm
  deframer _ _ _ := specFree_same rfl
  event _ _ h := specFree_event (plainEvent_of_betweenEvent h)

/-- `recv` looks at no change_cipher_spec, and adds none otherwise. -/
theorem keeps_specFree_recv (fuel : ℕ) (receivedNull outNull : Bool) (size : ℕ) :
    Keeps (SpecFree base) (recv E fuel receivedNull outNull size : ClientM P W Bytes) := by
  have hF : ∀ s s' : System P W, Firm s s' → SpecFree base s → SpecFree base s' :=
    fun _ _ => specFree_firm
  have hW : ∀ s s' : System P W, Wiped s s' → SpecFree base s → SpecFree base s' :=
    fun _ _ h => specFree_same h.trace
  have hJ : ∀ s : System P W, SpecFree base s → SpecFree base s := fun _ h => h
  have hdata : ∀ (s : System P W) record content, SpecFree base s →
      unprotectRecordAes128Gcm P s.client.serverAppKeys record 16640 =
        .ok ⟨contentApplicationData, content, s.client.serverAppKeys.advance⟩ →
      wp (recvData E content size) (ends (SpecFree base) (SpecFree base))
        (afterOpen s .serverApp record) := by
    intro s record content hs _
    have hopened := specFree_firm (firm_afterOpen s .serverApp record) hs
    apply wp_recvData_of
    · intro _
      exact specFree_append _ (List.append_assoc _ _ _) (by simp) hopened
    · intro _ level description w
      exact specFree_append _ (List.append_assoc _ _ _) (by simp) hopened
  have halert : ∀ content, Keeps (SpecFree base) (recvAlert E content : ClientM P W Bytes) := by
    intro content
    unfold recvAlert
    apply maintains_bind (maintains_handleAlert (Firm.still_closed hF) _)
    intro ae
    split
    · intro s hs r s' hrun
      rw [recvClosed_apply] at hrun
      cases hrun
      exact specFree_same rfl hs
    · exact maintains_failWith E hW _
  unfold recv
  apply maintains_bind maintains_getClient
  intro c
  split
  · exact maintains_throw hJ _
  · split
    · exact maintains_throw hJ _
    · split
      · intro s hs
        apply wp_recvPending_of
        intro bytes _
        exact specFree_append (s := s) [_] rfl (by simp) hs
      · refine leads_recvRecords E hF hW size ?_ hdata halert
          (fun content => maintains_orFail E hW
            (between_processPostHandshake E specFree_between hJ content)) fuel
        intro s record hs
        refine specFree_append (s := s) [.changeCipherSpec .application record] rfl ?_ hs
        intro stage record' hmem
        cases List.mem_singleton.mp hmem
        trivial

/-- Where `connect` starts. -/
theorem sifted_connect (fuel : ℕ) (config : ClientConfig) (s : System P W) :
    wp (connect E fuel config : ClientM P W Unit)
      (thenEnds (fun _ => Sifted s.trace true) (Refused s.trace)) s := by
  have hstart : Sifted s.trace false s :=
    ⟨[], by rw [List.append_nil], fun _ => onlyIgnorable_nil, fun _ th h => by cases h⟩
  unfold connect
  rw [wp_bind, wp_getClient, thenWp_ok]
  split
  · rw [wp_throw]
    exact refused_of_sifted rfl hstart
  · rw [wp_bind, wp_modifyClient, thenWp_ok, wp_bind, wp_emit, thenWp_ok]
    refine wp_bind_of_spec (sifted_connectHandshake E fuel config _
      (sifted_event (s := { s with client := beginConnect config s.client }) rfl
        (sifted_same rfl hstart))) ?_ fun e s' hs' => hs'
    intro _ s₁ hs₁
    rw [wp_modifyClient]
    exact sifted_same (s := s₁) rfl hs₁

/-- One call ignores only what it may, if nothing arrives where no loop looks at it. -/
theorem ignoresOnly_of_returns {call : Call} {s s' : System P W} {r : Except Error Bytes}
    (hret : Returns E call s r s') : ∃ evs, s'.trace = s.trace ++ evs ∧
      (Checked evs → IgnoresOnly call evs r s'.client.state) := by
  obtain ⟨fuel, hrun⟩ := hret
  by_cases hconnect : ∃ config, call = .connect config
  · obtain ⟨config, rfl⟩ := hconnect
    have hcall : wp ((Call.connect config).run E fuel)
        (thenEnds (fun _ => Sifted s.trace true) (Refused s.trace)) s := by
      refine wp_bind_of_spec (sifted_connect E fuel config s) ?_ fun e s' hs' => hs'
      intro _ s₁ hs₁
      rw [wp_pure]
      exact hs₁
    cases r with
    | ok bytes =>
      obtain ⟨evs, htrace, honly, -⟩ := hcall _ _ hrun
      refine ⟨evs, htrace, ?_⟩
      intro hchecked before stage record after hsplit
      obtain ⟨hunfinished, hpayload⟩ := honly hchecked before stage record after hsplit
      exact Or.inl ⟨⟨config, rfl⟩, hunfinished, hpayload⟩
    | error e =>
      obtain ⟨evs, htrace, hrefused⟩ := hcall _ _ hrun
      refine ⟨evs, htrace, ?_⟩
      intro hchecked before stage record after hsplit
      rcases hrefused hchecked before stage record after hsplit with ⟨hunfinished, hpayload⟩ | h
      · exact Or.inl ⟨⟨config, rfl⟩, hunfinished, hpayload⟩
      · exact Or.inr ⟨h.1, ⟨e, rfl⟩, h.2⟩
  · have hfree : SpecFree s.trace s' := by
      have hstart : SpecFree s.trace s := ⟨[], by rw [List.append_nil], by simp⟩
      refine Keeps.run (keeps_call E (fun _ _ => specFree_firm) (fun _ _ h => specFree_same h.trace)
        (fun _ _ h => specFree_same h.trace) fuel call ?_
        (fun null data _ => firm_send E (fun _ _ => specFree_firm) (fun _ h => h)
          (fun _ _ h => specFree_same h.trace) null data fun _ _ _ => specFree_event rfl)
        (fun a b size _ => keeps_specFree_recv E fuel a b size)) hstart hrun
      intro config hcall
      exact absurd ⟨config, hcall⟩ hconnect
    obtain ⟨evs, htrace, hnone⟩ := hfree
    refine ⟨evs, htrace, ?_⟩
    intro hchecked before stage record after hsplit
    exact absurd (by rw [hsplit]; simp) (hnone hchecked stage record)

/-- The events of a step are what its trace has more. -/
theorem events_of_append {step : Step P W} {evs : List Event}
    (h : step.after.trace = step.before.trace ++ evs) : step.events = evs := by
  unfold Step.events
  rw [h, List.drop_left]

/-- **When only what may be ignored is ignored**: in every run in which no change_cipher_spec
with another payload arrives in an encrypted flight, and none at a client that is connected,
every step ignores only a single byte 1 before the server's Finished, and fails on every other
change_cipher_spec. -/
theorem ignoresOnly_of_steps {w : W} {steps : List (Step P W)} {s : System P W}
    (hrun : Steps E (System.fresh P w) steps s)
    (hchecked : ∀ step ∈ steps, ∀ ev ∈ step.events, ¬ Unchecked ev) :
    ∀ step ∈ steps, IgnoresOnly step.call step.events step.result step.after.client.state := by
  intro step hstep
  obtain ⟨evs, htrace, hignores⟩ := ignoresOnly_of_returns E (hrun.returns step hstep)
  have hevents := events_of_append htrace
  have hcond := hchecked step hstep
  rw [hevents] at hcond ⊢
  exact hignores hcond

/-! ## Two streams -/

/-- A server whose change_cipher_spec has this payload, before its ServerHello and before its
Finished. -/
def specScript (payload : Bytes) : Bytes :=
  plainRecord 20 [1] ++ plainRecord 22 scriptServerHello ++ plainRecord 20 payload ++
    blankRecord 22 blankFinished

/-- What a `connect` gives against it: whether it succeeds, the change_cipher_spec records that
arrived, and whether one arrived where no loop looks at it. -/
def specRun (payload : Bytes) : Option (Bool × List Event × Bool) :=
  ((Call.connect (scriptConfig 0)).run (P := blankCrypto) scriptEnv 5
    (System.fresh blankCrypto (specScript payload))).map fun run =>
      (run.1.isOk, run.2.trace.filter fun ev => ev matches .changeCipherSpec _ _,
        run.2.trace.any fun ev => decide (Unchecked ev))

/-- An evaluated connection is one that `connect` makes. -/
theorem returns_of_specRun {payload : Bytes} {specs : List Event} {unchecked : Bool}
    (h : specRun payload = some (true, specs, unchecked)) :
    ∃ s', Returns scriptEnv (.connect (scriptConfig 0))
      (System.fresh blankCrypto (specScript payload)) (.ok []) s' ∧
      (s'.trace.filter fun ev => ev matches .changeCipherSpec _ _) = specs ∧
      (s'.trace.any fun ev => decide (Unchecked ev)) = unchecked := by
  obtain ⟨⟨r, s'⟩, hrun, hresult⟩ := Option.map_eq_some_iff.mp h
  obtain ⟨hok, hrest⟩ := Prod.mk.inj hresult
  refine ⟨s', ⟨5, ?_⟩, Prod.mk.inj hrest⟩
  cases r with
  | error e => cases hok
  | ok bytes =>
    obtain ⟨u, s₁, -, hpure⟩ := (bind_eq_ok_iff _ _ _ _ _).mp hrun
    cases hpure
    exact hrun

/-- A run with a byte 1 before the ServerHello and before the Finished. -/
theorem ignoresOnly_of_two : ∃ step : Step blankCrypto Bytes, step.result = .ok [] ∧
    .changeCipherSpec .plaintext (plainRecord 20 [1]) ∈ step.events ∧
    .changeCipherSpec .handshake (plainRecord 20 [1]) ∈ step.events ∧
    IgnoresOnly step.call step.events step.result step.after.client.state := by
  have hresult : specRun [1] = some (true, [.changeCipherSpec .plaintext (plainRecord 20 [1]),
      .changeCipherSpec .handshake (plainRecord 20 [1])], false) := by
    decide +kernel
  obtain ⟨s', hret, hspecs, hunchecked⟩ := returns_of_specRun hresult
  have hsteps := (Steps.nil (E := scriptEnv)
    (System.fresh blankCrypto (specScript [1]))).snoc hret
  have hmem : ∀ ev ∈ [Event.changeCipherSpec .plaintext (plainRecord 20 [1]),
      .changeCipherSpec .handshake (plainRecord 20 [1])], ev ∈ s'.trace := by
    intro ev hev
    rw [← hspecs] at hev
    exact List.mem_of_mem_filter hev
  refine ⟨_, rfl, hmem _ (by simp), hmem _ (by simp),
    ignoresOnly_of_steps scriptEnv hsteps ?_ _ (List.mem_singleton_self _)⟩
  intro step hstep ev hev
  cases List.mem_singleton.mp hstep
  have hno := List.any_eq_false.mp hunchecked ev hev
  simpa using hno

/-- **A change_cipher_spec with another payload is ignored**: with the byte 2 before the
Finished, `connect` succeeds. -/
theorem other_payload_ignored : ∃ (w : Bytes) (s' : System blankCrypto Bytes),
    Returns scriptEnv (.connect (scriptConfig 0)) (System.fresh blankCrypto w) (.ok []) s' ∧
    .changeCipherSpec .handshake (plainRecord 20 [2]) ∈ s'.trace ∧
    ¬ IgnoresOnly (.connect (scriptConfig 0)) s'.trace (.ok []) s'.client.state := by
  have hresult : specRun [2] = some (true, [.changeCipherSpec .plaintext (plainRecord 20 [1]),
      .changeCipherSpec .handshake (plainRecord 20 [2])], true) := by
    decide +kernel
  obtain ⟨s', hret, hspecs, -⟩ := returns_of_specRun hresult
  have hmem : Event.changeCipherSpec .handshake (plainRecord 20 [2]) ∈ s'.trace := by
    apply List.mem_of_mem_filter (p := fun ev => ev matches .changeCipherSpec _ _)
    rw [hspecs]
    simp
  refine ⟨_, s', hret, hmem, ?_⟩
  intro hignores
  obtain ⟨before, after, hsplit⟩ := List.append_of_mem hmem
  rcases hignores before .handshake _ after hsplit with hmay | ⟨-, ⟨e, he⟩, -⟩
  · exact absurd hmay.payload (by decide)
  · cases he

end XboxTls.Analysis
