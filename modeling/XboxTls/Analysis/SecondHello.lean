import XboxTls.Analysis.ClientHelloEncoding
import XboxTls.Analysis.Steady
import XboxTls.Interface.BlankServer
import XboxTls.Interface.SecondHello

/-!
# The second ClientHello prefers another group

Whatever the server sends, a call of `connect` sends no more than two ClientHellos, the second
with the parameters of the first except for the group, the share and the cookie
(`HelloExchange`).  But the list of supported groups starts with the group of the share, so the
second list is the first one reversed.
-/

set_option autoImplicit false

namespace XboxTls.Analysis

open Programs Programs.Prog XboxTls.Model XboxTls.Interface

variable {P : Crypto} {W : Type} (E : Env W)

/-! ## The hellos since the call began -/

/-- Since `base` the hellos of the trace satisfy `X`. -/
def Said (base : List Event) (X : List Event → Prop) (s : System P W) : Prop :=
  ∃ evs, s.trace = base ++ evs ∧ X (helloEvents evs)

variable {base : List Event} {X : List Event → Prop}

/-- The hello events of a longer trace are those of its parts. -/
theorem helloEvents_append (a b : List Event) :
    helloEvents (a ++ b) = helloEvents a ++ helloEvents b :=
  List.filter_append _ _

/-- What was said may be weakened. -/
theorem said_mono {Y : List Event → Prop} (h : ∀ log, X log → Y log) {s : System P W}
    (hs : Said base X s) : Said base Y s := by
  obtain ⟨evs, htrace, hX⟩ := hs
  exact ⟨evs, htrace, h _ hX⟩

/-- What was said depends on the trace only. -/
theorem said_same {s s' : System P W} (htrace : s'.trace = s.trace) (hs : Said base X s) :
    Said base X s' := by
  obtain ⟨evs, hevs, hX⟩ := hs
  exact ⟨evs, htrace.trans hevs, hX⟩

/-- Other events say nothing. -/
theorem said_append {s s' : System P W} (evs : List Event) (htrace : s'.trace = s.trace ++ evs)
    (hnone : ∀ ev ∈ evs, helloEvent ev = false) (hs : Said base X s) : Said base X s' := by
  obtain ⟨evs₀, htrace₀, hX⟩ := hs
  refine ⟨evs₀ ++ evs, ?_, ?_⟩
  · rw [htrace, htrace₀, List.append_assoc]
  · have hfilter : helloEvents evs = [] := by
      simpa [helloEvents, List.filter_eq_nil_iff] using hnone
    rw [helloEvents_append, hfilter, List.append_nil]
    exact hX

/-- Another event says nothing. -/
theorem said_event {s : System P W} {ev : Event} (h : helloEvent ev = false)
    (hs : Said base X s) : Said base X { s with trace := s.trace ++ [ev] } :=
  said_append [ev] rfl (by simpa using h) hs

/-- A hello is added to the log. -/
theorem said_hello {Y : List Event → Prop} {s : System P W} {ev : Event}
    (h : helloEvent ev = true) (hY : ∀ log, X log → Y (log ++ [ev])) (hs : Said base X s) :
    Said base Y { s with trace := s.trace ++ [ev] } := by
  obtain ⟨evs, htrace, hX⟩ := hs
  refine ⟨evs ++ [ev], ?_, ?_⟩
  · dsimp only
    rw [htrace, List.append_assoc]
  · have hfilter : helloEvents [ev] = [ev] := by simp [helloEvents, h]
    rw [helloEvents_append, hfilter]
    exact hY _ hX

/-- A firm change says nothing. -/
theorem said_firm {s s' : System P W} (h : Firm s s') (hs : Said base X s) : Said base X s' := by
  obtain ⟨evs, htrace, hevs⟩ := h.trace
  refine said_append evs htrace ?_ hs
  intro ev hev
  have hfirm := hevs ev hev
  cases ev <;> first | rfl | cases hfirm

/-- A still change says nothing. -/
theorem said_still {s s' : System P W} (h : Still s s') (hs : Said base X s) : Said base X s' :=
  said_firm h.firm hs

/-- Wiping the secrets says nothing. -/
theorem said_wiped {Y : List Event → Prop} (h : ∀ log, X log → Y log) (s s' : System P W)
    (hw : Wiped s s') (hs : Said base X s) : Said base Y s' :=
  said_mono h (said_same hw.trace hs)

/-- The steps behind the hellos say nothing. -/
theorem said_between : BetweenClosed (Said base X : System P W → Prop) where
  firm _ _ := said_firm
  deframer _ _ _ := said_same rfl
  event _ ev h := said_event (by cases ev <;> first | rfl | cases h)

/-- The encrypted flight says nothing. -/
theorem said_flight : FlightClosed (Said base X : System P W → Prop) where
  still _ _ := said_still
  alpn _ _ := said_same rfl
  finishedVerified _ _ := said_event rfl

/-! ## Sending a ClientHello -/

/-- A ClientHello that goes out is what its parameters are written as. -/
theorem said_sendClientHello {Y Z : List Event → Prop} (p : ClientHelloParams)
    (hZ : ∀ log, X log → Z log)
    (hY : ∀ log encoded, buildClientHello p 2048 = .ok encoded → X log →
      Y (log ++ [.clientHello p encoded])) :
    Leads (Said base X) (Said base Y) (Said base Z)
      (sendClientHello E p : ClientM P W Unit) := by
  have hT : ∀ s s' : System P W, Still s s' → Said base X s → Said base X s' :=
    fun _ _ => said_still
  have hclient : ∀ (bytes : Bytes) (s : System P W),
      Still s { s with client := { s.client with clientHello := bytes } } := by
    intro bytes s
    exact ⟨rfl, rfl, rfl, rfl, rfl, rfl, rfl, rfl, rfl, [], by simp, by simp⟩
  unfold sendClientHello
  split
  · apply leads_bind (still_modifyClient hT (hclient _))
    intro _ s hs
    rw [wp_failWith_iff]
    exact said_wiped hZ _ _ (wiped_afterEnd E s) hs
  · next encoded hbuild =>
    apply leads_bind (still_modifyClient hT (hclient _))
    intro _
    apply leads_bind (maintains_hashMessage hT _)
    intro _
    apply leads_bind (maintains_orFail E (said_wiped hZ)
      (maintains_sendPlainRecord E hT (fun _ h => h) _ _))
    intro _ s hs
    rw [wp_emit]
    exact said_hello rfl (fun log => hY log encoded hbuild) hs

/-- A key share that is made is for one of the two groups. -/
theorem said_generateKeyShare {Z : List Event → Prop} (hZ : ∀ log, X log → Z log)
    (report : Error → Error) (group : NamedGroup) :
    Leads (Said base X) (fun s => Said base X s ∧ (group = .x25519 ∨ group = .secp256r1))
      (Said base Z) (generateKeyShare E report group : ClientM P W ℕ) := by
  have hmaintains := maintains_generateKeyShare (P := P) E
    (fun _ _ => @said_still _ _ base X _ _) (said_wiped hZ) report group
  intro s hs
  by_cases hgroup : group = .x25519 ∨ group = .secp256r1
  · refine wp_mono (hmaintains s hs) ?_
    intro r s' hr
    cases r with
    | ok n => exact ⟨hr, hgroup⟩
    | error e => exact hr
  · rw [not_or] at hgroup
    unfold generateKeyShare
    rw [if_neg hgroup.2, if_neg hgroup.1, wp_failWith_iff]
    exact said_wiped hZ _ _ (wiped_afterEnd E s) hs

/-! ## The hello loop -/

/-- The one ClientHello so far. -/
structure FirstSent (p : ClientHelloParams) (log : List Event) : Prop where
  cookie : p.cookie = []
  group : p.group = .x25519 ∨ p.group = .secp256r1
  sent : ∃ encoded, buildClientHello p 2048 = .ok encoded ∧ log = [.clientHello p encoded]

/-- The first ClientHello is an exchange. -/
theorem FirstSent.exchange {p : ClientHelloParams} {log : List Event} (h : FirstSent p log) :
    HelloExchange log := by
  obtain ⟨encoded, -, rfl⟩ := h.sent
  exact .first p encoded

/-- Where the hello loop is: it waits for the answer to the first ClientHello, or to the
second. -/
def Waiting (h : HelloLocals) (log : List Event) : Prop :=
  (h.hadHrr = false ∧ h.activeGroup = h.params.group ∧ FirstSent h.params log) ∨
    (h.hadHrr = true ∧ HelloExchange log)

/-- Whatever the client waits for, an exchange was said. -/
theorem Waiting.exchange {h : HelloLocals} {log : List Event} (hw : Waiting h log) :
    HelloExchange log := by
  obtain ⟨-, -, hfirst⟩ | ⟨-, hexchange⟩ := hw
  · exact hfirst.exchange
  · exact hexchange

/-- Consuming a hello message says nothing. -/
theorem said_consumeHello {Z : List Event → Prop} (hZ : ∀ log, X log → Z log) :
    Maintains (Said base X) (Said base Z) (consumeHello E : ClientM P W Unit) := by
  unfold consumeHello
  refine maintains_bind (keeps_attempt (maintains_consumeMessage
    (fun _ _ _ => said_same rfl) (fun _ h => h))) fun r => ?_
  split
  · exact maintains_failWith E (said_wiped hZ) _
  · refine maintains_bind maintains_getClient fun c => ?_
    split
    · exact maintains_failWith E (said_wiped hZ) _
    · exact maintains_pure ()

/-- A HelloRetryRequest is answered once, with a ClientHello for another group. -/
theorem said_retryHello (h : HelloLocals) (hm : HandshakeMessage) (sh : ServerHelloInfo) :
    Yields (Said base (Waiting h)) (fun h' => Said base (Waiting h')) (Said base HelloExchange)
      (retryHello E h hm sh : ClientM P W HelloLocals) := by
  unfold retryHello
  split
  · intro s hs
    rw [wp_failWith_iff]
    exact said_wiped (fun _ => Waiting.exchange) _ _ (wiped_afterEnd E s) hs
  · next hfresh =>
    rw [not_or, Bool.not_eq_true] at hfresh
    obtain ⟨hfirst, hchange⟩ := hfresh
    have hwait : ∀ log, Waiting h log → FirstSent h.params log := by
      rintro log (⟨-, -, hsent⟩ | ⟨hsecond, -⟩)
      · exact hsent
      · rw [hfirst] at hsecond
        cases hsecond
    by_cases hgroups : sh.group = h.params.group
    · -- the group that is offered is the active one
      intro s hs
      obtain ⟨evs, -, ⟨-, hactive, -⟩ | ⟨hsecond, -⟩⟩ := hs
      · exact absurd (hgroups.trans hactive.symm) hchange
      · rw [hfirst] at hsecond
        cases hsecond
    suffices hbody : Yields (Said base (FirstSent h.params))
        (fun h' => Said base (Waiting h')) (Said base HelloExchange) _ from
      fun s hs => hbody s (said_mono hwait hs)
    have hT : ∀ s s' : System P W, Still s s' → Said base (FirstSent h.params) s →
        Said base (FirstSent h.params) s' := fun _ _ => said_still
    have hZ : ∀ log, FirstSent h.params log → HelloExchange log := fun _ => FirstSent.exchange
    apply yields_bind (still_modifyClient hT fun s => ?_)
    · intro _
      apply yields_bind (maintains_hashMessage hT _)
      intro _
      apply yields_bind (said_consumeHello E hZ)
      intro _
      -- the log holds the request from here on
      let Asked (log : List Event) : Prop := ∃ first, FirstSent h.params first ∧
        log = first ++ [.retry hm.encoded sh]
      have hasked : ∀ log, Asked log → HelloExchange log := by
        rintro log ⟨first, hsent, rfl⟩
        obtain ⟨encoded, -, rfl⟩ := hsent.sent
        exact .requested h.params encoded hm.encoded sh
      have hemit : Leads (Said base (FirstSent h.params)) (Said base Asked)
          (Said base HelloExchange) (emit (.retry hm.encoded sh) : ClientM P W Unit) := by
        intro s hs
        rw [wp_emit]
        exact said_hello rfl (fun log hsent => ⟨log, hsent, rfl⟩) hs
      apply yields_bind hemit
      intro _
      apply yields_bind (said_generateKeyShare E hasked _ _)
      intro publicLen s hs
      obtain ⟨hs, hgroup⟩ := hs
      rw [wp_bind, wp_getClient, thenWp_ok]
      refine wp_bind_of_spec (said_sendClientHello (Y := HelloExchange) E _ hasked ?_ s hs) ?_
        fun e s' hs' => hs'
      · rintro log encoded' hbuild' ⟨first, hsent, rfl⟩
        obtain ⟨encoded, hbuild, rfl⟩ := hsent.sent
        exact .repeated ⟨h.params, encoded, hm.encoded, sh, _, encoded'⟩ hsent.cookie
          hsent.group hgroup hgroups ⟨_, rfl⟩ hbuild hbuild'
      · intro _ s' hs'
        rw [wp_pure]
        exact said_mono (fun log hlog => .inr ⟨rfl, hlog⟩) hs'
    · exact ⟨rfl, rfl, rfl, rfl, rfl, rfl, rfl, rfl, rfl, [], by simp, by simp⟩

/-- The hello loop says at most one retry and one second ClientHello. -/
theorem said_helloLoop (fuel : ℕ) (h : HelloLocals) :
    Leads (Said base (Waiting h)) (Said base HelloExchange) (Said base HelloExchange)
      (helloLoop E fuel h : ClientM P W (ServerHelloInfo × HelloLocals)) := by
  induction fuel generalizing h with
  | zero =>
    intro s _
    exact wp_diverge _ s
  | succ fuel ih =>
    have hZ : ∀ log, Waiting h log → HelloExchange log := fun _ => Waiting.exchange
    have hT : ∀ s s' : System P W, Still s s' → Said base (Waiting h) s →
        Said base (Waiting h) s' := fun _ _ => said_still
    have hfail : ∀ (e : Error) {α : Type} {I' : System P W → Prop},
        Leads (Said base (Waiting h)) I' (Said base HelloExchange)
          (failWith E e : ClientM P W α) := by
      intro e α I' s hs
      rw [wp_failWith_iff]
      exact said_wiped hZ _ _ (wiped_afterEnd E s) hs
    unfold helloLoop
    apply leads_bind maintains_getClient
    intro c
    split
    · apply leads_bind (maintains_readHelloRecord E hT (said_wiped hZ)
        (fun _ _ => said_event rfl) fun content => between_appendFragment said_between
          (fun _ h => h) _ content)
      intro _
      exact ih h
    · exact hfail _
    · next hm _ =>
      split
      · exact hfail _
      · apply leads_bind (maintains_orFail E (said_wiped hZ) (maintains_lift (fun _ h => h) _))
        intro sh
        split
        · exact hfail _
        · split
          · intro s hs
            refine wp_bind_of_spec (said_retryHello E h hm sh s hs) ?_ fun e s' hs' => hs'
            intro h' s' hs'
            exact ih h' s' hs'
          · apply leads_bind (maintains_hashMessage hT _)
            intro _
            apply leads_bind (said_consumeHello E hZ)
            intro _ s hs
            rw [wp_bind, wp_emit, thenWp_ok, wp_pure]
            exact said_mono hZ (said_event rfl hs)

/-- The first ClientHello has no cookie. -/
theorem said_first {p : ClientHelloParams} (hcookie : p.cookie = [])
    (hgroup : p.group = .x25519 ∨ p.group = .secp256r1) :
    Leads (Said base (· = [])) (Said base (FirstSent p)) (Said base HelloExchange)
      (sendClientHello E p : ClientM P W Unit) := by
  apply said_sendClientHello
  · rintro log rfl
    exact .silent
  · rintro log encoded hbuild rfl
    exact ⟨hcookie, hgroup, encoded, hbuild, rfl⟩

/-- The first ClientHello is said first. -/
theorem said_startHello (config : ClientConfig) :
    Yields (Said base (· = [])) (fun h => Said base (Waiting h)) (Said base HelloExchange)
      (startHello E config : ClientM P W HelloLocals) := by
  have hT : ∀ s s' : System P W, Still s s' → Said base (· = []) s → Said base (· = []) s' :=
    fun _ _ => said_still
  have hZ : ∀ log : List Event, log = [] → HelloExchange log := by
    rintro log rfl
    exact .silent
  unfold startHello
  apply yields_bind (maintains_deref _)
  intro platform
  apply yields_bind (maintains_orFail E (said_wiped hZ)
    (maintains_callWorld hT (fun _ h => h) _))
  intro random
  apply yields_bind (maintains_orFail E (said_wiped hZ)
    (maintains_callWorld hT (fun _ h => h) _))
  intro sid
  apply yields_bind (said_generateKeyShare E hZ _ _)
  intro publicLen s hs
  obtain ⟨hs, hgroup⟩ := hs
  rw [wp_bind, wp_getClient, thenWp_ok]
  refine wp_bind_of_spec (said_first E rfl hgroup s hs) ?_ fun e s' hs' => hs'
  intro _ s' hs'
  rw [wp_bind, wp_modifyClient, thenWp_ok, wp_pure]
  exact said_same (s := s') rfl (said_mono (fun log hlog => .inl ⟨rfl, rfl, hlog⟩) hs')

/-! ## The call -/

/-- After the hello loop no ClientHello goes out. -/
theorem said_connectHandshake (fuel : ℕ) (config : ClientConfig) :
    Leads (Said base (· = [])) (Said base HelloExchange) (Said base HelloExchange)
      (connectHandshake E fuel config : ClientM P W Unit) := by
  have hJ : ∀ s : System P W, Said base HelloExchange s → Said base HelloExchange s :=
    fun _ h => h
  have hW : ∀ s s' : System P W, Wiped s s' → Said base HelloExchange s →
      Said base HelloExchange s' := said_wiped fun _ h => h
  have hmessage : ∀ msg l, Maintains (Said base HelloExchange) (Said base HelloExchange)
      (handleHandshakeMessage E msg l : ClientM P W FlightLocals) := fun msg l =>
    leads_handleHandshakeMessage E hJ said_flight msg l fun s => said_event rfl
  have hround := between_flightRound E (said_between (P := P) (W := W)) hJ
    (fun s record => said_event rfl)
    (maintains_drainMessages E hJ hmessage fun s d _ => said_same rfl)
  unfold connectHandshake
  intro s hs
  refine wp_bind_of_spec (said_startHello E config s hs) ?_ fun e s' hs' => hs'
  intro h s₁ hs₁
  refine wp_bind_of_spec (said_helloLoop E fuel h s₁ hs₁) ?_ fun e s' hs' => hs'
  rintro ⟨sh, h⟩ s₂ hs₂
  revert s₂
  show Maintains _ _ _
  apply maintains_bind (between_deriveHandshakeKeys E said_between hW _ _)
  intro _
  apply maintains_orFail E hW
  exact maintains_bind (maintains_flightLoop E hround fuel _) fun _ =>
    between_finishHandshake E said_between hJ

/-- The hellos of a call of `connect`, however it ends. -/
theorem helloExchange_of_connect {fuel : ℕ} {config : ClientConfig} {s s' : System P W}
    {r : Except Error Unit} (hrun : Model.connect E fuel config s = some (r, s')) :
    ∃ evs, s'.trace = s.trace ++ evs ∧ HelloExchange (helloEvents evs) := by
  have hstart : Said s.trace (· = []) s := ⟨[], by simp, rfl⟩
  have hsilent : ∀ log : List Event, log = [] → HelloExchange log := by
    rintro log rfl
    exact .silent
  have hconnect : wp (Model.connect E fuel config : ClientM P W Unit)
      (ends (Said s.trace HelloExchange) (Said s.trace HelloExchange)) s := by
    unfold Model.connect
    rw [wp_bind, wp_getClient, thenWp_ok]
    split
    · rw [wp_throw]
      exact said_mono hsilent hstart
    · rw [wp_bind, wp_modifyClient, thenWp_ok, wp_bind, wp_emit, thenWp_ok]
      refine wp_bind_of_spec (said_connectHandshake E fuel config _
        (said_event (s := { s with client := beginConnect config s.client }) rfl
          (said_same rfl hstart))) ?_ fun e s' hs' => hs'
      intro _ s₁ hs₁
      rw [wp_modifyClient]
      exact said_same (s := s₁) rfl hs₁
  cases r with
  | ok _ => exact hconnect _ _ hrun
  | error e => exact hconnect _ _ hrun

/-! ## The two ClientHellos -/

/-- The groups that a ClientHello with this share names. -/
def groupsFor (group : NamedGroup) : List ℕ :=
  if group = .x25519 then [0x001d, 0x0017] else [group.code, 0x001d]

/-- Another preferred group lists the groups the other way round. -/
theorem groupsFor_reverse {group group' : NamedGroup}
    (hgroup : group = .x25519 ∨ group = .secp256r1)
    (hgroup' : group' = .x25519 ∨ group' = .secp256r1) (hchange : group' ≠ group) :
    groupsFor group' = (groupsFor group).reverse ∧ groupsFor group' ≠ groupsFor group := by
  rcases hgroup with rfl | rfl
  · rcases hgroup' with rfl | rfl
    · exact absurd rfl hchange
    · decide
  · rcases hgroup' with rfl | rfl
    · decide
    · exact absurd rfl hchange

/-- The extensions before and after the cookie. -/
theorem extensionsOf_eq (p : ClientHelloParams) : ∃ front back : List HelloExtension,
    (∀ share group cookie,
      extensionsOf { p with group := group, keyShare := share, cookie := cookie } = front ++
      [.supportedVersions [0x0304], .supportedGroups (groupsFor group),
        .signatureAlgorithms [0x0804, 0x0809, 0x0403], .keyShare [(group.code, share)]] ++
      (if cookie = [] then [] else [.cookie cookie]) ++ back) ∧
    (front = [] ∨ ∃ names, front = [.serverName names]) ∧
    (back = [] ∨ ∃ names, back = [.alpn names]) := by
  have hfront : ∀ host : CString,
      (if host.val = [] then [] else [HelloExtension.serverName [host.val]]) = [] ∨
        ∃ names, (if host.val = [] then [] else [HelloExtension.serverName [host.val]]) =
          [.serverName names] := by
    intro host
    split
    · exact .inl rfl
    · exact .inr ⟨_, rfl⟩
  have hback : ∀ alpn : CString,
      (if alpn.val = [] then [] else [HelloExtension.alpn (offeredProtocols alpn.val)]) = [] ∨
        ∃ names, (if alpn.val = [] then [] else
          [HelloExtension.alpn (offeredProtocols alpn.val)]) = [.alpn names] := by
    intro alpn
    split
    · exact .inl rfl
    · exact .inr ⟨_, rfl⟩
  obtain ⟨random, sessionId, keyShare, group, serverName, alpn, cookie⟩ := p
  cases serverName with
  | none =>
    cases alpn with
    | none => exact ⟨_, _, fun _ _ _ => rfl, .inl rfl, .inl rfl⟩
    | some alpn => exact ⟨_, _, fun _ _ _ => rfl, .inl rfl, hback alpn⟩
  | some host =>
    cases alpn with
    | none => exact ⟨_, _, fun _ _ _ => rfl, hfront host, .inl rfl⟩
    | some alpn => exact ⟨_, _, fun _ _ _ => rfl, hfront host, hback alpn⟩

/-- The second ClientHello repeats the first but for the order of the groups. -/
theorem repeatedHello_reverse {p : ClientHelloParams} {request : ServerHelloInfo} {share : Bytes}
    (hcookie : p.cookie = []) (hgroup : p.group = .x25519 ∨ p.group = .secp256r1)
    (hgroup' : request.group = .x25519 ∨ request.group = .secp256r1)
    (hchange : request.group ≠ p.group) :
    RepeatedHello List.reverse request (helloOf p) (helloOf { p with
      group := request.group, keyShare := share, cookie := request.cookie }) := by
  obtain ⟨front, back, hextensions, hfront, hback⟩ := extensionsOf_eq p
  have hfirst : extensionsOf p = _ := hextensions p.keyShare p.group p.cookie
  have hsecond := hextensions share request.group request.cookie
  have hgroups := (groupsFor_reverse hgroup hgroup' hchange).1
  refine ⟨rfl, rfl, rfl, rfl, rfl, ⟨share, ?_⟩, ?_⟩
  · show (extensionsOf _).filter _ = (extensionsOf p).map _
    rw [hfirst, hsecond, hcookie, hgroups]
    rcases hfront with rfl | ⟨names, rfl⟩ <;> rcases hback with rfl | ⟨protocols, rfl⟩ <;>
      by_cases hnone : request.cookie = [] <;>
      simp [hnone, HelloExtension.withShare, HelloExtension.withGroups, HelloExtension.isCookie]
  · show (extensionsOf _).filter _ = _
    rw [hsecond]
    rcases hfront with rfl | ⟨names, rfl⟩ <;> rcases hback with rfl | ⟨protocols, rfl⟩ <;>
      by_cases hnone : request.cookie = [] <;>
      simp [hnone, HelloExtension.isCookie, List.filter_cons]

/-- A ClientHello for another group is not the first one with another share. -/
theorem not_repeatedHello_id {p p' : ClientHelloParams} {request : ServerHelloInfo}
    (hgroup : p.group = .x25519 ∨ p.group = .secp256r1)
    (hgroup' : p'.group = .x25519 ∨ p'.group = .secp256r1) (hchange : p'.group ≠ p.group) :
    ¬ RepeatedHello id request (helloOf p) (helloOf p') := by
  intro h
  have hmem : ∀ q : ClientHelloParams, HelloExtension.supportedGroups (groupsFor q.group) ∈
      (helloOf q).extensions := by
    intro q
    show _ ∈ extensionsOf q
    simp [extensionsOf, groupsFor]
  have honly : ∀ (q : ClientHelloParams) groups, HelloExtension.supportedGroups groups ∈
      (helloOf q).extensions → groups = groupsFor q.group := by
    intro q groups hq
    obtain ⟨front, back, hextensions, hfront, hback⟩ := extensionsOf_eq q
    have hq : _ ∈ extensionsOf q := hq
    rw [hextensions q.keyShare q.group q.cookie] at hq
    rcases hfront with rfl | ⟨names, rfl⟩ <;> rcases hback with rfl | ⟨protocols, rfl⟩ <;>
      by_cases hnone : q.cookie = [] <;> simpa [hnone] using hq
  obtain ⟨share, hextensions⟩ := h.extensions
  have hin : HelloExtension.supportedGroups (groupsFor p'.group) ∈
      (helloOf p').extensions.filter fun e => !e.isCookie :=
    List.mem_filter.mpr ⟨hmem p', rfl⟩
  rw [hextensions] at hin
  obtain ⟨e, he, heq⟩ := List.mem_map.mp hin
  cases e with
  | supportedGroups groups =>
    have hgroups : groups = groupsFor p'.group := by
      simpa [HelloExtension.withShare, HelloExtension.withGroups] using heq
    rw [hgroups] at he
    exact (groupsFor_reverse hgroup hgroup' hchange).2 (honly p _ he)
  | serverName names => cases heq
  | signatureAlgorithms algorithms => cases heq
  | alpn names => cases heq
  | supportedVersions versions => cases heq
  | cookie value => cases heq
  | keyShare shares => cases heq

/-- What a repetition sends decodes to ClientHellos with the groups reversed. -/
theorem repeated_reverse {r : Repetition} (h : HelloExchange r.events) :
    decodeClientHello r.encoded = some (helloOf r.params) ∧
      decodeClientHello r.encoded' = some (helloOf r.params') ∧
      RepeatedHello List.reverse r.request (helloOf r.params) (helloOf r.params') ∧
      ¬ RepeatedHello id r.request (helloOf r.params) (helloOf r.params') := by
  generalize hlog : r.events = log at h
  cases h with
  | silent => cases hlog
  | first p encoded => cases hlog
  | requested p encoded request info => cases hlog
  | repeated r' cookie group group' change params' build build' =>
    obtain rfl : r = r' := by
      cases r
      cases r'
      cases hlog
      rfl
    obtain ⟨share, hparams⟩ := params'
    have hgroup : r.params'.group = r.request.group := by rw [hparams]
    refine ⟨(decodeClientHello_of_build group build).2,
      (decodeClientHello_of_build (by rwa [hgroup]) build').2, ?_, ?_⟩
    · rw [hparams]
      exact repeatedHello_reverse cookie group group' change
    · exact not_repeatedHello_id group (by rwa [hgroup]) (by rwa [hgroup])

/-- A repetition among the hellos of a call is all of them. -/
theorem repeats_exchange {evs : List Event} (h : HelloExchange (helloEvents evs))
    {r : Repetition} (hr : Repeats evs r) : HelloExchange r.events := by
  have hlength := hr.length_le
  have hevents : r.events.length = 3 := rfl
  have hthree : (helloEvents evs).length ≤ 3 := by
    generalize helloEvents evs = log at h
    cases h <;> simp [Repetition.events]
  have heq : r.events = helloEvents evs := hr.sublist.eq_of_length (by omega)
  rw [heq]
  exact h

/-- **The second ClientHello is never the one that was asked for**: it differs from the first
in the share, the cookie and the order of the groups, so a call of `connect` keeps the rule
exactly when it sends no second ClientHello. -/
theorem repeatsHello_iff {fuel : ℕ} {config : ClientConfig} {s s' : System P W}
    {r : Except Error Unit} {evs : List Event}
    (hrun : Model.connect E fuel config s = some (r, s')) (htrace : s'.trace = s.trace ++ evs) :
    (RepeatsHello id evs ↔ ∀ repetition, ¬ Repeats evs repetition) ∧
      RepeatsHello List.reverse evs := by
  obtain ⟨evs', htrace', hexchange⟩ := helloExchange_of_connect E hrun
  obtain rfl : evs = evs' := List.append_cancel_left (htrace.symm.trans htrace')
  refine ⟨⟨?_, ?_⟩, ?_⟩
  · intro hrepeats repetition hrep
    obtain ⟨first, second, hfirst, hsecond, hsame⟩ := hrepeats repetition hrep
    obtain ⟨hdecode, hdecode', -, hnot⟩ := repeated_reverse (repeats_exchange hexchange hrep)
    rw [hdecode] at hfirst
    rw [hdecode'] at hsecond
    cases hfirst
    cases hsecond
    exact hnot hsame
  · intro hnone repetition hrep
    exact absurd hrep (hnone repetition)
  · intro repetition hrep
    obtain ⟨hdecode, hdecode', hreverse, -⟩ := repeated_reverse (repeats_exchange hexchange hrep)
    exact ⟨_, _, hdecode, hdecode', hreverse⟩

/-! ## A server that asks for the other group -/

/-- `blankCrypto` with P-256 keys. -/
def twoGroupCrypto : Crypto :=
  { blankCrypto with
    p256PublicFromPrivate := fun k => .ok ⟨[4] ++ k.val ++ k.val, by simp [k.property]⟩ }

/-- A HelloRetryRequest for P-256, with a cookie of three bytes. -/
def retryScript : Bytes :=
  plainRecord 22 ([2, 0, 0, 93, 3, 3] ++ hrrRandom ++ [32] ++ List.replicate 32 0 ++
    [0x13, 0x01, 0, 0, 21, 0x00, 0x2b, 0, 2, 0x03, 0x04, 0x00, 0x33, 0, 2, 0x00, 0x17,
      0x00, 0x2c, 0, 5, 0, 3, 1, 2, 3])

/-- The groups of the ClientHellos in a trace. -/
def groupsSent (evs : List Event) : List (List ℕ) :=
  evs.flatMap fun ev => match ev with
    | .clientHello _ encoded => ((decodeClientHello encoded).map fun hello =>
        hello.extensions.filterMap fun e => match e with
          | .supportedGroups groups => some groups
          | _ => none).getD []
    | _ => []

/-- What a `connect` gives against it: the number of hellos and the groups. -/
def retryRun : Option (ℕ × List (List ℕ)) :=
  (Model.connect scriptEnv 5 (scriptConfig 0) (System.fresh twoGroupCrypto retryScript)).map
    fun run => ((helloEvents run.2.trace).length, groupsSent run.2.trace)

/-- The second ClientHello goes out with P-256 in front. -/
theorem retry_run : ∃ (r : Except Error Unit) (s' : System twoGroupCrypto Bytes),
    Model.connect scriptEnv 5 (scriptConfig 0) (System.fresh twoGroupCrypto retryScript) =
      some (r, s') ∧
    (∃ repetition, HelloExchange repetition.events ∧ Repeats s'.trace repetition) ∧
    groupsSent s'.trace = [[0x001d, 0x0017], [0x0017, 0x001d]] := by
  have hresult : retryRun = some (3, [[0x001d, 0x0017], [0x0017, 0x001d]]) := by
    decide +kernel
  obtain ⟨⟨r, s'⟩, hrun, hpair⟩ := Option.map_eq_some_iff.mp hresult
  obtain ⟨hlength, hgroups⟩ := Prod.mk.inj hpair
  refine ⟨r, s', hrun, ?_, hgroups⟩
  obtain ⟨evs, htrace, hexchange⟩ := helloExchange_of_connect scriptEnv hrun
  have hevs : s'.trace = evs := htrace
  rw [← hevs] at hexchange
  unfold Repeats
  generalize helloEvents s'.trace = log at hexchange hlength
  cases hexchange with
  | silent => cases hlength
  | first p encoded => cases hlength
  | requested p encoded request info => cases hlength
  | repeated repetition cookie group group' change params' build build' =>
    exact ⟨repetition, .repeated repetition cookie group group' change params' build build',
      List.infix_rfl⟩

/-- A retry for the other group, for which no rule of the standard is met. -/
theorem repeatsHello_iff_retry : ∃ (r : Except Error Unit) (s' : System twoGroupCrypto Bytes),
    Model.connect scriptEnv 5 (scriptConfig 0) (System.fresh twoGroupCrypto retryScript) =
      some (r, s') ∧
    (RepeatsHello id s'.trace ↔ ∀ repetition, ¬ Repeats s'.trace repetition) ∧
      RepeatsHello List.reverse s'.trace := by
  obtain ⟨r, s', hrun, -, -⟩ := retry_run
  have htrace : s'.trace = (System.fresh twoGroupCrypto retryScript).trace ++ s'.trace := rfl
  exact ⟨r, s', hrun, repeatsHello_iff scriptEnv hrun htrace⟩

/-- **The order of the groups changes**: asked for P-256, a client that prefers X25519 sends
the groups in the other order. -/
theorem second_hello_reordered : ∃ (r : Except Error Unit) (s' : System twoGroupCrypto Bytes),
    Model.connect scriptEnv 5 (scriptConfig 0) (System.fresh twoGroupCrypto retryScript) =
      some (r, s') ∧
    groupsSent s'.trace = [[0x001d, 0x0017], [0x0017, 0x001d]] ∧
    ¬ RepeatsHello id s'.trace := by
  obtain ⟨r, s', hrun, ⟨repetition, hexchange, hrepeats⟩, hgroups⟩ := retry_run
  refine ⟨r, s', hrun, hgroups, ?_⟩
  intro hpromise
  obtain ⟨first, second, hfirst, hsecond, hsame⟩ := hpromise repetition hrepeats
  obtain ⟨hdecode, hdecode', -, hnot⟩ := repeated_reverse hexchange
  rw [hdecode] at hfirst
  rw [hdecode'] at hsecond
  cases hfirst
  cases hsecond
  exact hnot hsame

end XboxTls.Analysis
