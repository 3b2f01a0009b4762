import XboxTls.Analysis.Fragmentation
import XboxTls.Analysis.HelloFits
import XboxTls.Analysis.SendDelivery
import XboxTls.Analysis.ServerHelloParsing
import XboxTls.Analysis.StandardSchedule

/-!
# The hellos with a server of the profile

The client's part of a handshake up to the handshake keys succeeds when nothing fails on its side
and the server answers as it should: `Awaits` says where it stands behind the records so far,
whichever stream brings them.
-/

set_option autoImplicit false

namespace XboxTls.Analysis

open Programs Programs.Prog XboxTls.Model XboxTls.Interface

variable {P : Crypto} {W : Type} {E : Env W} {S : Segmentation} {ended : Option Error}

/-! ## The keys of the standard -/

/-- Nothing is expanded to no bytes. -/
theorem hkdfExpandLoop_zero (prk info : Bytes) (fuel : ℕ) (t : Bytes) (ctr : UInt8) :
    hkdfExpandLoop P prk info fuel t ctr 0 = [] := by
  cases fuel with
  | zero => rfl
  | succ fuel =>
    unfold hkdfExpandLoop
    rw [if_pos rfl]

/-- At most 32 bytes are the front of one block of the expansion. -/
theorem expandLabel_eq {secret label context : Bytes} {n : ℕ} (hlo : 0 < n) (hhi : n ≤ 32)
    {out : FixedBytes n} (h : hkdfExpandLabelSha256 P secret label context n = .ok out) :
    out.val = Standard.expandLabel (Standard.digest P) n secret label context := by
  unfold hkdfExpandLabelSha256 at h
  split at h
  · cases h
  unfold hkdfExpandSha256 at h
  rw [if_neg (by omega)] at h
  split at h
  · cases h
  cases h
  have hlen := (hmacSha256 P secret (hkdfLabel n label context ++ [1])).property
  unfold hkdfExpandLoop
  rw [if_neg (by omega)]
  dsimp only
  rw [Nat.min_eq_left hhi, Nat.sub_self, hkdfExpandLoop_zero, List.append_nil, List.nil_append,
    FixedBytes.ofBytes_val_of_length _ (by rw [List.length_take, hlen, Nat.min_eq_left hhi]),
    hmacSha256_eq]
  unfold Standard.expandLabel Standard.hkdfExpand hkdfLabel
  congr 3
  simp only [Standard.vector8, List.length_append, List.append_assoc, List.cons_append,
    List.nil_append]
  rfl

/-- The code's traffic keys are those of the standard. -/
theorem trafficKeys_eq {secret : FixedBytes 32} {keys : TrafficKeys}
    (h : deriveTrafficKeysSha256 P secret = .ok keys) :
    keys = Standard.trafficKeys (Standard.digest P) secret.val := by
  unfold deriveTrafficKeysSha256 at h
  obtain ⟨key, hkey, h⟩ := (except_bind_eq_ok _ _ _).mp h
  obtain ⟨iv, hiv, h⟩ := (except_bind_eq_ok _ _ _).mp h
  cases h
  unfold Standard.trafficKeys
  rw [← expandLabel_eq (by decide) (by decide) hkey, ← expandLabel_eq (by decide) (by decide) hiv]
  congr 1
  · exact Subtype.ext (FixedBytes.ofBytes_val_of_length _ key.property).symm
  · exact Subtype.ext (FixedBytes.ofBytes_val_of_length _ iv.property).symm

/-- The code's verify data is that of the standard. -/
theorem verifyData_eq {secret verifyData : FixedBytes 32} {messages : Bytes}
    (h : computeFinishedVerifyDataSha256 P secret (P.sha256 messages) = .ok verifyData) :
    verifyData.val = Standard.verifyData (Standard.digest P) secret.val messages := by
  unfold computeFinishedVerifyDataSha256 finishedKeySha256 at h
  obtain ⟨key, hkey, h⟩ := (except_bind_eq_ok _ _ _).mp h
  cases h
  unfold Standard.verifyData
  rw [← expandLabel_eq (by decide) (by decide) hkey, hmacSha256_eq]
  rfl

/-! ## The ClientHello -/

/-- A call that succeeds. -/
theorem callWorld_run {α : Type} {x : Prog W Error α} {a : α} {s : System P W} {w : W}
    (hx : x s.world = some (.ok a, w)) :
    callWorld x s = some (.ok a, { s with world := w }) := by
  unfold callWorld
  rw [hx]

/-- A key is drawn at the first attempt. -/
theorem generateKeyShare_ok {group : NamedGroup} (hE : Cooperates P E group)
    (hgroup : group = .x25519 ∨ group = .secp256r1) (report : Error → Error) {platform : ℕ}
    {s : System P W} (hplatform : s.client.config.platform = some platform) :
    succeeds (generateKeyShare E report group) (fun n s' => ∃ privateKey publicKey w,
      s' = ⟨{ s.client with privateKey := privateKey, publicKey := publicKey }, w, s.trace⟩ ∧
      KeyShareOf P group privateKey (publicKey.val.take n) ∧
      1 ≤ (publicKey.val.take n).length ∧ (publicKey.val.take n).length ≤ 65) s := by
  obtain ⟨b, w, hrandom, hkey⟩ := hE.random platform s.world
  have hcall : (attempt (callWorld (E.randomBytes platform 32)) :
      ClientM P W (Except Error (FixedBytes 32))) s =
        some (.ok (.ok b), { s with world := w }) := by
    unfold attempt
    rw [callWorld_run hrandom]
  unfold generateKeyShare
  obtain rfl | rfl := hgroup
  · rw [if_neg (by decide), if_pos rfl]
    have hrun : generateX25519 E report s = some (.ok (), ⟨{ s.client with
        privateKey := clampPrivateKey b
        publicKey := s.client.publicKey.overwrite (P.x25519PublicFromPrivate (clampPrivateKey b))
          (by decide) }, w, s.trace⟩) := by
      unfold generateX25519
      rw [bind_of_ok rfl, hplatform, bind_of_ok rfl, bind_of_ok hcall]
      rfl
    refine succeeds_bind (succeeds_of_eq hrun ?_)
    rw [succeeds_pure]
    refine ⟨_, _, _, rfl, ?_⟩
    rw [FixedBytes.take_overwrite]
    refine ⟨.inl ⟨rfl, rfl⟩, ?_⟩
    rw [(P.x25519PublicFromPrivate _).property]
    decide
  · rw [if_pos rfl]
    obtain ⟨share, hshare⟩ := hkey rfl
    have hrun : generateP256 E report 16 .verify s = some (.ok (), ⟨{ s.client with
        privateKey := b, publicKey := share }, w, s.trace⟩) := by
      unfold generateP256
      rw [bind_of_ok rfl, hplatform, bind_of_ok rfl, bind_of_ok hcall]
      dsimp only
      rw [bind_of_ok rfl, hshare]
      rfl
    have htake : share.val.take 65 = share.val := List.take_of_length_le share.property.le
    refine succeeds_bind (succeeds_of_eq hrun ?_)
    rw [succeeds_pure]
    refine ⟨_, _, _, rfl, ?_⟩
    rw [htake]
    refine ⟨.inr ⟨rfl, share, hshare, rfl⟩, ?_⟩
    rw [share.property]
    decide

/-- A plain record is sent. -/
theorem sendPlainRecord_ok (hE : Accepting E) (type : UInt8) {payload : Bytes} {stream : ℕ}
    (hlen : payload.length ≤ 16384) {s : System P W}
    (hstream : s.client.config.stream = some stream) :
    succeeds (sendPlainRecord E type payload)
      (fun _ s' => ∃ w evs, s' = ⟨s.client, w, s.trace ++ evs⟩) s := by
  unfold sendPlainRecord
  refine succeeds_bind (succeeds_getClient ?_)
  rw [hstream]
  dsimp only
  rw [if_neg (by omega)]
  obtain ⟨w, hfirst⟩ := writeStream_run hE stream ([type, 3, 3] ++ storeBe16 payload.length) s
  refine succeeds_bind (succeeds_of_eq hfirst ?_)
  by_cases hempty : payload.length = 0
  · rw [if_neg (by omega), succeeds_pure]
    exact ⟨_, _, rfl⟩
  · rw [if_pos (by omega)]
    obtain ⟨w', hsecond⟩ := writeStream_run hE stream payload
      { s with world := w, trace := s.trace ++ [.wrote ([type, 3, 3] ++ storeBe16 payload.length)] }
    refine succeeds_of_eq hsecond ⟨w', [.wrote ([type, 3, 3] ++ storeBe16 payload.length)] ++
      [.wrote payload], ?_⟩
    rw [← List.append_assoc]

/-- A ClientHello that can be built is sent. -/
theorem sendClientHello_ok (hE : Accepting E) {p : ClientHelloParams} {ch : Bytes} {stream : ℕ}
    (hch : buildClientHello p 2048 = .ok ch) (hlen : ch.length ≤ 2048) {s : System P W}
    (hstream : s.client.config.stream = some stream) :
    succeeds (sendClientHello E p) (fun _ s' => ∃ w evs, s' = ⟨{ s.client with
      clientHello := ch
      transcript := P.shaUpdate s.client.transcript ch }, w, s.trace ++ evs⟩) s := by
  unfold sendClientHello
  rw [hch]
  dsimp only
  refine succeeds_bind (succeeds_modifyClient (succeeds_bind (succeeds_modifyClient ?_)))
  refine succeeds_bind (succeeds_onError (succeeds_mono
    (sendPlainRecord_ok hE contentHandshake (by omega) hstream) ?_))
  rintro _ s' ⟨w, evs, rfl⟩
  refine succeeds_emit ⟨w, evs ++ [.clientHello p ch], ?_⟩
  rw [transcriptUpdate_eq, List.append_assoc]

/-- The client with a ClientHello on the wire, and `sent` hashed: the hello and whatever stands
before it. -/
structure Greeted (config : ClientConfig) (sent : Bytes) (h : HelloLocals) (c : TlsClient P) :
    Prop where
  configured : c.config = config
  state : c.state = .handshaking
  transcript : c.transcript = P.shaUpdate P.shaReset sent
  deframer : c.deframer = .empty 32768
  share : KeyShareOf P h.params.group c.privateKey h.params.keyShare
  group : h.activeGroup = h.params.group
  session : h.params.sessionId = h.sid.val
  random : h.params.random32.length = 32
  name : h.params.serverName = config.hostname
  offers : h.params.alpn = config.alpn
  alpn : c.negotiatedAlpn = []
  pending : c.pendingAppLength = 0

/-- A usable configuration has a platform and a stream. -/
theorem objects_of_usable {config : ClientConfig} (h : config.usable = true) :
    (∃ platform, config.platform = some platform) ∧ ∃ stream, config.stream = some stream := by
  unfold ClientConfig.usable at h
  simp only [Bool.and_eq_true, Option.isSome_iff_exists] at h
  exact ⟨h.1.1.1, h.1.1.2⟩

/-- The first ClientHello is sent, with a share of the preferred group. -/
theorem startHello_ok {config : ClientConfig} (hE : Cooperates P E config.preferredGroup)
    (hgroup : config.preferredGroup = .x25519 ∨ config.preferredGroup = .secp256r1)
    (husable : config.usable = true) (hfits : HelloFits config) {s : System P W}
    (hstored : Stored s.client) :
    succeeds (startHello E config) (fun h s' => ∃ ch, buildClientHello h.params 2048 = .ok ch ∧
      h.hadHrr = false ∧ h.params.group = config.preferredGroup ∧
      Greeted config ch h s'.client) (startOf config s) := by
  obtain ⟨⟨platform, hplatform⟩, stream, hstream⟩ := objects_of_usable husable
  obtain ⟨random, w₁, hrandom, -⟩ := hE.random platform s.world
  obtain ⟨sid, w₂, hsid, -⟩ := hE.random platform w₁
  unfold startHello
  refine succeeds_bind (succeeds_deref hplatform ?_)
  refine succeeds_bind (succeeds_of_eq (orFail_of_ok _ (callWorld_run hrandom)) ?_)
  refine succeeds_bind (succeeds_of_eq (orFail_of_ok _ (callWorld_run hsid)) ?_)
  refine succeeds_bind_of_spec (generateKeyShare_ok hE hgroup _ hplatform) ?_
  rintro n _ ⟨privateKey, publicKey, w₃, rfl, hshare, hlo, hhi⟩
  refine succeeds_bind (succeeds_getClient ?_)
  dsimp only
  obtain ⟨ch, hch, hlen⟩ := exists_clientHello hfits (p := ⟨random.val, sid.val,
    publicKey.val.take n, config.preferredGroup, config.hostname, config.alpn, []⟩) rfl rfl
    random.property sid.property hlo hhi (Nat.zero_le _)
  refine succeeds_bind_of_spec (sendClientHello_ok hE.toAccepting hch hlen hstream) ?_
  rintro _ _ ⟨w₄, evs, rfl⟩
  refine succeeds_bind (succeeds_modifyClient ?_)
  rw [succeeds_pure]
  refine ⟨ch, hch, rfl, rfl, rfl, rfl, rfl, ?_, hshare, rfl, rfl, random.property, rfl, rfl, rfl,
    rfl⟩
  exact deframer_eq_empty hstored.capacity rfl

/-! ## The answers of the server -/

/-- The body of a ServerHello fits a message. -/
theorem encodeBody_fits (m : HelloParts) : m.encodeBody.length ≤ 0xFFFFFF := by
  have hsession := m.sessionBound
  have hextensions := m.extensionsBound
  simp only [HelloParts.encodeBody, List.length_append, storeBe16_length, m.random.property,
    List.length_singleton]
  omega

/-- The message of these parts. -/
def helloMessage (m : HelloParts) : OutgoingMessage :=
  ⟨hsServerHello, m.encodeBody, encodeBody_fits m⟩

/-- The message of a ServerHello is its encoding. -/
theorem helloMessage_encode (m : HelloParts) : (helloMessage m).encode = m.encode := rfl

/-- The hello loop with a hello in the deframer that it can read. -/
theorem helloLoop_message {s : System P W} {m : HelloParts} {info : ServerHelloInfo}
    (hbuffer : s.client.deframer.buffer = m.encode) (hparse : parseServerHello m.encode = .ok info)
    {h : HelloLocals} (hsession : info.sessionId = h.sid.val) (fuel : ℕ) :
    helloLoop E (fuel + 1) h s =
      (if info.helloRetryRequest then do
        let h' ← retryHello E h (helloMessage m).received info
        helloLoop E fuel h'
      else do
        hashMessage m.encode
        consumeHello E
        emit (.serverHello m.encode info)
        pure (info, h) : ClientM P W (ServerHelloInfo × HelloLocals)) s := by
  have hmessage := parseHandshakeMessage_encode (helloMessage m) []
  rw [List.append_nil, helloMessage_encode, ← hbuffer] at hmessage
  have hpeek := peek_of_parse hmessage
  have hencoded : (helloMessage m).received.encoded = m.encode := rfl
  have htype : (helloMessage m).received.type = hsServerHello := rfl
  conv_lhs => unfold helloLoop
  rw [bind_of_ok rfl, hpeek]
  dsimp only
  rw [if_neg (by rw [htype]; decide), hencoded, bind_of_ok (orFail_of_ok E (lift_of_ok hparse s)),
    if_neg (by rw [hsession]; simp)]

/-- A hello that is alone in the deframer is consumed. -/
theorem consumeHello_ok {s : System P W} {m : HelloParts}
    (hcapacity : s.client.deframer.capacity = 32768)
    (hbuffer : s.client.deframer.buffer = m.encode) :
    consumeHello E s =
      some (.ok (), { s with client := { s.client with deframer := .empty 32768 } }) := by
  have hmessage := parseHandshakeMessage_encode (helloMessage m) []
  rw [List.append_nil, helloMessage_encode, ← hbuffer] at hmessage
  obtain ⟨d, hsize, hrest, hconsume⟩ := consumeMessage_run hmessage
  have hempty : d = .empty 32768 := deframer_eq_empty (hsize.trans hcapacity)
    (by rw [hrest, hbuffer]; exact List.drop_length)
  subst hempty
  unfold consumeHello
  rw [bind_of_ok (a := Except.ok ()) (by unfold attempt; rw [hconsume])]
  rfl

/-- A HelloRetryRequest for the other group is answered with a second ClientHello. -/
theorem retryHello_ok {config : ClientConfig} {group : NamedGroup}
    (hgroup : group = .x25519 ∨ group = .secp256r1) {cookie : Option Bytes}
    (hcookie : ∀ c, cookie = some c → c.length ≤ 512) (hE : Cooperates P E group)
    (hfits : HelloFits config) (husable : config.usable = true) {sent : Bytes} {h : HelloLocals}
    {s : System P W} (hs : Greeted config sent h { s.client with deframer := .empty 32768 })
    (hfirst : h.hadHrr = false) (hother : group ≠ h.params.group) {m : HelloParts}
    (hcapacity : s.client.deframer.capacity = 32768)
    (hbuffer : s.client.deframer.buffer = m.encode) :
    succeeds (retryHello E h (helloMessage m).received
        ((HelloKind.retry group hgroup cookie hcookie).info m.sessionId))
      (fun h' s' => ∃ ch, buildClientHello h'.params 2048 = .ok ch ∧ h'.sid = h.sid ∧
        h'.hadHrr = true ∧ h'.params = { h.params with
          group := group, keyShare := h'.params.keyShare, cookie := cookie.getD [] } ∧
        Greeted config (messageHash (P.sha256 sent) ++ m.encode ++ ch) h' s'.client) s := by
  obtain ⟨⟨platform, hplatform⟩, stream, hstream⟩ := objects_of_usable husable
  have hconfig : s.client.config = config := hs.configured
  have htranscript : s.client.transcript = P.shaUpdate P.shaReset sent := hs.transcript
  have hlong : (cookie.getD []).length ≤ 512 := by
    cases cookie with
    | none => exact Nat.zero_le _
    | some c => exact hcookie c rfl
  unfold retryHello
  rw [if_neg (by
    rintro (hhad | hsame)
    · rw [hfirst] at hhad
      cases hhad
    · exact hother (hsame.trans hs.group))]
  refine succeeds_bind (succeeds_modifyClient (succeeds_bind (succeeds_modifyClient ?_)))
  refine succeeds_bind (succeeds_of_eq (consumeHello_ok hcapacity hbuffer) ?_)
  refine succeeds_bind (succeeds_emit ?_)
  refine succeeds_bind_of_spec (generateKeyShare_ok hE hgroup _ (hconfig.symm ▸ hplatform)) ?_
  rintro n _ ⟨privateKey, publicKey, w₁, rfl, hshare, hlo, hhi⟩
  refine succeeds_bind (succeeds_getClient ?_)
  dsimp only
  obtain ⟨ch, hch, hlen⟩ := exists_clientHello hfits (p := { h.params with
    group := group
    keyShare := publicKey.val.take n
    cookie := cookie.getD [] }) hs.name hs.offers hs.random
    (by rw [hs.session, h.sid.property]) hlo hhi hlong
  refine succeeds_bind_of_spec (sendClientHello_ok hE.toAccepting hch hlen
    (hconfig.symm ▸ hstream)) ?_
  rintro _ _ ⟨w₂, evs, rfl⟩
  rw [succeeds_pure]
  refine ⟨ch, hch, rfl, rfl, rfl, hconfig, hs.state, ?_, rfl, hshare, rfl, hs.session, hs.random,
    hs.name, hs.offers, hs.alpn, hs.pending⟩
  dsimp only
  have hrestart : retryTranscript s.client.transcript =
      P.shaUpdate P.shaReset (messageHash (P.sha256 sent)) := by
    unfold retryTranscript
    rw [transcriptUpdate_eq, htranscript]
    rfl
  rw [hrestart, transcriptUpdate_eq, P.shaUpdate_append, P.shaUpdate_append, List.append_assoc]
  rfl

/-! ## What the client has heard -/

/-- The state with a stream beside the world. -/
def onStream (t : S.State) (s : System P W) : System P (S.State × W) :=
  ⟨s.client, (t, s.world), s.trace⟩

/-- A client over a stream is one that the stream was put under. -/
theorem Over.eq_onStream {c : TlsClient P} {trace : List Event} {w : W} {left : Bytes}
    {s : System P (S.State × W)} (hs : Over c trace w left s) :
    s = onStream s.world.1 ⟨c, w, trace⟩ := by
  obtain ⟨client, ⟨t, w'⟩, trace'⟩ := s
  obtain ⟨rfl, rfl, rfl, -⟩ := hs
  rfl

/-- A client that a stream is put under is over it. -/
theorem over_onStream (t : S.State) (s : System P W) :
    Over s.client s.trace s.world (S.left t) (onStream t s) :=
  ⟨rfl, rfl, rfl, rfl⟩

/-- A call of the world does the same beside a stream. -/
theorem related_alongside {α : Type} (t : S.State) (x : Prog W Error α) :
    Related (fun w (v : S.State × W) => v = (t, w)) x (beside x) := by
  rintro w _ rfl
  unfold beside
  dsimp only
  cases x w with
  | none => exact .diverge
  | some out => exact .stop _ rfl

/-- The environment with and without the stream are joined. -/
theorem joined_onStream (t : S.State) :
    Joined (fun w (v : S.State × W) => v = (t, w)) E (segmented S ended E) where
  randomBytes platform n := related_alongside t (E.randomBytes platform n)
  sendAll stream bytes := related_alongside t (E.sendAll stream bytes)
  close stream w _ h := congrArg (fun v => (v.1, E.close stream v.2)) h
  verifyChain verifier chain hostname := related_alongside t (E.verifyChain verifier chain hostname)
  verifySignature verifier scheme leaf message signature :=
    related_alongside t (E.verifySignature verifier scheme leaf message signature)
  malloc n w _ h := by
    subst h
    exact ⟨rfl, rfl⟩
  sizeOfSize := rfl
  writeBehind bytes w _ h := congrArg (fun v => (v.1, E.writeBehind bytes v.2)) h
  readBehind first n w _ h := by
    subst h
    rfl

/-- A part of `connect` that reads nothing does the same with a stream beside it. -/
theorem run_onStream {α : Type} {t : S.State} {x : ClientM P W α}
    {y : ClientM P (S.State × W) α}
    (hxy : Related (Alike fun w (v : S.State × W) => v = (t, w)) x y) {s s' : System P W}
    {r : Except Error α} (hx : x s = some (r, s')) :
    y (onStream t s) = some (r, onStream t s') := by
  have hend := hxy.coupled (⟨rfl, rfl, rfl⟩ : Alike _ s (onStream t s))
  rw [hx] at hend
  obtain ⟨⟨client, world, trace⟩, hy, hclient, htrace, hworld⟩ := hend.run
  rw [hy]
  subst hclient htrace hworld
  rfl

/-- What succeeds without the stream does so on it, and leaves it. -/
theorem succeeds_onStream {α : Type} {t : S.State} {x : ClientM P W α}
    {y : ClientM P (S.State × W) α}
    (hxy : Related (Alike fun w (v : S.State × W) => v = (t, w)) x y)
    {Q : α → System P W → Prop} {s : System P W} (hx : succeeds x Q s) :
    succeeds y (fun a s' => ∃ u, s' = onStream t u ∧ Q a u) (onStream t s) := by
  obtain ⟨a, u, hrun, hQ⟩ := hx
  exact ⟨a, onStream t u, run_onStream hxy hrun, u, rfl, hQ⟩

/-- Behind the records `heard` the client is in the hello loop, with the locals `h` and in the
state `u`, on whichever stream they arrive. -/
def Awaits (E : Env W) (config : ClientConfig) (s : System P W) (heard : Bytes)
    (h : HelloLocals) (u : System P W) : Prop :=
  ∃ rounds, ∀ (S : Segmentation) (ended : Option Error) (t : S.State) (tail : Bytes),
    S.left t = heard ++ tail → ∃ t' : S.State, S.left t' = tail ∧
      ∀ fuel, (do
          let h ← startHello (segmented S ended E) config
          helloLoop (segmented S ended E) (fuel + rounds) h :
            ClientM P (S.State × W) (ServerHelloInfo × HelloLocals)) (onStream t s) =
        helloLoop (segmented S ended E) fuel h (onStream t' u)

/-- Behind its ClientHello the client waits, and has heard nothing. -/
theorem awaits_start {config : ClientConfig} {s u : System P W} {h : HelloLocals}
    (hstart : startHello E config s = some (.ok h, u)) : Awaits E config s [] h u := by
  refine ⟨0, fun S ended t tail hleft => ⟨t, hleft, fun fuel => ?_⟩⟩
  exact bind_of_ok (run_onStream (related_startHello (joined_onStream t) config) hstart)

/-- One record more, after which the hello loop goes on. -/
theorem Awaits.step {config : ClientConfig} {s u u' : System P W} {heard record : Bytes}
    {h h' : HelloLocals} (hu : Awaits E config s heard h u) (rounds : ℕ)
    (hstep : ∀ (S : Segmentation) (ended : Option Error) (t : S.State) (tail : Bytes),
      S.left t = record ++ tail → ∃ t' : S.State, S.left t' = tail ∧
        ∀ fuel, helloLoop (segmented S ended E) (fuel + rounds) h (onStream t u) =
          helloLoop (segmented S ended E) fuel h' (onStream t' u')) :
    Awaits E config s (heard ++ record) h' u' := by
  obtain ⟨before, hu⟩ := hu
  refine ⟨rounds + before, fun S ended t tail hleft => ?_⟩
  rw [List.append_assoc] at hleft
  obtain ⟨t₁, hleft₁, hrun₁⟩ := hu S ended t (record ++ tail) hleft
  obtain ⟨t₂, hleft₂, hrun₂⟩ := hstep S ended t₁ tail hleft₁
  refine ⟨t₂, hleft₂, fun fuel => ?_⟩
  rw [← Nat.add_assoc, hrun₁ (fuel + rounds), hrun₂ fuel]

/-- A change_cipher_spec record has a header that can be read. -/
theorem isRecord_changeCipherSpec : IsRecord changeCipherSpecRecord := by
  unfold IsRecord
  decide

/-- The client passes over one change_cipher_spec record in the hello loop. -/
theorem awaits_changeCipherSpec {config : ClientConfig} {s u : System P W} {heard sent : Bytes}
    {h : HelloLocals} (hu : Awaits E config s heard h u) (hgreeted : Greeted config sent h u.client)
    {stream : ℕ} (hstream : config.stream = some stream) :
    Awaits E config s (heard ++ changeCipherSpecRecord) h
      { u with trace := u.trace ++ [.changeCipherSpec .plaintext changeCipherSpecRecord] } := by
  refine hu.step 1 fun S ended t tail hleft => ?_
  have hpeek : (onStream t u).client.deframer.peek = .error .bufferTooSmall := by
    show u.client.deframer.peek = _
    rw [hgreeted.deframer]
    rfl
  have hconfig : u.client.config.stream = some stream := hgreeted.configured.symm ▸ hstream
  have hparse : parseRecordHeader changeCipherSpecRecord =
      .ok ⟨contentChangeCipherSpec, 0x0303, 1⟩ :=
    parseRecordHeader_header contentChangeCipherSpec 1 (by decide) [1]
  obtain ⟨s₁, hread, hs₁⟩ := (over_onStream t u).readRecord ended E
  rw [hconfig, hleft, recordOf_record isRecord_changeCipherSpec, hparse] at hread hs₁
  dsimp only at hread hs₁
  refine ⟨s₁.world.1, hs₁.left, fun fuel => ?_⟩
  have hrecord : readHelloRecord (segmented S ended E) (onStream t u) = some (.ok (),
      { s₁ with
        trace := s₁.trace ++ [.changeCipherSpec .plaintext changeCipherSpecRecord] }) := by
    unfold readHelloRecord orFail
    rw [bind_of_ok (onError_of_ok hread), bind_of_ok (onError_of_ok (lift_of_ok hparse s₁))]
    rfl
  conv_lhs => unfold helloLoop
  rw [bind_of_ok rfl, hpeek]
  dsimp only
  rw [bind_of_ok hrecord, hs₁.eq_onStream]
  rfl

/-- The state with a message in the deframer that came in a record of its own. -/
def holding (b : Bytes) (hlen : b.length ≤ 16384) (u : System P W) : System P W where
  client := { u.client with deframer := ⟨32768, b, hlen.trans (by decide)⟩ }
  world := u.world
  trace := u.trace ++ [.fragment .plaintext [] b]

/-- A hello in a record of its own comes into the empty deframer. -/
theorem helloLoop_read {config : ClientConfig} {sent : Bytes} {h : HelloLocals} {u : System P W}
    (hu : Greeted config sent h u.client) {stream : ℕ} (hstream : config.stream = some stream)
    {b : Bytes} (hlen : b.length ≤ 16384) (S : Segmentation) (ended : Option Error) {t : S.State}
    {tail : Bytes} (hleft : S.left t = plainRecord contentHandshake b ++ tail) :
    ∃ t' : S.State, S.left t' = tail ∧
      ∀ fuel, helloLoop (segmented S ended E) (fuel + 1) h (onStream t u) =
        helloLoop (segmented S ended E) fuel h (onStream t' (holding b hlen u)) := by
  have hpeek : (onStream t u).client.deframer.peek = .error .bufferTooSmall := by
    show u.client.deframer.peek = _
    rw [hu.deframer]
    rfl
  have hload : loadBe16 (plainRecord contentHandshake b) 3 = b.length := by
    show loadBe16 (contentHandshake :: 3 :: 3 :: (storeBe16 b.length ++ b)) 3 = _
    simp only [loadBe16, byteAt, storeBe16, List.cons_append, List.nil_append,
      List.getD_cons_succ, List.getD_cons_zero, UInt8.toNat_ofNat']
    omega
  have hrecord : IsRecord (plainRecord contentHandshake b) := by
    unfold IsRecord
    rw [hload]
    simp only [plainRecord, List.length_append, storeBe16_length, List.length_cons,
      List.length_nil]
  have hparse : parseRecordHeader (plainRecord contentHandshake b) =
      .ok ⟨contentHandshake, 0x0303, b.length⟩ :=
    parseRecordHeader_header contentHandshake b.length (by omega) b
  have hslice : slice (plainRecord contentHandshake b) 5 b.length = b := by
    unfold plainRecord
    rw [slice_append_right (n := 5) rfl]
    exact List.take_length
  have hconfig : u.client.config.stream = some stream := hu.configured.symm ▸ hstream
  obtain ⟨s₁, hread, hs₁⟩ := (over_onStream t u).readRecord ended E
  rw [hconfig, hleft, recordOf_record hrecord, hparse] at hread hs₁
  dsimp only at hread hs₁
  have hempty : s₁.client.deframer = .empty 32768 := by rw [hs₁.client, hu.deframer]
  have hroom : s₁.client.deframer.buffer.length + b.length ≤ s₁.client.deframer.capacity := by
    rw [hempty]
    show 0 + b.length ≤ 32768
    omega
  obtain ⟨⟨capacity, buffer, bound⟩, hcapacity, hbuffer, happend⟩ :=
    appendFragment_run .plaintext hroom
  rw [hempty] at hcapacity hbuffer happend
  dsimp only [HandshakeDeframer.empty] at hcapacity hbuffer happend
  rw [List.nil_append] at hbuffer
  subst hcapacity
  obtain rfl := hbuffer.symm
  refine ⟨s₁.world.1, hs₁.left, fun fuel => ?_⟩
  have hrun : readHelloRecord (segmented S ended E) (onStream t u) =
      some (.ok (), onStream s₁.world.1 (holding b hlen u)) := by
    unfold readHelloRecord orFail
    rw [bind_of_ok (onError_of_ok hread), bind_of_ok (onError_of_ok (lift_of_ok hparse s₁)),
      hslice]
    show onError (appendFragment .plaintext b) _ s₁ = _
    rw [onError_of_ok happend, hs₁.eq_onStream]
    rfl
  conv_lhs => unfold helloLoop
  rw [bind_of_ok rfl, hpeek]
  dsimp only
  rw [bind_of_ok hrun]

/-- A HelloRetryRequest for the other group. -/
theorem awaits_retry {config : ClientConfig} {s u : System P W} {heard sent : Bytes}
    {h : HelloLocals} (hu : Awaits E config s heard h u) (hgreeted : Greeted config sent h u.client)
    {group : NamedGroup} {hgroup : group = .x25519 ∨ group = .secp256r1} {cookie : Option Bytes}
    {hcookie : ∀ c, cookie = some c → c.length ≤ 512} (hE : Cooperates P E group)
    (hfits : HelloFits config) (husable : config.usable = true) (hfirst : h.hadHrr = false)
    (hother : group ≠ h.params.group) {m : HelloParts}
    (hm : m.OfKind (.retry group hgroup cookie hcookie))
    (hsession : m.sessionId = h.params.sessionId) (hlen : m.encode.length ≤ 16384) :
    ∃ h' ch u', buildClientHello h'.params 2048 = .ok ch ∧
      h'.params = { h.params with
        group := group, keyShare := h'.params.keyShare, cookie := cookie.getD [] } ∧
      Greeted config (messageHash (P.sha256 sent) ++ m.encode ++ ch) h' u'.client ∧
      Awaits E config s (heard ++ plainRecord contentHandshake m.encode) h' u' := by
  obtain ⟨-, stream, hstream⟩ := objects_of_usable husable
  have hparse := parseServerHello_profile.1 _ _ hm
  have hholding : Greeted config sent h
      { (holding m.encode hlen u).client with deframer := .empty 32768 } :=
    ⟨hgreeted.configured, hgreeted.state, hgreeted.transcript, rfl, hgreeted.share, hgreeted.group,
      hgreeted.session, hgreeted.random, hgreeted.name, hgreeted.offers, hgreeted.alpn,
      hgreeted.pending⟩
  obtain ⟨h', u', hrun, ch, hch, hsid, -, hparams, hgreeted'⟩ := retryHello_ok (m := m)
    hgroup hcookie hE hfits husable hholding hfirst hother rfl rfl
  refine ⟨h', ch, u', hch, hparams, hgreeted', hu.step 2 fun S ended t tail hleft => ?_⟩
  obtain ⟨t', hleft', hread⟩ := helloLoop_read (E := E) hgreeted hstream hlen S ended hleft
  have hretry : ((HelloKind.retry group hgroup cookie hcookie).info
    m.sessionId).helloRetryRequest = true := rfl
  refine ⟨t', hleft', fun fuel => ?_⟩
  rw [show fuel + 2 = fuel + 1 + 1 from rfl, hread (fuel + 1),
    helloLoop_message (m := m) rfl hparse (hsession.trans hgreeted.session), if_pos hretry]
  exact bind_of_ok (run_onStream (related_retryHello (joined_onStream t') h _ _) hrun)

/-- A ServerHello of the profile ends the hello loop. -/
theorem helloLoop_serverHello {config : ClientConfig} {sent tail : Bytes} {h : HelloLocals}
    {u : System P W} (hu : Greeted config sent h u.client) {stream : ℕ}
    (hstream : config.stream = some stream) {m : HelloParts} {random : FixedBytes 32}
    {fresh : random.val ≠ hrrRandom} {share : SupportedShare}
    (hm : m.OfKind (.serverHello random fresh share)) (hsession : m.sessionId = h.params.sessionId)
    (hlen : m.encode.length ≤ 16384) (S : Segmentation) (ended : Option Error) {t : S.State}
    (hleft : S.left t = plainRecord contentHandshake m.encode ++ tail) :
    ∃ (t' : S.State) (evs : List Event), S.left t' = tail ∧ ∀ fuel,
      helloLoop (segmented S ended E) (fuel + 2) h (onStream t u) =
        some (.ok ((HelloKind.serverHello random fresh share).info m.sessionId, h),
          onStream t' ⟨{ u.client with
              transcript := P.shaUpdate P.shaReset (sent ++ m.encode)
              deframer := .empty 32768 }, u.world, u.trace ++ evs⟩) := by
  have hparse := parseServerHello_profile.1 _ _ hm
  obtain ⟨t', hleft', hread⟩ := helloLoop_read (E := E) hu hstream hlen S ended hleft
  refine ⟨t', [.fragment .plaintext [] m.encode, .serverHello m.encode
    ((HelloKind.serverHello random fresh share).info m.sessionId)], hleft', fun fuel => ?_⟩
  rw [show fuel + 2 = fuel + 1 + 1 from rfl, hread (fuel + 1),
    helloLoop_message (m := m) rfl hparse (hsession.trans hu.session),
    if_neg (by simp [HelloKind.info]), bind_of_ok (a := ()) rfl,
    bind_of_ok (consumeHello_ok (m := m) rfl rfl)]
  have htranscript : transcriptUpdate P u.client.transcript m.encode =
      P.shaUpdate P.shaReset (sent ++ m.encode) := by
    rw [transcriptUpdate_eq, hu.transcript, P.shaUpdate_append]
  rw [← htranscript, List.append_cons]
  rfl

/-! ## The handshake keys -/

/-- The handshake keys are those of the standard over the client's empty PSK. -/
theorem deriveHandshakeKeys_ok (E : Env W) (info : ServerHelloInfo) {shared : FixedBytes 32}
    {hello : Bytes} {s : System P W}
    (htranscript : s.client.transcript = P.shaUpdate P.shaReset hello)
    (hshared : sharedSecret P info.group s.client.privateKey info.keyShare = .ok shared)
    (flight : Bytes) :
    ∃ schedule evs, deriveHandshakeKeys E info info.group s = some (.ok (), ⟨{ s.client with
        deframer := s.client.deframer.reset
        schedule := schedule
        clientHsKeys := Standard.trafficKeys (Standard.digest P)
          (Standard.trafficSecrets (Standard.digest P) [] shared.val hello flight).clientHandshake
        serverHsKeys := Standard.trafficKeys (Standard.digest P)
          (Standard.trafficSecrets (Standard.digest P) [] shared.val hello
            flight).serverHandshake },
        s.world, s.trace ++ evs⟩) ∧
      schedule.handshakeSecret.val = Standard.handshakeSecret (Standard.digest P) [] shared.val ∧
      schedule.clientHandshakeTrafficSecret.val =
        (Standard.trafficSecrets (Standard.digest P) [] shared.val hello flight).clientHandshake ∧
      schedule.serverHandshakeTrafficSecret.val =
        (Standard.trafficSecrets (Standard.digest P) [] shared.val hello
          flight).serverHandshake := by
  obtain ⟨schedule, hschedule⟩ :=
    (s.client.schedule.deriveEarlySecret P []).deriveHandshakeSecret_isOk P shared.val
      (P.sha256 hello)
  have hsteps : HandshakeSchedule P s.client.schedule shared hello schedule := hschedule
  obtain ⟨hsecret, hclient, hserver⟩ := handshakeSchedule_eq flight hsteps
  obtain ⟨clientKeys, hclientKeys, -⟩ :=
    deriveTrafficKeysSha256_isOk P schedule.clientHandshakeTrafficSecret
  obtain ⟨serverKeys, hserverKeys, -⟩ :=
    deriveTrafficKeysSha256_isOk P schedule.serverHandshakeTrafficSecret
  have hagree : computeShared (P := P) s.client.privateKey info = .ok shared := hshared
  have hsnapshot : transcriptSnapshot P s.client.transcript = P.sha256 hello := by
    rw [htranscript]
    rfl
  refine ⟨schedule, [.sharedSecret s.client.privateKey shared, .keysDerived .clientHs clientKeys,
    .keysDerived .serverHs serverKeys, .readKeysChanged .handshake s.client.deframer.buffer], ?_,
    hsecret, hclient, hserver⟩
  rw [← hclient, ← hserver, ← trafficKeys_eq hclientKeys, ← trafficKeys_eq hserverKeys]
  unfold deriveHandshakeKeys
  rw [bind_of_ok rfl, bind_of_ok rfl, if_neg (fun h => h rfl), bind_of_ok rfl,
    bind_of_ok (orFail_of_ok E (lift_of_ok hagree _)), bind_of_ok rfl, bind_of_ok rfl,
    bind_of_ok rfl]
  dsimp only
  rw [hsnapshot, bind_of_ok (orFail_of_ok E (lift_of_ok hschedule _)), bind_of_ok rfl,
    bind_of_ok (orFail_of_ok E (deriveKeys_run .clientHs hclientKeys _)),
    bind_of_ok (orFail_of_ok E (deriveKeys_run .serverHs hserverKeys _))]
  unfold emit afterDerive TlsClient.setKeys
  simp only [List.append_assoc, List.cons_append, List.nil_append]

end XboxTls.Analysis
