import XboxTls.Analysis.HonestHandshake
import XboxTls.Analysis.RepeatedExtensions

/-!
# A flight that does not fit the deframer

Two ways of cutting a flight give the same result, unless a record finds too much of an unfinished
message in the reassembly buffer (`connect_same_unless_full`).  A server of the profile with a
long EncryptedExtensions message shows that this happens: `connect` succeeds or fails with the way
its flight is cut (`connect_depends_on_cut`).
-/

set_option autoImplicit false

namespace XboxTls.Analysis

open Programs Programs.Prog XboxTls.Model XboxTls.Interface

variable {P : Crypto} {W : Type} {E : Env W} {S : Segmentation} {ended : Option Error}

/-! ## Two ways of cutting -/

/-- A client that can be reached, and a server that sends `plain` and then the messages sealed
with the keys that the client has derived: `connect` does the same for every two ways of cutting
the messages into records, on streams that hand out their bytes in any pieces, unless a record of
one of them finds more of an unfinished message in the reassembly buffer than leaves room for it;
for that one `connect` reports that the buffer is too small. -/
theorem connect_same_unless_full (S₁ S₂ : Segmentation) (ended : Option Error) (E : Env W)
    (config : ClientConfig) {c : TlsClient P} (hreach : ReachableClient c) (trace : List Event)
    (w : W) {plain : List Bytes} (hplain : ∀ record ∈ plain, IsPlain record)
    {messages : List OutgoingMessage} {cut₁ cut₂ : List FlightRecord} (h₁ : Cuts messages cut₁)
    (h₂ : Cuts messages cut₂) {keys : TrafficKeys} {a : S₁.State} {b : S₂.State}
    (ha : S₁.left a = plain.flatten ++ sealFlight P keys cut₁)
    (hb : S₂.left b = plain.flatten ++ sealFlight P keys cut₂)
    (hkeys : ∀ fuel s, helloPhase (segmented S₁ ended E) fuel config ⟨c, (a, w), trace⟩ =
      some (.ok (), s) → s.client.serverHsKeys = keys) (r : Except Error Bytes) :
    (∀ s, Returns (segmented S₁ ended E) (.connect config) ⟨c, (a, w), trace⟩ r s →
      (∃ t, Returns (segmented S₂ ended E) (.connect config) ⟨c, (b, w), trace⟩ r t ∧
        uncut s.client = uncut t.client ∧ s.world.2 = t.world.2) ∨
      (¬ HasRoom messages cut₁ ∧ r = .error .bufferTooSmall) ∨
      ¬ HasRoom messages cut₂ ∧ ∃ t, Returns (segmented S₂ ended E) (.connect config)
        ⟨c, (b, w), trace⟩ (.error .bufferTooSmall) t) ∧
    ∀ t, Returns (segmented S₂ ended E) (.connect config) ⟨c, (b, w), trace⟩ r t →
      (∃ s, Returns (segmented S₁ ended E) (.connect config) ⟨c, (a, w), trace⟩ r s ∧
        uncut s.client = uncut t.client ∧ s.world.2 = t.world.2) ∨
      (¬ HasRoom messages cut₂ ∧ r = .error .bufferTooSmall) ∨
      ¬ HasRoom messages cut₁ ∧ ∃ s, Returns (segmented S₁ ended E) (.connect config)
        ⟨c, (a, w), trace⟩ (.error .bufferTooSmall) s := by
  have halike : Alike (Streams (Before plain (sealFlight P keys cut₁) (sealFlight P keys cut₂)))
      (⟨c, (a, w), trace⟩ : System P (S₁.State × W)) ⟨c, (b, w), trace⟩ :=
    ⟨rfl, rfl, ⟨ha, hb⟩, rfl⟩
  have hcoupled : ∀ fuel, plain.length + cut₁.length + cut₂.length + 1 ≤ fuel →
      CoupledUnless .bufferTooSmall (¬ HasRoom messages cut₁) (¬ HasRoom messages cut₂)
        (fun _ => SameUncut)
        (Call.run (segmented S₁ ended E) fuel (.connect config) ⟨c, (a, w), trace⟩)
        (Call.run (segmented S₂ ended E) fuel (.connect config) ⟨c, (b, w), trace⟩) :=
    fun fuel => coupled_connectCall h₁ h₂ hplain (stored_of_reachable hreach)
      (fun fuel _ s hrun => hkeys fuel s hrun) halike
  exact ⟨fun s hs => returns_of_coupled _ hcoupled hs,
    fun t ht => returns_of_coupled _ (fun fuel hfuel => (hcoupled fuel hfuel).symm) ht⟩

/-- A flight in one record that arrives as it is asked for, and in two that arrive byte by byte:
both handshakes end with the same keys. -/
theorem connect_same_unless_full_split :
    ∃ s t, Returns (segmented (pieces 16645 (Nat.succ_pos _)) none scriptEnv)
        (.connect (scriptConfig 0)) (beforeFlight wholeCut) (.ok []) s ∧
      Returns (segmented (pieces 1 Nat.one_pos) none scriptEnv) (.connect (scriptConfig 0))
        (beforeFlight splitCut) (.ok []) t ∧
      s.client.schedule = t.client.schedule ∧ s.client.clientAppKeys = t.client.clientAppKeys ∧
      s.client.serverAppKeys = t.client.serverAppKeys := by
  have hroom := hasRoom_of_small cuts_splitCut (by decide)
  obtain ⟨s, hs, -⟩ := returns_wholeCut
  obtain ⟨t, ht, hsame, -⟩ | ⟨-, herror⟩ | ⟨hfull, -⟩ := (connect_same_unless_full _
    (pieces 1 Nat.one_pos) none scriptEnv (scriptConfig 0) reachable_blank [] []
    isPlain_scriptServerHello cuts_wholeCut cuts_splitCut rfl rfl keys_wholeCut (.ok [])).1 s hs
  · have hview : ∀ {β : Type} (f : TlsClient blankCrypto → β), (∀ c, f (uncut c) = f c) →
        f s.client = f t.client := by
      intro β f hf
      rw [← hf s.client, hsame, hf]
    exact ⟨s, t, hs, ht, hview TlsClient.schedule fun _ => rfl,
      hview TlsClient.clientAppKeys fun _ => rfl, hview TlsClient.serverAppKeys fun _ => rfl⟩
  · cases herror
  · exact absurd hroom hfull

/-! ## Records that do not fit -/

/-- The first records hold a part of a message, and the next one is too long for what is left of
the buffer.  The induction is on the records before it. -/
theorem flightLoop_full (ended : Option Error) (E : Env W) {stream : ℕ} {m : OutgoingMessage}
    {r : FlightRecord} {after : List FlightRecord} {rest more : Bytes}
    (before : List FlightRecord) (fuel : ℕ)
    {l : FlightLocals} {D : HandshakeDeframer} {keys : TrafficKeys} {s : System P (S.State × W)}
    {t : System P W} (hs : Beside D keys (sealFlight P keys (before ++ r :: after) ++ rest) s t)
    (hstream : t.client.config.stream = some stream) (hl : l.gotFinished = false)
    (hcapacity : D.capacity = 32768) (hpart : D.buffer ++ contents before ++ more = m.encode)
    (hmore : more ≠ []) (hfits : D.buffer.length + (contents before).length ≤ 32768)
    (hover : 32768 < D.buffer.length + (contents before).length + r.content.length)
    (hfrag : ∀ r' ∈ before ++ r :: after, fragLength r'.content r'.padding ≤ 16640)
    (hfuel : before.length < fuel) :
    ∃ s', flightLoop (segmented S ended E) fuel l s = some (.error .bufferTooSmall, s') := by
  induction before generalizing D keys fuel s t with
  | nil =>
    obtain ⟨fuel, rfl⟩ := Nat.exists_eq_succ_of_ne_zero (Nat.ne_of_gt hfuel)
    rw [List.nil_append, sealFlight, List.append_assoc] at hs
    obtain ⟨s', hround⟩ := flightRound_overflow ended E l hs hstream
      (hfrag r List.mem_cons_self) (hcapacity.trans_lt hover)
    unfold flightLoop
    rw [if_neg (by rw [hl]; exact Bool.false_ne_true)]
    exact ⟨s', bind_of_error hround⟩
  | cons r' before ih =>
    obtain ⟨fuel, rfl⟩ := Nat.exists_eq_succ_of_ne_zero (Nat.ne_of_gt (Nat.zero_lt_of_lt hfuel))
    have hcontents : contents (r' :: before) = r'.content ++ contents before := rfl
    rw [hcontents, List.length_append] at hfits hover
    rw [hcontents] at hpart
    rw [List.cons_append, sealFlight, List.append_assoc] at hs
    obtain ⟨D', s₁, hcapacity', hbuffer', hs₁, hround⟩ := flightRound_sealed ended E l hs hstream
      (hfrag r' List.mem_cons_self) (by omega)
    -- the message is not whole yet, so that nothing is taken
    have hheld : D'.buffer ++ (contents before ++ more) = m.encode := by
      rw [hbuffer', ← hpart]
      simp only [List.append_assoc]
    have hpeek : s₁.client.deframer.peek = .error .bufferTooSmall := by
      rw [hs₁.client]
      unfold HandshakeDeframer.peek
      rw [parseHandshakeMessage_part m hheld fun hnil => hmore (List.append_eq_nil_iff.mp hnil).2]
      rfl
    have hdrain : drainFlight (segmented S ended E) (D'.buffer.length + 1) l s₁ =
        some (.ok l, s₁) := by
      unfold drainFlight
      rw [bind_of_ok rfl, hpeek]
      rfl
    have hlength := congrArg List.length hbuffer'
    rw [List.length_append] at hlength
    unfold flightLoop
    rw [if_neg (by rw [hl]; exact Bool.false_ne_true), bind_of_ok (hround.trans hdrain)]
    refine ih fuel hs₁ hstream (hcapacity'.trans hcapacity) ?_ (by omega) (by omega)
      (fun r'' hr => hfrag r'' (List.mem_cons_of_mem _ hr)) (Nat.lt_of_succ_lt_succ hfuel)
    rw [List.append_assoc, hheld]

/-- A client that waits for a server fails when its flight begins with records of that kind. -/
theorem Awaits.overflows {config : ClientConfig} {s u : System P W} {heard sent more : Bytes}
    {h : HelloLocals} (hu : Awaits E config (startOf config s) heard h u) (rest : Bytes)
    (husable : config.usable = true) (hidle : s.client.state = .idle)
    (hgreeted : Greeted config sent h u.client) {server : Server} {reply : Reply}
    {shared : FixedBytes 32} (hagree : KeysAgree P h.params.group)
    (hreplies : server.Replies P h.params sent shared reply) {m : OutgoingMessage}
    {r : FlightRecord} {before after : List FlightRecord}
    (hpart : contents before ++ more = m.encode) (hmore : more ≠ [])
    (hfits : (contents before).length ≤ 32768)
    (hover : 32768 < (contents before).length + r.content.length)
    (hfrag : ∀ r' ∈ before ++ r :: after, fragLength r'.content r'.padding ≤ 16640)
    (S : Segmentation) (ended : Option Error) {t : S.State}
    (hleft : S.left t = heard ++ (List.replicate reply.before changeCipherSpecRecord).flatten ++
      (plainRecord contentHandshake reply.hello.encode ++
        (sealFlight P (Standard.trafficKeys (Standard.digest P)
          (server.secrets P shared (sent ++ reply.hello.encode)).serverHandshake)
          (before ++ r :: after) ++ rest))) :
    ∃ s', Returns (segmented S ended E) (.connect config) (onStream t s) (.error .bufferTooSmall)
      s' := by
  obtain ⟨-, stream, hstream⟩ := objects_of_usable husable
  obtain ⟨rounds, t', v, hleft', hkeyed, hphase⟩ := hu.helloPhase husable hidle hgreeted hagree
    hreplies S ended hleft
  rw [← hkeyed.serverKeys] at hleft'
  have hempty : v.client.deframer.buffer = [] := by
    rw [hkeyed.deframer]
    rfl
  obtain ⟨s₁, hloop⟩ := flightLoop_full ended E (D := v.client.deframer) before
    (before.length + 1 + rounds) (l := ⟨false, ⟨[], []⟩, false⟩) (s := onStream t' v) (t := v)
    ⟨rfl, rfl, hleft'⟩ (hkeyed.configured.symm ▸ hstream) rfl (by rw [hkeyed.deframer]; rfl)
    (by rw [hempty]; exact hpart) hmore (by rw [hempty]; simpa using hfits)
    (by rw [hempty]; simpa using hover) hfrag (by omega)
  have hflight : processServerHandshake (segmented S ended E) (before.length + 1 + rounds)
      (onStream t' v) = some (.error .bufferTooSmall, s₁) := bind_of_error hloop
  have hconnect : connect (segmented S ended E) (before.length + 1 + rounds) config
      (onStream t s) =
        some (.error .bufferTooSmall, afterEnd (segmented S ended E) .failed s₁) := by
    rw [connect_eq, bind_of_ok (hphase _)]
    unfold orFail
    rw [bind_apply, onError_of_error hflight, failWith_apply]
  exact ⟨_, before.length + 1 + rounds, bind_of_error hconnect⟩

/-! ## Records of given sizes -/

/-- The bytes in records of these sizes, the rest in one more record. -/
def cutInto : List ℕ → Bytes → List FlightRecord
  | [], b => [⟨b, 0⟩]
  | n :: sizes, b => ⟨b.take n, 0⟩ :: cutInto sizes (b.drop n)

/-- The records hold the bytes. -/
theorem contents_cutInto (sizes : List ℕ) (b : Bytes) : contents (cutInto sizes b) = b := by
  induction sizes generalizing b with
  | nil => exact List.append_nil b
  | cons n sizes ih =>
    have hcontents : contents (cutInto (n :: sizes) b) =
        b.take n ++ contents (cutInto sizes (b.drop n)) := rfl
    rw [hcontents, ih, List.take_append_drop]

/-- Four records of given sizes, the third apart. -/
theorem cutInto_three (i j k : ℕ) (b : Bytes) :
    cutInto [i, j, k] b = [⟨b.take i, 0⟩, ⟨(b.drop i).take j, 0⟩] ++
      ⟨((b.drop i).drop j).take k, 0⟩ :: [⟨((b.drop i).drop j).drop k, 0⟩] := rfl

/-- Two records hold the front of the bytes. -/
theorem contents_front (i j : ℕ) (b : Bytes) :
    contents [⟨b.take i, 0⟩, ⟨(b.drop i).take j, 0⟩] = b.take (i + j) := by
  rw [List.take_add]
  exact congrArg (b.take i ++ ·) (List.append_nil _)

/-- No record is empty or longer than `bound`. -/
theorem size_cutInto {bound : ℕ} (sizes : List ℕ) {b : Bytes}
    (hsizes : ∀ n ∈ sizes, 1 ≤ n ∧ n ≤ bound) (hlo : sizes.sum < b.length)
    (hhi : b.length ≤ sizes.sum + bound) :
    ∀ r ∈ cutInto sizes b, r.padding = 0 ∧ 1 ≤ r.content.length ∧ r.content.length ≤ bound := by
  induction sizes generalizing b with
  | nil =>
    intro r hr
    rw [cutInto, List.mem_singleton] at hr
    subst hr
    rw [List.sum_nil] at hlo hhi
    exact ⟨rfl, hlo, hhi.trans (Nat.zero_add bound).le⟩
  | cons n sizes ih =>
    have hn := hsizes n List.mem_cons_self
    rw [List.sum_cons] at hlo hhi
    intro r hr
    rw [cutInto, List.mem_cons] at hr
    obtain rfl | hr := hr
    · refine ⟨rfl, ?_⟩
      dsimp only
      rw [List.length_take]
      omega
    · refine ih (fun m hm => hsizes m (List.mem_cons_of_mem _ hm)) ?_ ?_ r hr
      · rw [List.length_drop]
        omega
      · rw [List.length_drop]
        omega

/-- Records of these sizes cut the messages. -/
theorem cuts_cutInto {messages : List OutgoingMessage} {sizes : List ℕ}
    (hsizes : ∀ n ∈ sizes, 1 ≤ n ∧ n ≤ 16384) (hlo : sizes.sum < (flightBytes messages).length)
    (hhi : (flightBytes messages).length ≤ sizes.sum + 16384) :
    Cuts messages (cutInto sizes (flightBytes messages)) where
  contents := contents_cutInto sizes _
  size r hr := (size_cutInto sizes hsizes hlo hhi r hr).2
  padding r hr := by
    obtain ⟨hpadding, -, hsize⟩ := size_cutInto sizes hsizes hlo hhi r hr
    rw [hpadding]
    omega

/-- Records of at most 8192 bytes have room beside messages of at most 24576. -/
theorem hasRoom_of_short {messages : List OutgoingMessage} {cut : List FlightRecord}
    (hmessages : ∀ m ∈ messages, m.encode.length ≤ 24576)
    (hcut : ∀ r ∈ cut, r.content.length ≤ 8192) : HasRoom messages cut := by
  rintro before r after done m todo held rfl rfl - hheld
  have hm := hmessages m (List.mem_append_right _ List.mem_cons_self)
  have hr := hcut r (List.mem_append_right _ List.mem_cons_self)
  omega

/-! ## A server with a long flight -/

/-- The data of the extension fits. -/
theorem largeExtension_fits : (List.replicate 24566 (0 : UInt8)).length < 65536 := by
  rw [List.length_replicate]
  decide

/-- An extension that no client knows. -/
def largeExtension : RawExtension :=
  ⟨0xFFFF, List.replicate 24566 0, by decide, largeExtension_fits⟩

/-- The length of the extension. -/
theorem largeExtension_length : (RawExtension.encodeAll [largeExtension]).length = 24570 := by
  have hall : RawExtension.encodeAll [largeExtension] = largeExtension.encode :=
    List.append_nil _
  have hbody : largeExtension.body.length = 24566 := List.length_replicate
  rw [hall, RawExtensions.encode_length, hbody]

/-- The length of the body with it. -/
theorem largeBody_length : (encodeExtensions [largeExtension]).length = 24572 := by
  unfold encodeExtensions
  rw [List.length_append, storeBe16_length, largeExtension_length]

/-- The body fits a message. -/
theorem largeBody_fits : (encodeExtensions [largeExtension]).length ≤ 0xFFFFFF := by
  rw [largeBody_length]
  decide

/-- The signature fits a message. -/
theorem largeSignature_fits : ∀ _ : Bytes, (List.replicate 16376 (0 : UInt8)).length ≤ 0xFFFF := by
  intro _
  rw [List.length_replicate]
  decide

/-- A server with EncryptedExtensions of 24576 bytes and a long signature. -/
def largeServer : Server where
  __ := onceServer
  extensions := ⟨hsEncryptedExtensions, encodeExtensions [largeExtension], largeBody_fits⟩
  sign _ := List.replicate 16376 0
  signBound := largeSignature_fits

/-- The client takes what the server shows. -/
theorem largeServer_shows : largeServer.Shows agreeingEnv onceConfig where
  extensions := rfl
  selects := by
    refine (parseEncryptedExtensions_iff _ _).mpr ⟨[largeExtension], rfl, ?_, rfl, ?_, rfl⟩
    · rw [largeExtension_length]
      decide
    · intro e he htype
      rw [List.mem_singleton.mp he] at htype
      cases htype
  alpnBound := by
    intro name hname
    cases hname
  certificate := rfl
  certificateBound := onceServer_shows.certificateBound
  signs _ hnil := by
    have hlength := congrArg List.length hnil
    rw [show largeServer.sign _ = List.replicate 16376 0 from rfl, List.length_replicate] at hlength
    cases hlength
  accepted := by
    obtain ⟨info, chain, leaf, scheme, verifier, hostname, hverifier, hhostname, hparse, hchain,
      hleaf, hname, hscheme, hkind, haccepts, -⟩ := onceServer_shows.accepted
    exact ⟨info, chain, leaf, scheme, verifier, hostname, hverifier, hhostname, hparse, hchain,
      hleaf, hname, hscheme, hkind, haccepts, fun _ w => ⟨w, rfl⟩⟩

/-- Its flight, the same behind every hello. -/
def largeFlight : List OutgoingMessage := largeServer.messages agreeingCrypto (.zero 32) []

/-- The lengths of its messages. -/
theorem largeFlight_lengths :
    largeFlight.map (fun m => m.encode.length) = [24576, 178, 16384, 36] := by
  have hextensions : largeServer.extensions.encode.length = 24576 := by
    rw [outgoingMessage_length]
    exact congrArg (· + 4) largeBody_length
  have hcertificate : largeServer.certificate.encode.length = 178 := by decide +kernel
  have hverify : ∀ hello, (largeServer.certificateVerify agreeingCrypto hello).encode.length =
      16384 := by
    intro hello
    have hsign : ∀ content, (largeServer.sign content).length = 16376 := fun _ =>
      List.length_replicate
    rw [outgoingMessage_length]
    simp only [Server.certificateVerify, List.length_append, storeBe16_length, hsign]
  have hfinished : ∀ secret hello, (finishedOf agreeingCrypto secret hello).encode.length = 36 := by
    intro secret hello
    rw [outgoingMessage_length]
    exact congrArg (· + 4) (Standard.verifyData_length agreeingCrypto secret hello)
  simp only [largeFlight, Server.messages, Server.flight, Server.signedFlight, List.cons_append,
    List.nil_append, List.map_cons, List.map_nil, hextensions, hcertificate, hverify, hfinished]

/-- No message is longer than 24576 bytes. -/
theorem largeFlight_bound : ∀ m ∈ largeFlight, m.encode.length ≤ 24576 := by
  intro m hm
  have hlength := List.mem_map_of_mem (f := fun m : OutgoingMessage => m.encode.length) hm
  rw [largeFlight_lengths] at hlength
  simp only [List.mem_cons, List.not_mem_nil, or_false] at hlength
  omega

/-- The length of the flight. -/
theorem largeFlight_length : (flightBytes largeFlight).length = 41174 := by
  unfold flightBytes
  rw [List.length_flatMap, largeFlight_lengths]
  rfl

/-- The flight in records of 8192 bytes. -/
def evenCut : List FlightRecord :=
  cutInto [8192, 8192, 8192, 8192, 8192] (flightBytes largeFlight)

/-- The flight in records such that all but the last byte of the first message is in front of a
full record. -/
def longCut : List FlightRecord := cutInto [16384, 8191, 16384] (flightBytes largeFlight)

/-- The short records cut the flight. -/
theorem cuts_evenCut : Cuts largeFlight evenCut :=
  cuts_cutInto (by decide) (by rw [largeFlight_length]; decide)
    (by rw [largeFlight_length]; decide)

/-- So do the long ones. -/
theorem cuts_longCut : Cuts largeFlight longCut :=
  cuts_cutInto (by decide) (by rw [largeFlight_length]; decide)
    (by rw [largeFlight_length]; decide)

/-- The short records have room. -/
theorem hasRoom_evenCut : HasRoom largeFlight evenCut := by
  refine hasRoom_of_short largeFlight_bound fun r hr => ?_
  exact (size_cutInto _ (by decide) (by rw [largeFlight_length]; decide)
    (by rw [largeFlight_length]; decide) r hr).2.2

/-- The keys of the server are zero as well. -/
theorem keys_largeServer (hello : Bytes) : Standard.trafficKeys (Standard.digest agreeingCrypto)
    (largeServer.secrets agreeingCrypto (.zero 32) hello).serverHandshake = blankKeys := rfl

/-- A reply without change_cipher_spec is the ServerHello and the flight. -/
theorem replyBytes_largeServer (sent : Bytes) {reply : Reply} {cut : List FlightRecord}
    (hbefore : reply.before = 0) (hafter : reply.after = 0) (hcut : reply.cut = cut) :
    largeServer.replyBytes agreeingCrypto sent (.zero 32) reply =
      plainRecord contentHandshake reply.hello.encode ++
        sealFlight agreeingCrypto blankKeys cut := by
  unfold Server.replyBytes
  rw [hbefore, hafter, hcut, keys_largeServer]
  simp only [List.replicate_zero, List.flatten_nil, List.nil_append]

/-- The fresh client, with records and then the flight in front of it. -/
def beforeLarge (plain : List Bytes) (cut : List FlightRecord) :
    System agreeingCrypto (Bytes × Bytes) :=
  ⟨.initial agreeingCrypto, (plain.flatten ++ sealFlight agreeingCrypto blankKeys cut, []), []⟩

/-- A client that waits for the server fails on the long records. -/
theorem Awaits.overflows_longCut {u : System agreeingCrypto Bytes} {sent : Bytes}
    {h : HelloLocals} (hu : Awaits agreeingEnv onceConfig
      (startOf onceConfig ⟨.initial agreeingCrypto, [], []⟩) [] h u)
    (hgreeted : Greeted onceConfig sent h u.client) (hgroup : h.params.group = .x25519)
    {reply : Reply} (hreplies : largeServer.Replies agreeingCrypto h.params sent (.zero 32) reply)
    (hbefore : reply.before = 0) :
    ∃ s', Returns (segmented (pieces 16645 (Nat.succ_pos _)) none agreeingEnv) (.connect onceConfig)
      (beforeLarge [plainRecord contentHandshake reply.hello.encode] longCut)
      (.error .bufferTooSmall) s' := by
  have hextensions : largeServer.extensions.encode.length = 24576 :=
    (outgoingMessage_length _).trans (congrArg (· + 4) largeBody_length)
  have hfront : (flightBytes largeFlight).take 24575 =
      largeServer.extensions.encode.take 24575 := by
    have hmessages : flightBytes largeFlight =
        largeServer.extensions.encode ++ flightBytes largeFlight.tail := rfl
    rw [hmessages, List.take_append_of_le_length (by omega)]
  have hcuts := cuts_longCut
  have hlength := largeFlight_length
  unfold longCut at hcuts ⊢
  rw [cutInto_three] at hcuts ⊢
  generalize flightBytes largeFlight = b at hfront hlength hcuts ⊢
  have hpart : contents [⟨b.take 16384, 0⟩, ⟨(b.drop 16384).take 8191, 0⟩] =
      largeServer.extensions.encode.take 24575 := by
    rw [contents_front, ← hfront]
  refine hu.overflows [] rfl rfl hgreeted (hgroup ▸ keysAgree_agreeingCrypto) hreplies
    (by rw [hpart, List.take_append_drop]) ?_ ?_ ?_ hcuts.padding _ none ?_
  · intro hnil
    have hlast := congrArg List.length hnil
    rw [List.length_drop, hextensions] at hlast
    cases hlast
  · rw [contents_front, List.length_take]
    omega
  · simp only [contents_front, List.length_take, List.length_drop, hlength]
    omega
  · rw [hbefore, List.append_nil, keys_largeServer, List.flatten_singleton]
    rfl

/-- The same client takes the flight in short records. -/
theorem Awaits.takes_evenCut {u : System agreeingCrypto Bytes} {sent : Bytes} {h : HelloLocals}
    (hu : Awaits agreeingEnv onceConfig
      (startOf onceConfig ⟨.initial agreeingCrypto, [], []⟩) [] h u)
    (hgreeted : Greeted onceConfig sent h u.client) (hgroup : h.params.group = .x25519)
    {reply : Reply} (hreplies : largeServer.Replies agreeingCrypto h.params sent (.zero 32) reply)
    (hbefore : reply.before = 0) (hafter : reply.after = 0) (hcut : reply.cut = evenCut) :
    ∃ s', Returns (segmented (pieces 16645 (Nat.succ_pos _)) none agreeingEnv) (.connect onceConfig)
      (beforeLarge [plainRecord contentHandshake reply.hello.encode] evenCut) (.ok []) s' := by
  have hstart : ∀ bytes : Bytes,
      bytes = [] ++ largeServer.replyBytes agreeingCrypto sent (.zero 32) reply ++ [] →
      ∃ s', Returns (segmented (pieces 16645 (Nat.succ_pos _)) none agreeingEnv)
        (.connect onceConfig) ⟨.initial agreeingCrypto, (bytes, []), []⟩ (.ok []) s' := by
    intro bytes hbytes
    obtain ⟨s', hs', -⟩ := hu.completes (cooperates_agreeingEnv .x25519).toAccepting rfl rfl
      hgreeted (pieces 16645 (Nat.succ_pos _)) none bytes largeServer reply (.zero 32) []
      (hgroup ▸ keysAgree_agreeingCrypto) largeServer_shows hreplies hbytes
    exact ⟨s', hs'⟩
  refine hstart _ ?_
  rw [replyBytes_largeServer sent hbefore hafter hcut, List.append_nil, List.nil_append,
    List.flatten_singleton]

/-- Behind the hello of the server, `connect` takes the flight in short records and fails on it in
long ones. -/
def CutDecides (heard : Bytes) (p : ClientHelloParams) (sent : Bytes) : Prop :=
  heard = [] → p.group = .x25519 → ∀ reply,
    largeServer.Replies agreeingCrypto p sent (.zero 32) reply → reply.before = 0 →
    reply.after = 0 → reply.cut = evenCut →
    (∃ s, Returns (segmented (pieces 16645 (Nat.succ_pos _)) none agreeingEnv)
      (.connect onceConfig)
      (beforeLarge [plainRecord contentHandshake reply.hello.encode] evenCut) (.ok []) s) ∧
    ∃ s, Returns (segmented (pieces 16645 (Nat.succ_pos _)) none agreeingEnv)
      (.connect onceConfig)
      (beforeLarge [plainRecord contentHandshake reply.hello.encode] longCut)
      (.error .bufferTooSmall) s

/-- A ServerHello is a record in the clear. -/
theorem isPlain_hello {b : Bytes} (hb : b.length < 65536) :
    IsPlain (plainRecord contentHandshake b) := by
  have hlength : (plainRecord contentHandshake b).length = 5 + b.length := by
    unfold plainRecord
    rw [List.length_append, List.length_append, storeBe16_length]
    rfl
  have hload : loadBe16 (plainRecord contentHandshake b) 3 = b.length := by
    have hdrop := loadBe16_drop (plainRecord contentHandshake b) 3 0
    rw [← hdrop]
    exact loadBe16_storeBe16 _ hb _
  refine ⟨by unfold IsRecord; rw [hlength, hload], ?_⟩
  show contentHandshake ≠ contentApplicationData
  decide

/-- **The way of cutting matters.**  A server with messages of at most 24576 bytes: with its flight
in records of 8192 bytes the handshake completes, and with all but the last byte of its first
message in front of a full record it fails. -/
theorem connect_depends_on_cut :
    ∃ plain : List Bytes, (∀ record ∈ plain, IsPlain record) ∧
      (∀ m ∈ largeFlight, m.encode.length ≤ 24576) ∧
      Cuts largeFlight evenCut ∧ Cuts largeFlight longCut ∧
      (∃ s, Returns (segmented (pieces 16645 (Nat.succ_pos _)) none agreeingEnv)
        (.connect onceConfig) (beforeLarge plain evenCut) (.ok []) s) ∧
      ∃ s, Returns (segmented (pieces 16645 (Nat.succ_pos _)) none agreeingEnv)
        (.connect onceConfig) (beforeLarge plain longCut) (.error .bufferTooSmall) s := by
  have husable : onceConfig.usable = true := rfl
  have hdecides : ∀ heard sent h u, Awaits agreeingEnv onceConfig
      (startOf onceConfig ⟨.initial agreeingCrypto, [], []⟩) heard h u →
      Greeted onceConfig sent h u.client → CutDecides heard h.params sent := by
    rintro _ sent h u hu hgreeted rfl hgroup reply hreplies hbefore hafter hcut
    exact ⟨hu.takes_evenCut hgreeted hgroup hreplies hbefore hafter hcut,
      hu.overflows_longCut hgreeted hgroup hreplies hbefore⟩
  obtain ⟨p, ch, hoffers, hboth, -⟩ := waits_behind_hellos agreeingEnv husable (.inl rfl)
    helloFits_onceConfig cooperates_agreeingEnv (stored_of_reachable reachable_initial) hdecides
  obtain ⟨reply, hreplies, hbefore, hafter, hcut⟩ := replies_agreeingCrypto largeServer rfl rfl
    cuts_evenCut hasRoom_evenCut 0 hoffers
  have hshort := hreplies.short
  refine ⟨[plainRecord contentHandshake reply.hello.encode], ?_, largeFlight_bound, cuts_evenCut,
    cuts_longCut, hboth rfl hoffers.group reply hreplies hbefore hafter hcut⟩
  intro record hrecord
  rw [List.mem_singleton.mp hrecord]
  exact isPlain_hello (by omega)

end XboxTls.Analysis
