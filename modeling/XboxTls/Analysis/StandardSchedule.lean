import XboxTls.Analysis.HandshakeRun
import XboxTls.Analysis.ScriptedHandshake
import XboxTls.Analysis.ServerFlight
import XboxTls.Analysis.Sha256
import XboxTls.Interface.StandardSchedule

/-!
# The key schedule of the client and that of the standard

The functions of `hkdf.cpp` and `key_schedule.cpp` compute HMAC, HKDF and the steps of the
schedule as RFC 8446 defines them.  But `connect` starts the schedule with an empty PSK,
where the standard has 32 zero bytes for a connection without one: the secrets of a
connection are those of the standard exactly where collisions of the hash hide that difference
(`standardSecrets_iff`), which SHA-256 does not do for the Early Secrets.
-/

set_option autoImplicit false

namespace XboxTls.Analysis

open Programs Programs.Prog XboxTls.Model XboxTls.Interface

variable {P : Crypto} {W : Type} (E : Env W)

/-! ## HMAC and HKDF -/

/-- A short key is filled up with zeros, a long one is hashed first. -/
theorem hmacBlock_eq (key : Bytes) :
    (FixedBytes.ofBytes 64 (if key.length > 64 then (P.sha256 key).val else key)).val =
      Standard.hmacBlock (Standard.digest P) key := by
  unfold Standard.hmacBlock
  by_cases hkey : key.length ≤ 64
  · rw [if_neg (by omega), if_pos hkey]
    exact FixedBytes.ofBytes_val_of_le hkey
  · have hlen : (P.sha256 key).val.length ≤ 64 := by
      rw [(P.sha256 key).property]
      decide
    rw [if_pos (by omega), if_neg hkey]
    exact FixedBytes.ofBytes_val_of_le hlen

/-- The code's HMAC is that of the standard. -/
theorem hmacSha256_eq (key data : Bytes) :
    (hmacSha256 P key data).val = Standard.hmac (Standard.digest P) key data := by
  have hinner : ∀ ipad : Bytes, (if data.length ≠ 0 then
      P.shaUpdate (P.shaUpdate P.shaReset ipad) data else P.shaUpdate P.shaReset ipad) =
      P.shaUpdate P.shaReset (ipad ++ data) := by
    intro ipad
    have hupdate := transcriptUpdate_eq P (P.shaUpdate P.shaReset ipad) data
    unfold transcriptUpdate at hupdate
    rw [hupdate, P.shaUpdate_append]
  unfold hmacSha256
  dsimp only
  rw [hinner, P.shaUpdate_append, hmacBlock_eq]
  rfl

/-- The code's extract is that of the standard. -/
theorem hkdfExtractSha256_eq (salt : FixedBytes 32) (ikm : Bytes) :
    (hkdfExtractSha256 P salt.val ikm).val =
      Standard.hkdfExtract (Standard.digest P) salt.val ikm := by
  unfold hkdfExtractSha256
  rw [if_pos (by rw [salt.property]; decide)]
  exact hmacSha256_eq salt.val ikm

/-- 32 bytes are one block of the expansion. -/
theorem hkdfExpandLoop_block (prk info : Bytes) :
    hkdfExpandLoop P prk info 2 [] 1 32 = (hmacSha256 P prk (info ++ [1])).val := by
  have hlen := (hmacSha256 P prk (info ++ [1])).property
  unfold hkdfExpandLoop
  rw [if_neg (by decide)]
  unfold hkdfExpandLoop
  dsimp only
  rw [if_pos (by decide), List.append_nil, List.nil_append]
  exact List.take_of_length_le (by omega)

/-- A secret is the one that the standard derives from the same messages. -/
theorem deriveSecret_eq {secret out : FixedBytes 32} {label messages : Bytes}
    (h : deriveSecret P secret label (P.sha256 messages).val = .ok out) :
    out.val = Standard.deriveSecret (Standard.digest P) secret.val label messages := by
  unfold deriveSecret hkdfExpandLabelSha256 at h
  split at h
  · cases h
  · unfold hkdfExpandSha256 at h
    rw [if_neg (by decide)] at h
    split at h
    · cases h
    · cases h
      rw [hkdfExpandLoop_block]
      have hlen := (hmacSha256 P secret.val
        (hkdfLabel 32 label (P.sha256 messages).val ++ [1])).property
      rw [FixedBytes.ofBytes_val_of_length _ hlen, hmacSha256_eq]
      unfold Standard.deriveSecret Standard.hkdfExpandLabel Standard.hkdfExpand hkdfLabel
      congr 2
      simp only [Standard.vector8, Standard.digest, List.length_append, List.append_assoc,
        List.cons_append, List.nil_append]
      rfl

/-! ## The schedule -/

/-- The schedule that `derive_handshake_secret` leaves after `derive_early_secret`. -/
theorem handshakeSchedule_eq {before schedule : KeySchedule} {shared : FixedBytes 32}
    {hello : Bytes} (flight : Bytes) (h : HandshakeSchedule P before shared hello schedule) :
    schedule.handshakeSecret.val =
        Standard.handshakeSecret (Standard.digest P) [] shared.val ∧
      schedule.clientHandshakeTrafficSecret.val =
        (Standard.trafficSecrets (Standard.digest P) [] shared.val hello flight).clientHandshake ∧
      schedule.serverHandshakeTrafficSecret.val =
        (Standard.trafficSecrets (Standard.digest P) []
          shared.val hello flight).serverHandshake := by
  unfold HandshakeSchedule KeySchedule.deriveHandshakeSecret at h
  obtain ⟨derived, hderived, h⟩ := (except_bind_eq_ok _ _ _).mp h
  obtain ⟨client, hclient, h⟩ := (except_bind_eq_ok _ _ _).mp h
  obtain ⟨server, hserver, h⟩ := (except_bind_eq_ok _ _ _).mp h
  cases h
  have hearly : (before.deriveEarlySecret P []).earlySecret.val =
      Standard.earlySecret (Standard.digest P) [] := hkdfExtractSha256_eq (FixedBytes.zero 32) []
  have hsecret : (hkdfExtractSha256 P derived.val shared.val).val =
      Standard.handshakeSecret (Standard.digest P) [] shared.val := by
    rw [hkdfExtractSha256_eq, deriveSecret_eq hderived, hearly]
    rfl
  refine ⟨hsecret, ?_, ?_⟩
  · show client.val = _
    rw [deriveSecret_eq hclient, hsecret]
    rfl
  · show server.val = _
    rw [deriveSecret_eq hserver, hsecret]
    rfl

/-- The schedule that `derive_master_secret` leaves. -/
theorem masterSchedule_eq {schedule schedule' : KeySchedule} {psk shared flight : Bytes}
    (hello : Bytes)
    (hsecret : schedule.handshakeSecret.val =
      Standard.handshakeSecret (Standard.digest P) psk shared)
    (h : schedule.deriveMasterSecret P (P.sha256 flight) = .ok schedule') :
    schedule'.clientHandshakeTrafficSecret = schedule.clientHandshakeTrafficSecret ∧
      schedule'.serverHandshakeTrafficSecret = schedule.serverHandshakeTrafficSecret ∧
      schedule'.clientApplicationTrafficSecret.val =
        (Standard.trafficSecrets (Standard.digest P) psk shared hello flight).clientApplication ∧
      schedule'.serverApplicationTrafficSecret.val =
        (Standard.trafficSecrets (Standard.digest P) psk
          shared hello flight).serverApplication := by
  unfold KeySchedule.deriveMasterSecret at h
  obtain ⟨derived, hderived, h⟩ := (except_bind_eq_ok _ _ _).mp h
  obtain ⟨client, hclient, h⟩ := (except_bind_eq_ok _ _ _).mp h
  obtain ⟨server, hserver, h⟩ := (except_bind_eq_ok _ _ _).mp h
  cases h
  have hmaster : (hkdfExtractSha256 P derived.val (FixedBytes.zero 32).val).val =
      Standard.masterSecret (Standard.digest P) psk shared := by
    rw [hkdfExtractSha256_eq, deriveSecret_eq hderived, hsecret]
    rfl
  refine ⟨rfl, rfl, ?_, ?_⟩
  · show client.val = _
    rw [deriveSecret_eq hclient, hmaster]
    rfl
  · show server.val = _
    rw [deriveSecret_eq hserver, hmaster]
    rfl

/-- The secrets of a connection are those of the standard's schedule over an empty PSK. -/
theorem secretsOf_connection {config : ClientConfig} {hostname : CString} {h : HandshakeParts}
    {verdicts : Verdicts} {s s' : System P W}
    (hconn : Connection verdicts config hostname h s s') :
    Standard.secretsOf s'.client.schedule = Standard.trafficSecrets (Standard.digest P) []
      h.shared.val (h.helloBytes P) (h.flightBytes P) := by
  obtain ⟨hsecret, hclient, hserver⟩ := handshakeSchedule_eq (h.flightBytes P) hconn.early
  obtain ⟨hkeepClient, hkeepServer, hclientApp, hserverApp⟩ :=
    masterSchedule_eq (h.helloBytes P) hsecret hconn.master
  unfold Standard.secretsOf
  rw [hkeepClient, hkeepServer, hclient, hserver, hclientApp, hserverApp]

/-! ## Where two schedules meet -/

section Meeting

open Standard

variable {hash : Bytes → Bytes}

/-- A derived secret has 32 bytes. -/
theorem length_deriveSecret (hdigest : ∀ b, (hash b).length = 32) (key label messages : Bytes) :
    (Standard.deriveSecret hash key label messages).length = 32 := hdigest _

/-- The Early Secret has 32 bytes. -/
theorem length_earlySecret (hdigest : ∀ b, (hash b).length = 32) (psk : Bytes) :
    (earlySecret hash psk).length = 32 := hdigest _

/-- The Handshake Secret has 32 bytes. -/
theorem length_handshakeSecret (hdigest : ∀ b, (hash b).length = 32) (psk shared : Bytes) :
    (handshakeSecret hash psk shared).length = 32 := hdigest _

/-- The Master Secret has 32 bytes. -/
theorem length_masterSecret (hdigest : ∀ b, (hash b).length = 32) (psk shared : Bytes) :
    (masterSecret hash psk shared).length = 32 := hdigest _

/-- Different keys of one length, not longer than a block, give different blocks. -/
theorem hmacBlock_injective {key key' : Bytes} (hlen : key.length = 32) (hlen' : key'.length = 32)
    (h : hmacBlock hash key = hmacBlock hash key') : key = key' := by
  unfold hmacBlock at h
  rw [if_pos (by omega), if_pos (by omega)] at h
  exact List.append_inj_left h (by rw [hlen, hlen'])

/-- Two runs of HMAC hash the same last string only if they have the key and the digest of the
first string in common. -/
theorem hmacOuter_injective (hdigest : ∀ b, (hash b).length = 32) {key key' a b : Bytes}
    (hlen : key.length = 32) (hlen' : key'.length = 32)
    (h : hmacOuter hash key a = hmacOuter hash key' b) :
    key = key' ∧ hash (hmacInner hash key a) = hash (hmacInner hash key' b) := by
  obtain ⟨hblock, hinner⟩ := List.append_inj' h (by rw [hdigest, hdigest])
  have hxor : Function.Injective (fun x : UInt8 => x ^^^ 0x5c) := by
    intro x y hxy
    have := congrArg (· ^^^ (0x5c : UInt8)) hxy
    simpa [UInt8.xor_assoc] using this
  exact ⟨hmacBlock_injective hlen hlen' (hxor.list_map hblock), hinner⟩

/-- Under two keys a message has one HMAC only through a collision. -/
theorem hmac_eq_iff (hdigest : ∀ b, (hash b).length = 32) {key key' : Bytes} (message : Bytes)
    (hlen : key.length = 32) (hlen' : key'.length = 32) :
    hmac hash key message = hmac hash key' message ↔
      key = key' ∨ KeysMeet hash key key' message := by
  constructor
  · intro h
    by_cases hkey : key = key'
    · exact Or.inl hkey
    · exact Or.inr ⟨fun houter => hkey (hmacOuter_injective hdigest hlen hlen' houter).1, h⟩
  · rintro (rfl | hmeet)
    · rfl
    · exact hmeet.2

/-- Secrets derived for one label are equal exactly where the keys are or the hash collides. -/
theorem deriveSecret_eq_iff (hdigest : ∀ b, (hash b).length = 32) {key key' : Bytes}
    (label messages : Bytes) (hlen : key.length = 32) (hlen' : key'.length = 32) :
    deriveSecret hash key label messages = deriveSecret hash key' label messages ↔
      key = key' ∨ LabelsMeet hash key key' label messages :=
  hmac_eq_iff hdigest (secretInfo hash label messages) hlen hlen'

/-- The Early Secrets of two keys are equal exactly where the hash collides. -/
theorem earlySecret_eq_iff (hdigest : ∀ b, (hash b).length = 32) {psk psk' : Bytes}
    (hne : psk ≠ psk') :
    earlySecret hash psk = earlySecret hash psk' ↔ EarlySecretsMeet hash psk psk' := by
  have hzeros : zeros.length = 32 := rfl
  constructor
  · intro h
    by_cases houter : hmacOuter hash zeros psk = hmacOuter hash zeros psk'
    · refine Or.inl ⟨fun hinner => hne (List.append_cancel_left hinner), ?_⟩
      exact (hmacOuter_injective hdigest hzeros hzeros houter).2
    · exact Or.inr ⟨houter, h⟩
  · rintro (⟨-, hinner⟩ | ⟨-, houter⟩)
    · show hash (hmacOuter hash zeros psk) = hash (hmacOuter hash zeros psk')
      unfold hmacOuter
      rw [hinner]
    · exact houter

/-- The Handshake Secrets are equal exactly where the hash collides on the way to them. -/
theorem handshakeSecret_eq_iff (hdigest : ∀ b, (hash b).length = 32) {psk psk' : Bytes}
    (hne : psk ≠ psk') (shared : Bytes) :
    handshakeSecret hash psk shared = handshakeSecret hash psk' shared ↔
      HandshakeSecretsMeet hash psk psk' shared := by
  unfold HandshakeSecretsMeet handshakeSecret hkdfExtract
  rw [hmac_eq_iff hdigest shared (length_deriveSecret hdigest _ _ _)
      (length_deriveSecret hdigest _ _ _),
    deriveSecret_eq_iff hdigest _ _ (length_earlySecret hdigest psk)
      (length_earlySecret hdigest psk'),
    earlySecret_eq_iff hdigest hne, or_assoc]

/-- The Master Secrets are equal exactly where the Handshake Secrets are or the hash collides
behind them. -/
theorem masterSecret_eq_iff (hdigest : ∀ b, (hash b).length = 32) (psk psk' shared : Bytes) :
    masterSecret hash psk shared = masterSecret hash psk' shared ↔
      handshakeSecret hash psk shared = handshakeSecret hash psk' shared ∨
        MasterSecretsMeet hash psk psk' shared := by
  unfold MasterSecretsMeet masterSecret hkdfExtract
  rw [hmac_eq_iff hdigest zeros (length_deriveSecret hdigest _ _ _)
      (length_deriveSecret hdigest _ _ _),
    deriveSecret_eq_iff hdigest _ _ (length_handshakeSecret hdigest psk shared)
      (length_handshakeSecret hdigest psk' shared), or_assoc]

/-- **Two schedules give the same traffic secrets only through collisions** of the hash. -/
theorem trafficSecrets_eq_iff (hdigest : ∀ b, (hash b).length = 32) {psk psk' : Bytes}
    (hne : psk ≠ psk') (shared hello flight : Bytes) :
    trafficSecrets hash psk shared hello flight = trafficSecrets hash psk' shared hello flight ↔
      TrafficSecretsMeet hash psk psk' shared hello flight := by
  have hhandshake (label messages : Bytes) := deriveSecret_eq_iff hdigest label messages
    (length_handshakeSecret hdigest psk shared) (length_handshakeSecret hdigest psk' shared)
  have hmaster (label messages : Bytes) := deriveSecret_eq_iff hdigest label messages
    (length_masterSecret hdigest psk shared) (length_masterSecret hdigest psk' shared)
  unfold TrafficSecretsMeet
  rw [← handshakeSecret_eq_iff hdigest hne]
  unfold trafficSecrets
  rw [TrafficSecrets.mk.injEq, hhandshake, hhandshake, hmaster, hmaster,
    masterSecret_eq_iff hdigest]
  tauto

end Meeting

/-- With SHA-256 the two Early Secrets are different. -/
theorem not_earlySecretsMeet_withSha256 (P : Crypto) :
    ¬ Standard.EarlySecretsMeet (Standard.digest (withSha256 P)) [] Standard.noPsk := by
  have hne : Standard.earlySecret (fun b => (nativeSha256 b).val) [] ≠
      Standard.earlySecret (fun b => (nativeSha256 b).val) Standard.noPsk := by
    decide +kernel
  intro hmeet
  exact hne ((earlySecret_eq_iff (fun b => (nativeSha256 b).property) (by decide)).mpr hmeet)

/-! ## Connections -/

/-- **How faithful the schedule of a connection is.**  Whenever `connect` returns `XT_OK`,
its events are the log of a handshake: the hashes in it are those of the messages so far,
each once and in order, and the verifier and both Finished messages were given these hashes;
the messages are the bytes that the records brought, and the shared secret comes from the
private key of the last ClientHello.  The traffic secrets are those of RFC 8446 over the log
exactly when collisions of the hash take the schedule over an empty PSK to the secrets of the
schedule without a PSK. -/
theorem standardSecrets_iff {fuel : ℕ} {config : ClientConfig} {s s' : System P W}
    (hrun : connect E fuel config s = some (.ok (), s')) :
    ∃ hostname h evs, s'.trace = s.trace ++ evs ∧
      IsHandshake P (acceptedBy E) config hostname h (handshakeEvents evs) ∧
      h.schedule.deriveMasterSecret P (P.sha256 (h.flightBytes P)) = .ok s'.client.schedule ∧
      received .plaintext evs = serverHellos h.hellos ++ h.serverHello ∧
      (∃ rest, received .handshake evs = encodings h.messages ++ rest) ∧
      (Standard.secretsOf s'.client.schedule = Standard.trafficSecrets (Standard.digest P)
          Standard.noPsk h.shared.val (h.helloBytes P) (h.flightBytes P) ↔
        Standard.TrafficSecretsMeet (Standard.digest P) [] Standard.noPsk h.shared.val
          (h.helloBytes P) (h.flightBytes P)) := by
  obtain ⟨hostname, h, hconn⟩ := connect_log E (abides_acceptedBy E) hrun
  have hsecrets := secretsOf_connection hconn
  obtain ⟨evs, htrace, hlog, hplain, hrest⟩ := hconn.log
  refine ⟨hostname, h, evs, htrace, hlog, hconn.master, hplain, hrest, ?_⟩
  rw [hsecrets]
  exact trafficSecrets_eq_iff (fun b => (P.sha256 b).property) (by decide) _ _ _

/-- Under a hash whose digests are all zero the secrets are those of RFC 8446. -/
theorem standardSecrets_iff_profile : ∃ s : System blankCrypto Bytes,
    connect agreeingEnv 5 onceConfig (.fresh blankCrypto (blankHandshake profileMessages)) =
      some (.ok (), s) ∧
    ∃ h, IsHandshake blankCrypto (acceptedBy agreeingEnv) onceConfig hostXY h
        (handshakeEvents s.trace) ∧
      Standard.secretsOf s.client.schedule = Standard.trafficSecrets
        (Standard.digest blankCrypto) Standard.noPsk h.shared.val (h.helloBytes blankCrypto)
        (h.flightBytes blankCrypto) := by
  obtain ⟨s, hrun, -⟩ := profile_connects
  obtain ⟨hostname, h, evs, htrace, hlog, -, -, -, hiff⟩ := standardSecrets_iff agreeingEnv hrun
  have hevs : s.trace = evs := htrace
  obtain rfl : hostXY = hostname := Option.some.inj hlog.configured
  refine ⟨s, hrun, h, hevs ▸ hlog, hiff.mpr (.inl (.inl (.inl ⟨?_, rfl⟩)))⟩
  -- the two Early Secrets come from strings of different lengths
  intro hsame
  exact absurd (congrArg List.length hsame) (by decide)

/-! ## A connection with other secrets -/

/-- A log that begins with one ClientHello and a ServerHello fixes the parts of the
handshake. -/
theorem parts_of_log {verdicts : Verdicts} {config : ClientConfig} {hostname : CString}
    {h : HandshakeParts} {p : ClientHelloParams} {ch sh : Bytes} {info : ServerHelloInfo}
    {k shared : FixedBytes 32} {rest : List Event} (hlog : IsHandshake P verdicts config hostname h
      (.clientHello p ch :: .serverHello sh info :: .sharedSecret k shared :: rest)) :
    h.helloBytes P = ch ++ sh ∧ h.shared = shared := by
  have heq := hlog.log_eq
  have hhellos := hlog.hellos
  unfold HandshakeParts.helloBytes
  generalize h.hellos = hellos at heq hhellos
  generalize h.retried = retried at hhellos
  cases hhellos with
  | first =>
    simp only [List.cons_append, List.nil_append, List.cons.injEq, Event.clientHello.injEq,
      Event.serverHello.injEq, Event.sharedSecret.injEq] at heq
    obtain ⟨⟨-, hch⟩, ⟨hsh, -⟩, ⟨-, hshared⟩, -⟩ := heq
    rw [hch, hsh, hshared]
    exact ⟨rfl, rfl⟩
  | retry hfirst =>
    cases hfirst with
    | first => simp at heq

/-- The ClientHello of the scripted client. -/
def plainClientHello : Bytes :=
  match buildClientHello (scriptParams plainCrypto) 2048 with
  | .ok ch => ch
  | .error _ => []

/-- With the checksum for a hash, the empty PSK gives another secret than 32 zero bytes. -/
theorem clientHandshake_ne : ∀ flight flight',
    (Standard.trafficSecrets (Standard.digest plainCrypto) [] scriptPrivateKey.val
        (plainClientHello ++ scriptServerHello) flight).clientHandshake ≠
      (Standard.trafficSecrets (Standard.digest plainCrypto) Standard.noPsk scriptPrivateKey.val
        (plainClientHello ++ scriptServerHello) flight').clientHandshake := by
  have hne : Standard.deriveSecret (Standard.digest plainCrypto)
      (Standard.handshakeSecret (Standard.digest plainCrypto) [] scriptPrivateKey.val)
      (ascii ['c', ' ', 'h', 's', ' ', 't', 'r', 'a', 'f', 'f', 'i', 'c'])
      (plainClientHello ++ scriptServerHello) ≠
    Standard.deriveSecret (Standard.digest plainCrypto)
      (Standard.handshakeSecret (Standard.digest plainCrypto) Standard.noPsk scriptPrivateKey.val)
      (ascii ['c', ' ', 'h', 's', ' ', 't', 'r', 'a', 'f', 'f', 'i', 'c'])
      (plainClientHello ++ scriptServerHello) := by
    decide +kernel
  exact fun _ _ => hne

/-- **A connection whose secrets are not those of RFC 8446**: the client's handshake traffic
secret differs from that of the standard over the same messages and the same shared secret. -/
theorem bare_secrets_differ : ∃ (w : Bytes) (s : System plainCrypto Bytes),
    connect scriptEnv 2 (scriptConfig 0) (System.fresh plainCrypto w) = some (.ok (), s) ∧
    ∀ verdicts hostname h,
      IsHandshake plainCrypto verdicts (scriptConfig 0) hostname h (handshakeEvents s.trace) →
      Standard.secretsOf s.client.schedule ≠ Standard.trafficSecrets (Standard.digest plainCrypto)
        Standard.noPsk h.shared.val (h.helloBytes plainCrypto) (h.flightBytes plainCrypto) := by
  obtain ⟨script, keys, th, fin, -, hconnect⟩ := scripted_connect keyAgreementWorks_plainCrypto 0
    [] (by decide)
  obtain ⟨_, s, hrun, hbare⟩ := hconnect 0 []
  obtain ⟨ch, shared, clientHs, record, th', clientFin, hch, hshared, hmilestones⟩ :=
    hbare.milestones
  have hlog : handshakeEvents s.trace =
      .clientHello (scriptParams plainCrypto) ch ::
        .serverHello scriptServerHello scriptServerHelloInfo ::
        .sharedSecret scriptPrivateKey shared ::
        [.finishedVerified th, .flight fin, .clientFinished th' clientFin] := by
    rw [← handshakeEvents_milestones, hmilestones]
    rfl
  have hplain : ch = plainClientHello := by
    unfold plainClientHello
    rw [hch]
  have hkey : shared = scriptPrivateKey := (Except.ok.inj hshared).symm
  refine ⟨_, s, hrun, ?_⟩
  intro verdicts hostname h hhandshake hsecrets
  -- the parts that the log fixes are those of the connection
  obtain ⟨hostname', h', hconn⟩ := connect_log scriptEnv (abides_acceptedBy scriptEnv) hrun
  obtain ⟨evs, htrace, hhandshake', -, -⟩ := hconn.log
  have hevs : s.trace = evs := htrace
  rw [← hevs, hlog] at hhandshake'
  rw [hlog] at hhandshake
  obtain ⟨hhello', hshared'⟩ := parts_of_log hhandshake'
  obtain ⟨hhello, hshared⟩ := parts_of_log hhandshake
  rw [secretsOf_connection hconn, hhello', hshared', hhello, hshared, hplain, hkey] at hsecrets
  exact clientHandshake_ne (h'.flightBytes plainCrypto) (h.flightBytes plainCrypto)
    (congrArg Standard.TrafficSecrets.clientHandshake hsecrets)

end XboxTls.Analysis
