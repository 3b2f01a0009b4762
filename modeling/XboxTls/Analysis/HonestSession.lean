import XboxTls.Analysis.Delivery
import XboxTls.Analysis.HonestHandshake
import XboxTls.Analysis.SessionRun
import XboxTls.Interface.HonestSession

/-!
# A whole session with an honest server

Behind a handshake with a server of the profile the client has the two directions that the
server derives, and nothing is left in its buffers.  So what the server then sends is delivered,
and every exchange with it is in step.
-/

set_option autoImplicit false

namespace XboxTls.Analysis

open Programs Programs.Prog XboxTls.Model XboxTls.Interface

variable {P : Crypto} {W : Type} {E : Env W}

/-- Bytes of a fixed number are taken as they are. -/
theorem ofBytes_val {n : ℕ} (b : FixedBytes n) : FixedBytes.ofBytes n b.val = b :=
  Subtype.ext (FixedBytes.ofBytes_val_of_length b.val b.property)

section Agreed

variable {config : ClientConfig} {server : Server} {shared : FixedBytes 32} {hello : Bytes}
  {s : System P W}

/-- The client reads under the server's sending secret and keys. -/
theorem readTraffic_agreed (h : Agreed P config server shared hello s) :
    readTraffic s.client = server.down P shared hello := by
  unfold Interface.readTraffic Server.down
  rw [h.receives, ← h.secrets]
  congr 1
  exact (ofBytes_val _).symm

/-- The client writes under the server's receiving secret and keys. -/
theorem writeTraffic_agreed (h : Agreed P config server shared hello s) :
    writeTraffic s.client = server.up P shared hello := by
  unfold Interface.writeTraffic Server.up
  rw [h.sends, ← h.secrets]
  congr 1
  exact (ofBytes_val _).symm

end Agreed

/-- A stream cut in any way delivers its bytes. -/
theorem delivers_segmented (hE : Accepting E) (S : Segmentation) (ended : Option Error) :
    Delivers (segmented S ended E) fun w => S.left w.1 where
  recvSome stream n w hn hleft := by
    refine ⟨(S.next n w.1).1, ((S.next n w.1).2, w.2), ?_, S.progress n w.1 hn hleft,
      S.splits n w.1⟩
    show (if S.left w.1 = [] then _ else _) = _
    rw [if_neg hleft]
  sendAll stream bytes w := by
    obtain ⟨w', hsend⟩ := hE.sendAll stream bytes w.2
    refine ⟨(w.1, w'), ?_, rfl⟩
    show beside (E.sendAll stream bytes) w = _
    unfold beside
    rw [hsend]
  malloc n w := ⟨hE.malloc n w.2, rfl⟩

/-- What is still to come of the records is delivered. -/
theorem deliversAll_of_awaiting {inbox : W → Bytes} (hE : Delivers E inbox) {level : UInt8}
    {padding : ℕ} (hpad : padding ≤ 16621) {rest : Bytes} {records : List PeerRecord}
    {s : System P W} (hs : Awaiting inbox level padding rest records s)
    (hpending : s.client.pendingAppLength = 0) : DeliversAll E records s := by
  intro log s' hrun hlog
  have hnone : pendingBytes s.client = [] := by
    unfold pendingBytes slice
    rw [hpending, List.take_zero]
  have hstart : Delivering inbox level padding rest (appBytes records)
      ((appBytes records).length + records.length) [] s := by
    refine ⟨⟨List.nil_prefix, by simp, by simp, by simp⟩, Or.inr ⟨records, hs, ?_, ?_⟩⟩
    · rw [hnone]
      rfl
    · intro _
      rw [hnone, List.length_nil, Nat.zero_add, List.nil_append]
  have hend : Delivering inbox level padding rest (appBytes records)
      ((appBytes records).length + records.length) log s' := by
    induction hrun with
    | nil => exact hstart
    | snoc _ hret ih =>
      have hold := ih fun entry hentry => hlog entry (List.mem_append_left _ hentry)
      exact delivering_step hE hpad hold
        (hlog _ (List.mem_append_right _ (List.mem_singleton_self _))) hret
  refine ⟨hend.exactly, ?_, ?_⟩
  · rintro call ⟨outNull, size, rfl, hnull⟩
    rcases hend.now with ⟨hstate, -, -⟩ | ⟨records', hawaiting, -, -⟩
    · refine ⟨.error .closed, s', 0, ?_⟩
      show recv E 0 false outNull size s' = _
      unfold recv
      rw [bind_of_ok rfl, if_neg, if_pos (by rw [hstate]; decide)]
      · rfl
      · rintro (h | ⟨hout, hsize⟩)
        · cases h
        · exact hsize (hnull hout)
    · obtain ⟨fuel, r, s'', hrecv⟩ := (recv_gives hE hpad hnull hawaiting (le_refl _)).2
      exact ⟨r, s'', fuel, hrecv⟩
  · intro hroom hlong
    rcases hend.now with ⟨-, -, hsome⟩ | ⟨records', -, -, hm⟩
    · exact hsome
    · have hle := hm hroom
      omega

/-- A connected client with the directions of its peer and nothing left behind is in step with
it. -/
theorem staysInStep_of_stored {c : TlsClient P} (hconn : c.state = .connected)
    (hstream : ∃ stream, c.config.stream = some stream) (hstored : Stored c)
    (hempty : c.deframer.buffer = []) : StaysInStep (readTraffic c) (writeTraffic c) c := by
  intro W E view w log s hE hfresh hrun
  have hwrote : Wrote (writeTraffic c) [] (⟨c, w, []⟩ : System P W) := ⟨rfl, rfl, rfl⟩
  have hserved : Served P (readTraffic c) (writeTraffic c) view [] [] 0 w := by
    refine ⟨[], ?_⟩
    rw [hfresh]
    exact ⟨rfl, rfl, by simp, by simp, rfl, ⟨[], [], rfl, rfl, rfl, rfl⟩, by simp, rfl⟩
  have hstart : Together (readTraffic c) (writeTraffic c) view [] (⟨c, w, []⟩ : System P W) :=
    ⟨⟨hconn, hempty, hstored.capacity, rfl, rfl, rfl⟩, hstream, rfl, [], hwrote, hserved⟩
  obtain ⟨hend, hnone⟩ := apace_of_session hE hrun hstart.apace
  exact ⟨hend.inStep, hnone⟩

/-- A `connect` that succeeds leaves nothing outside the pending buffer. -/
theorem pendingWithin_of_connect {fuel : ℕ} {config : ClientConfig} {s s' : System P W}
    (hrun : connect E fuel config s = some (.ok (), s')) : PendingWithin s'.client := by
  obtain ⟨hidle, husable⟩ := connect_ok_started E hrun
  have hbody := connect_started E hidle husable hrun
  have hsteady : Keeps (fun s : System P W => PendingWithin s.client)
      (connectHandshake E fuel config) :=
    steady_connectHandshake E
      (fun _ _ h => pendingWithin_same h.pendingAppOffset h.pendingAppLength)
      (fun _ _ h hs => by rw [h.client]; exact hs) fuel config
  have hwhole : Keeps (fun s : System P W => PendingWithin s.client)
      (do connectHandshake E fuel config
          modifyClient fun c => { c with state := .connected } : ClientM P W Unit) := by
    apply maintains_bind hsteady
    intro _ s hs
    rw [wp_modifyClient]
    exact hs
  exact hwhole.run (Nat.zero_le _) hbody

/-- **A client that has completed converses.** -/
theorem converses_of_completes {config : ClientConfig} (husable : config.usable = true)
    (hE : Accepting E) {s : System P W} (hstored : Stored s.client) {heard sent : Bytes}
    {p : ClientHelloParams} (hcompletes : Completes P E config s heard p sent) :
    Converses P E config s heard p sent := by
  intro server shared hagree S ended t reply records level padding rest hshows hreplies hfits hpad
    hleft
  obtain ⟨s', hreturns, hagreed, hrest⟩ := hcompletes S ended t server reply shared _ hagree hshows
    hreplies hleft
  obtain ⟨-, stream, hstream⟩ := objects_of_usable husable
  have hstream' : ∃ stream, s'.client.config.stream = some stream := by
    rw [hagreed.config]
    exact ⟨stream, hstream⟩
  have hkept : Stored s'.client ∧ PendingWithin s'.client := by
    obtain ⟨fuel, hcall⟩ := hreturns
    obtain ⟨_, s₁, hconnect, hend⟩ := (bind_eq_ok_iff _ _ _ _ _).mp hcall
    cases hend
    exact ⟨Keeps.run (keeps_stored_connect _ fuel config) hstored hconnect,
      pendingWithin_of_connect hconnect⟩
  refine ⟨s', hreturns, ?_, ?_⟩
  · have hawaiting : Awaiting (fun w => S.left w.1) level padding rest records s' := by
      refine ⟨hagreed.state, hstream', hagreed.buffered, hkept.1, hkept.2, hfits, ?_⟩
      rw [readTraffic_agreed hagreed]
      exact hrest
    exact deliversAll_of_awaiting (delivers_segmented hE S ended) hpad hawaiting hagreed.pending
  · have hstays := staysInStep_of_stored hagreed.state hstream' hkept.1 hagreed.buffered
    rw [readTraffic_agreed hagreed, writeTraffic_agreed hagreed] at hstays
    exact hstays

/-- **A whole session with an honest server.**  From every reachable idle client, when nothing
fails on its side, there is a ClientHello such that with every server that replies to it `connect`
returns `XT_OK`, whatever the server sends behind its flight is delivered exactly, in any pieces
and through calls of `recv` of any capacities, and in every exchange with the server over two
channels both sides open each other's records in order.  The same holds behind one
HelloRetryRequest for the other group. -/
theorem honest_session (E : Env W) {config : ClientConfig} (husable : config.usable = true)
    (hgroup : config.preferredGroup = .x25519 ∨ config.preferredGroup = .secp256r1)
    (hfits : HelloFits config) (hE : ∀ group, Cooperates P E group) {c : TlsClient P}
    (hreach : ReachableClient c) (hidle : c.state = .idle) (w : W) (trace : List Event) :
    ∃ p ch, Offers P config config.preferredGroup p ch ∧
      Converses P E config ⟨c, w, trace⟩ [] p ch ∧
      ∀ group (hother : group = .x25519 ∨ group = .secp256r1) cookie hcookie,
        group ≠ config.preferredGroup → ∀ m : HelloParts,
          m.OfKind (.retry group hother cookie hcookie) → m.sessionId = p.sessionId →
          m.encode.length ≤ 16384 → ∃ p' ch', Offers P config group p' ch' ∧
            p' = { p with
              group := group, keyShare := p'.keyShare, cookie := cookie.getD [] } ∧
            Converses P E config ⟨c, w, trace⟩ (plainRecord contentHandshake m.encode) p'
              (messageHash (P.sha256 ch) ++ m.encode ++ ch') :=
  waits_behind_hellos E husable hgroup hfits hE (stored_of_reachable hreach)
    fun _ _ _ _ hawaits hgreeted =>
      converses_of_completes husable (hE .x25519).toAccepting (stored_of_reachable hreach)
        (hawaits.completes (hE .x25519).toAccepting husable hidle hgreeted)

/-- Two bytes behind a ticket arrive from the server that replies byte by byte. -/
theorem honest_session_once :
    ∃ (bytes : Bytes) (s : System agreeingCrypto (Bytes × Bytes)),
      Returns (segmented (pieces 1 Nat.one_pos) none agreeingEnv) (.connect onceConfig)
        ⟨.initial agreeingCrypto, (bytes, []), []⟩ (.ok []) s ∧
      DeliversAll (segmented (pieces 1 Nat.one_pos) none agreeingEnv)
        [⟨.handshake [.newSessionTicket [0]], 0⟩, ⟨.data [1, 2], 3⟩] s := by
  have husable : onceConfig.usable = true := rfl
  obtain ⟨p, ch, hoffers, hconverses, -⟩ := honest_session agreeingEnv husable (.inl rfl)
    helloFits_onceConfig cooperates_agreeingEnv reachable_initial rfl [] []
  obtain ⟨reply, hreplies⟩ := onceServer_replies hoffers
  obtain ⟨s, hs, hdelivers, -⟩ := hconverses onceServer (.zero 32)
    (hoffers.group.symm ▸ keysAgree_agreeingCrypto) (pieces 1 Nat.one_pos) none _ reply
    [⟨.handshake [.newSessionTicket [0]], 0⟩, ⟨.data [1, 2], 3⟩] 1 0 []
    onceServer_shows hreplies (by
      intro r hr
      simp only [List.mem_cons, List.not_mem_nil, or_false] at hr
      rcases hr with rfl | rfl <;> exact ⟨by decide, by decide⟩) (by decide) rfl
  exact ⟨_, s, hs, hdelivers⟩

end XboxTls.Analysis
