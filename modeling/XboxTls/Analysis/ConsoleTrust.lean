import XboxTls.Analysis.ChainVerification
import XboxTls.Analysis.ConnectionCounts
import XboxTls.Analysis.PeerTraffic
import XboxTls.Analysis.ServerFlight
import XboxTls.Analysis.TrustStoreFormat
import XboxTls.Interface.ConsoleTrust

/-!
# The console trusts its store only

The block of the trust store always holds an XTS1 store, and the anchors are its certificates
(`storeRead_of_run`).  Nothing before the handshake of a `connect` changes them, so what the
verifier accepts in it is what that store vouches for (`storeAuthenticated_of_run`).
-/

set_option autoImplicit false

namespace XboxTls.Analysis

open Programs Programs.Prog XboxTls.Model XboxTls.Interface

variable {P : Crypto} {V : Type} {X : XboxEnv V}

/-! ## The store in use -/

/-- Without a store there is no anchor, and with one the anchors are its certificates. -/
structure StoreRead (s : XboxSystem P V) : Prop where
  absent : s.client.trustStoreData = none → s.tls.world.verifier.anchors = []
  present : ∀ block, s.client.trustStoreData = some block → block < s.tls.world.heap.next ∧
    ∃ certificates, Storable certificates ∧
      s.tls.world.heap.lookup block = some (xts1 certificates) ∧
      AnchorsAre block (xts1 certificates) s.tls.world.verifier certificates

/-- Without a block there are no anchors to read. -/
theorem storeRead_none {s : XboxSystem P V} (hanchors : s.tls.world.verifier.anchors = [])
    (hdata : s.client.trustStoreData = none) : StoreRead s := by
  refine ⟨fun _ => hanchors, ?_⟩
  intro block hblock
  rw [hdata] at hblock
  cases hblock

/-- Which bytes the anchors are depends on their spans only. -/
theorem anchorsAre_congr {block : ℕ} {blob : Bytes} {v v' : VerifierObject}
    {certificates : List Bytes} (h : v'.anchors = v.anchors)
    (hv : AnchorsAre block blob v certificates) : AnchorsAre block blob v' certificates := by
  intro heap hblock
  obtain ⟨verifier, hderef, hall⟩ := hv heap hblock
  unfold VerifierObject.deref at hderef ⊢
  rw [h]
  obtain ⟨ders, hread, hrest⟩ := Option.bind_eq_some_iff.mp hderef
  refine ⟨⟨ders, ?_, v'.leafCertificateSha256Pin, v'.leafCertificateSha256PinEnabled⟩, ?_, ?_⟩
  · by_contra hlong
    rw [dif_neg hlong] at hrest
    cases hrest
  · rw [hread]
    split at hrest
    · next hshort => exact dif_pos hshort
    · cases hrest
  · split at hrest
    · cases hrest
      exact hall
    · cases hrest

/-- What leaves the anchors, `trust_store_data_` and the blocks that were handed out. -/
theorem storeRead_same {s s' : XboxSystem P V}
    (hanchors : s'.tls.world.verifier.anchors = s.tls.world.verifier.anchors)
    (hnext : s.tls.world.heap.next ≤ s'.tls.world.heap.next)
    (hlookup : ∀ block, block < s.tls.world.heap.next →
      s'.tls.world.heap.lookup block = s.tls.world.heap.lookup block)
    (hdata : s'.client.trustStoreData = s.client.trustStoreData) (hs : StoreRead s) :
    StoreRead s' := by
  refine ⟨?_, ?_⟩
  · rw [hanchors, hdata]
    exact hs.absent
  · intro block hblock
    rw [hdata] at hblock
    obtain ⟨hlt, certificates, hstore, hheld, hall⟩ := hs.present block hblock
    refine ⟨hlt.trans_le hnext, certificates, hstore, ?_, anchorsAre_congr hanchors hall⟩
    rw [hlookup block hlt]
    exact hheld

/-- What changes neither the anchors nor the heap nor `trust_store_data_`. -/
theorem storeRead_apart {s s' : XboxSystem P V}
    (hanchors : s'.tls.world.verifier.anchors = s.tls.world.verifier.anchors)
    (hheap : s'.tls.world.heap = s.tls.world.heap)
    (hdata : s'.client.trustStoreData = s.client.trustStoreData) (hs : StoreRead s) :
    StoreRead s' :=
  storeRead_same hanchors (by rw [hheap]) (fun _ _ => by rw [hheap]) hdata hs

/-- How the loader ends: with the certificates of a store as anchors, or with none. -/
def StoreLoads (block : ℕ) (blob : Bytes) (r : Except Error ℕ) (v : VerifierObject) : Prop :=
  match r with
  | .ok n => (n = 0 → v.anchors = []) ∧ ∃ certificates, Storable certificates ∧
      blob = xts1 certificates ∧ AnchorsAre block blob v certificates
  | .error _ => v.anchors = []

/-- A loaded store has its anchors in the block. -/
theorem reads_loadCompactTrustStore (block : ℕ) (blob : Bytes) {v : VerifierObject}
    (hv : v.anchors = []) :
    wp (VerifierObject.loadCompactTrustStore block blob) (StoreLoads block blob) v := by
  intro r v' hrun
  have hloads := loads_loadCompactTrustStore block blob hv _ _ hrun
  cases r with
  | error e => exact hloads
  | ok n =>
    refine ⟨fun hzero => List.length_eq_zero_iff.mp (hloads.2.trans hzero), ?_⟩
    by_cases hsize : blob.length < 6
    · unfold VerifierObject.loadCompactTrustStore at hrun
      rw [if_pos hsize] at hrun
      cases hrun
    by_cases hmagic : blob.take 4 = xts1Magic
    · obtain ⟨certificates, v₁, hstore, hblob, hload, hall⟩ | ⟨⟨e, v₁, hload, -⟩, -⟩ :=
        loadCompactTrustStore_run block v hsize hmagic
      · rw [hload] at hrun
        cases hrun
        exact ⟨certificates, hstore, hblob, hall⟩
      · rw [hload] at hrun
        cases hrun
    · unfold VerifierObject.loadCompactTrustStore at hrun
      have hunknown : blob.take 4 ≠ [0x58, 0x54, 0x53, 0x31] := hmagic
      rw [if_neg hsize, if_pos hunknown] at hrun
      cases hrun

/-- The new store replaces the old one, or there is none. -/
theorem storeRead_useTrustStore {block : ℕ} {data : Bytes} {s : XboxSystem P V}
    (hblock : s.tls.world.heap.lookup block = some data) (hlt : block < s.tls.world.heap.next)
    (hnew : s.client.trustStoreData ≠ some block) :
    wp (useTrustStore block data : XboxM P V Unit) (fun _ s' => StoreRead s') s := by
  obtain ⟨s₁, hfree, hanchors, hdata, hnext, hlookup⟩ := freeTrustStore_run s
  rw [← hlookup block hnew] at hblock
  rw [← hnext] at hlt
  unfold useTrustStore
  rw [wp_bind]
  refine wp_of_run hfree ?_
  rw [thenWp_ok, wp_bind, wp_attempt]
  apply wp_callVerifier
  refine wp_mono (reads_loadCompactTrustStore block data hanchors) ?_
  intro loaded v hloaded
  rw [thenWp_ok]
  have hfail : ∀ e, v.anchors = [] → wp (freeAndFail block e : XboxM P V Unit)
      (fun _ s' => StoreRead s')
      { s₁ with tls := { s₁.tls with world := { s₁.tls.world with verifier := v } } } := by
    intro e hv r s' hrun
    cases hrun
    exact storeRead_none hv hdata
  match loaded, hloaded with
  | .error e, hv => exact hfail e hv
  | .ok 0, hv => exact hfail .verify (hv.1 rfl)
  | .ok (n + 1), hv =>
    obtain ⟨-, certificates, hstore, rfl, hall⟩ := hv
    intro r s' hrun
    cases hrun
    refine ⟨?_, ?_⟩
    · intro hnone
      cases hnone
    · intro block' hblock'
      cases hblock'
      exact ⟨hlt, certificates, hstore, hblock, hall⟩

/-- A store that is read takes the place of the old one, or there is none. -/
theorem storeRead_readTrustStore (size : ℕ) :
    Keeps StoreRead (readTrustStore X size : XboxM P V Unit) := by
  have hremember : ∀ e, Keeps StoreRead (closeFileAndFail X e : XboxM P V Unit) := by
    intro e s hs r s' hrun
    cases hrun
    exact storeRead_apart (s := s) rfl rfl rfl hs
  have houtside : ∀ (s : XboxSystem P V) (v : V), StoreRead s →
      StoreRead { s with tls := { s.tls with world := { s.tls.world with outside := v } } } :=
    fun s v hs => storeRead_apart (s := s) rfl rfl rfl hs
  unfold readTrustStore
  apply maintains_bind
  · intro s hs r s' hrun
    cases hrun
    exact houtside s _ hs
  intro memory
  split
  · exact hremember _
  apply maintains_bind
  · intro s hs r s' hrun
    cases hrun
    exact houtside s _ hs
  intro data s hs
  rw [wp_bind]
  intro r s₁ hrun
  cases hrun
  rw [thenWp_ok]
  -- the block that was handed out is not that of the store in use
  have hnew : s.client.trustStoreData ≠ some s.tls.world.heap.next := by
    intro hblock
    exact absurd (hs.present _ hblock).1 (lt_irrefl _)
  split
  · intro r s' hrun
    have hfreed : StoreRead { s with tls := { s.tls with world := { s.tls.world with
        heap := (s.tls.world.heap.alloc data.val).free s.tls.world.heap.next
        outside := X.fclose s.tls.world.outside } } } :=
      storeRead_same (s := s) rfl (Nat.le_succ _)
        (fun block hlt => (lookup_free_of_ne hlt.ne).trans (lookup_alloc_of_lt hlt _)) rfl hs
    cases hrun
    refine storeRead_apart ?_ ?_ ?_ hfreed
    all_goals rfl
  · rw [wp_bind]
    intro r s₂ hrun
    cases hrun
    rw [thenWp_ok]
    refine wp_mono (storeRead_useTrustStore (lookup_alloc_self _ _) (Nat.lt_succ_self _) hnew) ?_
    intro r s' hr
    cases r with
    | ok u => exact hr
    | error e => exact hr

/-- Every part of a method keeps the store. -/
theorem storeRead_closed : MethodsClosed X (StoreRead : XboxSystem P V → Prop) where
  members s x hdata _ hs := storeRead_apart (s := s) rfl rfl hdata hs
  call s k fuel r t _ hrun hs := by
    obtain ⟨hverifier, hheap⟩ := store_of_call hrun
    exact storeRead_apart (s := s) (congrArg _ hverifier) hheap rfl hs
  outside s _ hs := storeRead_apart (s := s) rfl rfl rfl hs
  pin s _ hanchors hs := storeRead_apart (s := s) hanchors rfl rfl hs
  free := by
    intro s hs r s' hrun
    obtain ⟨s₁, hfree, hanchors, hdata, -⟩ := freeTrustStore_run s
    rw [hfree] at hrun
    cases hrun
    exact storeRead_none hanchors hdata
  read := storeRead_readTrustStore

/-- **The anchors are the certificates of the store**, before every call of every run whose
records fit. -/
theorem storeRead_of_run {v : V} {steps : List (XboxStep P V)} {s : XboxSystem P V}
    (hrun : XboxRun X (XboxSystem.fresh P v) steps s) (hfits : ∀ step ∈ steps, ReceiveFits step) :
    ∀ step ∈ steps, StoreRead step.before := by
  have hmembers : ∀ (s : XboxSystem P V) (x : XboxTlsClient),
      x.trustStoreData = s.client.trustStoreData → StoreRead s → StoreRead { s with client := x } :=
    fun s _ hdata hs => storeRead_apart (s := s) rfl rfl hdata hs
  have hrecv : ∀ (s : XboxSystem P V) fuel receivedNull outNull size r t,
      Model.recv (tlsEnv P X) fuel receivedNull outNull size s.tls = some (r, t) →
        StoreRead s → StoreRead { s with tls := t } := by
    intro s fuel receivedNull outNull size r t hcall hs
    obtain ⟨hverifier, hheap⟩ := store_of_call
      (show (Call.recv receivedNull outNull size).run _ fuel s.tls = _ from hcall)
    exact storeRead_apart (s := s) (congrArg _ hverifier) hheap rfl hs
  exact (kept_of_fittingRun storeRead_closed hmembers hrecv hrun (pendingFits_fresh v) hfits
    (storeRead_none rfl rfl)).2

/-! ## The verifier of one handshake -/

/-- The environment of `tls_` with a verifier and a heap that stay as they are. -/
def fixedStore (P : Crypto) (X : XboxEnv V) (v : VerifierObject) (h : Heap) :
    Env (XboxWorld V) :=
  { tlsEnv P X with
    verifyChain := fun _ chain hostname w =>
      verifyChainHere P X chain hostname { w with verifier := v, heap := h } }

/-- From a world with that verifier and that heap nothing is different. -/
theorem matching_fixedStore (v : VerifierObject) (h : Heap) :
    Matching P (SameStore v h) (tlsEnv P X) (fixedStore P X v h) where
  randomBytes := (matching_tlsEnv (P := P) (X := X)).randomBytes
  sendAll := (matching_tlsEnv (P := P) (X := X)).sendAll
  close := (matching_tlsEnv (P := P) (X := X)).close
  verifyChain _ chain hostname w₁ w₂ hw := by
    have hsame := related_verifyChainHere (P := P) (X := X) chain hostname w₁ w₂ hw
    obtain ⟨rfl, rfl, rfl⟩ := hw
    exact hsame
  verifySignature := (matching_tlsEnv (P := P) (X := X)).verifySignature
  malloc := (matching_tlsEnv (P := P) (X := X)).malloc
  sizeOfSize := rfl
  writeBehind := (matching_tlsEnv (P := P) (X := X)).writeBehind
  readBehind := (matching_tlsEnv (P := P) (X := X)).readBehind
  readRecord := related_readRecord fun _ n => related_callOutside (X.recvSome n)

/-- What the native verifier with these anchors accepts. -/
def nativeVerdicts (P : Crypto) (X : XboxEnv V) (v : VerifierObject) (h : Heap) : Verdicts where
  chain handle chain hostname := (acceptedBy (tlsEnv P X)).chain handle chain hostname ∧
    ∃ verifier, v.deref h = some verifier ∧
      (∃ leaf, LeafConditions P verifier (DatedBy X) hostname chain.leafDer leaf) ∧
      Trusted P (DatedBy X) verifier.anchors (chain.entries.map CertificateChainEntry.der)
  signature handle scheme leaf message signature :=
    (acceptedBy (tlsEnv P X)).signature handle scheme leaf message signature ∧
      NativeServerAuthVerifier.verifySignature P scheme leaf message signature = .ok ()

/-- What the clock of the platform shows is a moment of it. -/
theorem dates_datedBy : Dates (some X.unixTimeSeconds) (DatedBy X) :=
  fun v _ hdate => ⟨v, hdate⟩

/-- The verifier with a fixed store returns its own verdicts. -/
theorem abides_fixedStore (v : VerifierObject) (h : Heap) :
    Abides (fixedStore P X v h) (nativeVerdicts P X v h) where
  chain _ chain hostname w w' hrun := by
    have hwp : wpOk (verifyChainHere P X chain hostname)
        (fun _ _ => ∃ verifier, v.deref h = some verifier ∧
          (∃ leaf, LeafConditions P verifier (DatedBy X) hostname chain.leafDer leaf) ∧
          Trusted P (DatedBy X) verifier.anchors (chain.entries.map CertificateChainEntry.der))
        { w with verifier := v, heap := h } := by
      unfold verifyChainHere
      rw [wpOk_bind]
      intro w₁ w₂ hget
      cases hget
      split
      · exact wpOk_diverge _ _
      next verifier hderef =>
      intro _ w₃ hverify
      unfold callOutside at hverify
      split at hverify
      · cases hverify
      next r u hcall =>
      cases hverify
      obtain ⟨hleaf, htrusted⟩ :=
        wpOk_verifyChain dates_datedBy verifier chain hostname _ _ _ hcall
      exact ⟨verifier, hderef, hleaf, htrusted⟩
    exact ⟨⟨_, w', hrun⟩, hwp () w' hrun⟩
  signature _ scheme leaf message signature w w' hrun := by
    obtain ⟨hverify, -⟩ := Prod.mk.inj (Option.some.inj hrun)
    exact ⟨⟨w, w', hrun⟩, hverify⟩

/-! ## What `connect` does around its handshake -/

/-- Since `start` there was no handshake. -/
def Speechless {W : Type} (start : List Event) (s : System P W) : Prop :=
  ∃ evs, s.trace = start ++ evs ∧ handshakeEvents evs = []

section Speechless

variable {W : Type} {E : Env W} {start : List Event}

/-- Events outside the handshake add nothing to its log. -/
theorem speechless_append {s s' : System P W} (evs : List Event)
    (htrace : s'.trace = s.trace ++ evs) (hevs : handshakeEvents evs = [])
    (hs : Speechless start s) : Speechless start s' := by
  obtain ⟨before, hbefore, hnone⟩ := hs
  refine ⟨before ++ evs, by rw [htrace, hbefore, List.append_assoc], ?_⟩
  rw [handshakeEvents_append, hnone, hevs]
  rfl

/-- The log depends on the trace only. -/
theorem speechless_same {s s' : System P W} (htrace : s'.trace = s.trace)
    (hs : Speechless start s) : Speechless start s' :=
  speechless_append [] (by rw [htrace, List.append_nil]) rfl hs

/-- A protected record is no part of a handshake. -/
theorem speechless_sendProtected (t : UInt8) (payload : Bytes) :
    Keeps (Speechless start) (sendProtected E t payload : ClientM P W Unit) := by
  intro s hs
  unfold sendProtected
  rw [wp_bind, wp_getClient, thenWp_ok, wp_bind]
  apply wp_protectRecord
  · exact fun e w => speechless_same (s := s) rfl hs
  intro w _
  have hsealed : ∀ slot record, Speechless start (afterSeal s slot w record) :=
    fun _ _ => speechless_append (s := s) [.sealed _ _ _] rfl rfl hs
  rw [thenWp_ok, wp_bind, wp_deref]
  intro stream _
  rw [thenWp_ok]
  unfold writeStream
  rw [wp_bind, wp_callWorld]
  intro r w' _
  cases r with
  | error e => exact speechless_same (s := afterSeal s _ w _) rfl (hsealed _ _)
  | ok u =>
    rw [thenWp_ok, wp_emit]
    exact speechless_append (s := afterSeal s _ w _) [.wrote _] rfl rfl (hsealed _ _)

/-- `reset` is no part of a handshake. -/
theorem speechless_reset : Keeps (Speechless start) (reset E : ClientM P W Unit) := by
  intro s hs
  unfold reset
  rw [wp_bind, wp_getClient, thenWp_ok]
  split
  · exact maintains_throw (fun _ h => h) _ s hs
  rw [wp_bind]
  refine wp_of_run (closeStream_apply E s) ?_
  rw [thenWp_ok, wp_modifyClient]
  exact speechless_same (s := s) rfl hs

/-- `close` is no part of a handshake. -/
theorem speechless_close : Keeps (Speechless start) (close E : ClientM P W Unit) := by
  unfold close
  apply maintains_bind maintains_getClient
  intro c
  split
  · exact maintains_pure ()
  apply maintains_bind
  · unfold sendCloseNotify
    split
    · exact keeps_attempt (speechless_sendProtected _ _)
    · exact maintains_pure _
  intro _ s hs
  rw [wp_bind]
  refine wp_of_run (closeStream_apply E s) ?_
  rw [thenWp_ok, wp_modifyClient]
  exact speechless_same (s := s) rfl hs

/-- `key_update` is no part of a handshake. -/
theorem speechless_keyUpdate (requestPeerUpdate : Bool) {s s' : System P W}
    (hs : Speechless start s) (hrun : keyUpdate E requestPeerUpdate s = some (.ok (), s')) :
    Speechless start s' := by
  have hwp : wpOk (keyUpdate E requestPeerUpdate) (fun _ s' => Speechless start s') s := by
    unfold keyUpdate
    rw [wpOk_bind, wpOk_getClient]
    split
    · exact wpOk_throw _ _ _
    rw [wpOk_bind]
    apply wpOk_orFail
    refine wpOk_mono (wpOk_of_wp (speechless_sendProtected _ _ s hs)) ?_
    intro _ s₁ hs₁
    apply wpOk_orFail
    intro _ s₂ hupdate
    rw [updateClientKeys_run] at hupdate
    cases hupdate
    exact speechless_append (s := s₁) [.keysDerived _ _] rfl rfl hs₁
  exact hwp () s' hrun

end Speechless

/-- The store and its anchors are the same, and no handshake was made. -/
structure Apart (s s' : XboxSystem P V) : Prop where
  data : s'.client.trustStoreData = s.client.trustStoreData
  anchors : s'.tls.world.verifier.anchors = s.tls.world.verifier.anchors
  heap : s'.tls.world.heap = s.tls.world.heap
  silent : Speechless s.tls.trace s'.tls

/-- Nothing has changed. -/
theorem Apart.refl (s : XboxSystem P V) : Apart s s :=
  ⟨rfl, rfl, rfl, [], (List.append_nil _).symm, rfl⟩

/-- One change after the other. -/
theorem Apart.trans {s s' s'' : XboxSystem P V} (h : Apart s s') (h' : Apart s' s'') :
    Apart s s'' := by
  obtain ⟨evs, htrace, hnone⟩ := h'.silent
  exact ⟨h'.data.trans h.data, h'.anchors.trans h.anchors, h'.heap.trans h.heap,
    speechless_append evs htrace hnone h.silent⟩

/-- Nothing but the members and what lies outside changed. -/
theorem apart_members (s : XboxSystem P V) (x : XboxTlsClient) (v : V)
    (h : x.trustStoreData = s.client.trustStoreData) :
    Apart s ⟨x, { s.tls with world := { s.tls.world with outside := v } }⟩ :=
  ⟨h, rfl, rfl, [], (List.append_nil _).symm, rfl⟩

/-- A method of `tls_` that makes no handshake. -/
theorem apart_callTls {α : Type} {x : ClientM P (XboxWorld V) α} (k : Call) (n : ℕ)
    (f : α → Bytes) (hk : k.run (tlsEnv P X) n = (do let a ← x; pure (f a)))
    {s s' : XboxSystem P V} {r : Except Error α}
    (hsilent : ∀ r t, x s.tls = some (r, t) → Speechless s.tls.trace t)
    (hrun : callTls x s = some (r, s')) : Apart s s' := by
  unfold callTls at hrun
  split at hrun
  · cases hrun
  next r t hcall =>
  cases hrun
  have hwhole : k.run (tlsEnv P X) n s.tls = some (r.map f, t) := by
    rw [hk, bind_apply, hcall]
    cases r with
    | ok a => rfl
    | error e => rfl
  obtain ⟨hverifier, hheap⟩ := store_of_call hwhole
  exact ⟨rfl, congrArg _ hverifier, hheap, hsilent r t hcall⟩

/-- `tls_.close()` changes neither verifier nor store. -/
theorem apart_tlsClose {s s' : XboxSystem P V} {r : Except Error Unit}
    (hrun : callTls (Model.close (tlsEnv P X)) s = some (r, s')) : Apart s s' := by
  refine apart_callTls .close 0 (fun _ => []) rfl (fun r t hcall => ?_) hrun
  exact speechless_close.run ⟨[], (List.append_nil _).symm, rfl⟩ hcall

/-- `tls_.reset()` changes neither verifier nor store. -/
theorem apart_tlsReset {s s' : XboxSystem P V} {r : Except Error Unit}
    (hrun : callTls (Model.reset (tlsEnv P X)) s = some (r, s')) : Apart s s' := by
  refine apart_callTls .reset 0 (fun _ => []) rfl (fun r t hcall => ?_) hrun
  exact speechless_reset.run ⟨[], (List.append_nil _).symm, rfl⟩ hcall

/-- An error that is remembered is no good end. -/
theorem wpOk_rememberError {α : Type} (e : Error) (Q : α → XboxSystem P V → Prop)
    (s : XboxSystem P V) : wpOk (rememberError e) Q s := by
  intro a s' hrun
  cases hrun

/-- The failing exit does not succeed. -/
theorem wpOk_failConnect (e : Error) (Q : Unit → XboxSystem P V → Prop) (s : XboxSystem P V) :
    wpOk (failConnect e) Q s := by
  intro a s' hrun
  cases hrun

/-- The exit that closes the socket does not succeed. -/
theorem wpOk_closeAndFail (e : Error) (Q : Unit → XboxSystem P V → Prop) (s : XboxSystem P V) :
    wpOk (do closeSocket X; failConnect e) Q s := by
  intro a s' hrun
  cases hrun

/-- A connection that was left changed neither verifier nor store. -/
theorem wpOk_leaveConnection (options : XboxTlsOptions) (s : XboxSystem P V) :
    wpOk (leaveConnection X options) (fun _ s' => Apart s s') s := by
  unfold leaveConnection
  have hclose : wpOk (closeConnected X options) (fun _ s' => Apart s s') s := by
    unfold closeConnected
    rw [wpOk_bind]
    intro t s₁ hget
    cases hget
    split
    · exact (wpOk_pure _ _ _).mpr (Apart.refl s)
    split
    · exact wpOk_rememberError _ _ _
    rw [wpOk_bind, wpOk_attempt]
    intro r s₁ hrun
    have hapart : Apart s s₁ := by
      split at hrun
      · exact apart_tlsClose hrun
      · exact apart_tlsReset hrun
    intro _ s₂ hsocket
    cases hsocket
    exact hapart.trans (apart_members s₁ _ _ rfl)
  refine wpOk_bind_of_spec hclose ?_
  intro _ s₁ hs₁
  unfold resetToIdle
  rw [wpOk_bind]
  intro t s₂ hget
  cases hget
  split
  · refine wpOk_onError ?_ fun e s' => wpOk_rememberError e _ s'
    intro _ s₂ hrun
    exact hs₁.trans (apart_tlsReset hrun)
  · exact (wpOk_pure _ _ _).mpr hs₁

/-! ## The handshake of one `connect` -/

/-- The verifier has the pin of the options. -/
def PinnedBy (options : XboxTlsOptions) (v : VerifierObject) : Prop :=
  v.leafCertificateSha256Pin = options.certificateSha256Pin.getD (.zero 32) ∧
    v.leafCertificateSha256PinEnabled = options.certificateSha256Pin.isSome

/-- The pin of the options is set. -/
theorem wpOk_setPin (options : XboxTlsOptions) (s : XboxSystem P V) :
    wpOk (setPin options)
      (fun _ s' => Apart s s' ∧ PinnedBy options s'.tls.world.verifier) s := by
  unfold setPin
  cases hpin : options.certificateSha256Pin with
  | some pin =>
    have hlength : ¬ pin.val.length ≠ 32 := by simp [pin.property]
    intro _ s' hrun
    unfold VerifierObject.setLeafCertificateSha256Pin at hrun
    dsimp only at hrun
    rw [if_neg hlength] at hrun
    cases hrun
    refine ⟨⟨rfl, rfl, rfl, [], (List.append_nil _).symm, rfl⟩, ?_, ?_⟩
    · rw [hpin]
      exact Subtype.ext (FixedBytes.ofBytes_val_of_length pin.val pin.property)
    · rw [hpin]
      rfl
  | none =>
    intro _ s' hrun
    cases hrun
    refine ⟨⟨rfl, rfl, rfl, [], (List.append_nil _).symm, rfl⟩, ?_, ?_⟩
    · rw [hpin]
      rfl
    · rw [hpin]
      rfl

/-- A call to the console that returns. -/
theorem wpOk_callOutside {α : Type} (x : Prog V Error α) {Q : α → XboxSystem P V → Prop}
    {s : XboxSystem P V}
    (h : ∀ a v, Q a { s with tls := { s.tls with world := { s.tls.world with outside := v } } }) :
    wpOk (callXboxWorld (callOutside x)) Q s := by
  intro a s' hrun
  unfold callXboxWorld callTls callWorld callOutside at hrun
  cases hx : x s.tls.world.outside with
  | none =>
    rw [hx] at hrun
    cases hrun
  | some out =>
    obtain ⟨_, v⟩ := out
    rw [hx] at hrun
    cases hrun
    exact h a v

/-- The handshake of a `connect`: it starts with the store of `s` and the pin of the options. -/
structure Connects (X : XboxEnv V) (fuel : ℕ) (hostname : CString) (options : XboxTlsOptions)
    (s s' : XboxSystem P V) : Prop where
  run : ∃ s₁ : XboxSystem P V, Apart s s₁ ∧ PinnedBy options s₁.tls.world.verifier ∧
    ∃ t, Model.connect (tlsEnv P X) fuel (options.clientConfig hostname) s₁.tls =
      some (.ok (), t) ∧ Speechless t.trace s'.tls

/-- A connection that was opened made one handshake. -/
theorem wpOk_openConnection (fuel : ℕ) (hostname : CString) (options : XboxTlsOptions)
    {s₀ s : XboxSystem P V} (hs : Apart s₀ s) (hpin : PinnedBy options s.tls.world.verifier) :
    wpOk (openConnection X fuel hostname options)
      (fun _ s' => Connects X fuel hostname options s₀ s') s := by
  unfold openConnection
  rw [wpOk_bind]
  refine wpOk_onError ?_ fun e s' => wpOk_failConnect e _ s'
  apply wpOk_callOutside
  intro _ v
  rw [wpOk_bind]
  refine wpOk_onError ?_ fun e s' => wpOk_closeAndFail e _ s'
  apply wpOk_callOutside
  intro _ v'
  refine wpOk_onError ?_ fun e s' => wpOk_closeAndFail e _ s'
  intro _ s' hrun
  have hnow :
      Apart s₀ { s with tls := { s.tls with world := { s.tls.world with outside := v' } } } :=
    hs.trans (apart_members s s.client v' rfl)
  unfold callTls at hrun
  split at hrun
  · cases hrun
  next r t hcall =>
  cases hrun
  exact ⟨_, hnow, hpin, t, hcall, [], (List.append_nil _).symm, rfl⟩

/-- What is no part of a handshake may follow it. -/
theorem connects_of_speechless {fuel : ℕ} {hostname : CString} {options : XboxTlsOptions}
    {s s' s'' : XboxSystem P V} (h : Connects X fuel hostname options s s')
    (hsilent : Speechless s'.tls.trace s''.tls) : Connects X fuel hostname options s s'' := by
  obtain ⟨s₁, hapart, hpin, t, hrun, hs'⟩ := h.run
  obtain ⟨evs, htrace, hnone⟩ := hsilent
  exact ⟨s₁, hapart, hpin, t, hrun, speechless_append evs htrace hnone hs'⟩

/-- The check of the protocol changes nothing. -/
theorem wpOk_checkAlpn (options : XboxTlsOptions) (s : XboxSystem P V) :
    wpOk (checkAlpn X options) (fun _ s' => s' = s) s := by
  unfold checkAlpn
  rw [wpOk_bind]
  intro t s₁ hget
  cases hget
  split
  · rw [wpOk_bind, wpOk_attempt]
    intro r s₁ _
    exact wpOk_closeAndFail _ _ s₁
  · exact (wpOk_pure _ _ _).mpr rfl

/-- The key update is no part of a handshake. -/
theorem wpOk_requestKeyUpdate (options : XboxTlsOptions) (s : XboxSystem P V) :
    wpOk (requestKeyUpdate X options) (fun _ s' => Speechless s.tls.trace s'.tls) s := by
  have hstart : Speechless s.tls.trace s.tls := ⟨[], (List.append_nil _).symm, rfl⟩
  unfold requestKeyUpdate
  split
  · rw [wpOk_bind]
    refine wpOk_onError ?_ fun e s' => wpOk_failConnect e _ s'
    intro _ s₁ hrun
    unfold callTls at hrun
    split at hrun
    · cases hrun
    next r t hcall =>
    cases hrun
    intro _ s₂ hstats
    cases hstats
    exact speechless_keyUpdate true hstart hcall
  · exact (wpOk_pure _ _ _).mpr hstart

/-- `connect` on an idle client made one handshake. -/
theorem wpOk_connectIdle (fuel : ℕ) (hostname : CString) (options : XboxTlsOptions)
    {s₀ s : XboxSystem P V} (hs : Apart s₀ s) :
    wpOk (connectIdle X fuel hostname options)
      (fun _ s' => Connects X fuel hostname options s₀ s') s := by
  unfold connectIdle
  split
  · exact wpOk_failConnect _ _ _
  rw [wpOk_bind]
  refine wpOk_onError ?_ fun e s' => wpOk_failConnect e _ s'
  refine wpOk_mono (wpOk_setPin options s) ?_
  rintro _ s₁ ⟨hapart, hpin⟩
  refine wpOk_bind_of_spec (wpOk_openConnection fuel hostname options (hs.trans hapart) hpin) ?_
  intro _ s₂ hs₂
  rw [wpOk_bind]
  intro _ s₃ hactive
  cases hactive
  refine wpOk_bind_of_spec (wpOk_checkAlpn options _) ?_
  rintro _ _ rfl
  refine wpOk_bind_of_spec (wpOk_requestKeyUpdate options _) ?_
  intro _ s₄ hsilent
  rw [wpOk_bind]
  intro _ s₅ hstats
  cases hstats
  intro _ s₆ hremember
  cases hremember
  exact connects_of_speechless hs₂ hsilent

/-- **A `connect` that succeeds** has made a handshake with the store and the pin. -/
theorem wpOk_xboxConnect (fuel : ℕ) (hostname : Option CString) (options : XboxTlsOptions)
    (s : XboxSystem P V) :
    wpOk (XboxTlsClient.connect X fuel hostname options)
      (fun _ s' => ∃ host, hostname = some host ∧ Connects X fuel host options s s') s := by
  unfold XboxTlsClient.connect
  rw [wpOk_bind]
  intro _ s₁ hattempt
  cases hattempt
  rw [wpOk_bind]
  intro x s₂ hget
  cases hget
  cases hostname with
  | none => exact wpOk_failConnect _ _ _
  | some host =>
    dsimp only
    split
    · exact wpOk_failConnect _ _ _
    · refine wpOk_bind_of_spec (wpOk_leaveConnection options _) ?_
      intro _ s₂ hs₂
      have hattempted : ∀ x : XboxTlsClient, x.trustStoreData = s.client.trustStoreData →
          Apart s { s with client := x } := fun x h => apart_members s x s.tls.world.outside h
      have hcounted : Apart s s₂ := by
        refine (hattempted _ ?_).trans hs₂
        rfl
      refine wpOk_mono (wpOk_connectIdle fuel host options hcounted) ?_
      intro _ s₃ hs₃
      exact ⟨host, rfl, hs₃⟩

/-- The call of a step that connects. -/
theorem connects_of_target {call : XboxCall} {s s' : XboxSystem P V} {r : Except Error Bytes}
    {hostname : Option CString} {options : XboxTlsOptions} {bytes : Bytes}
    (htarget : connectTarget s.client call = some (hostname, options)) (hok : r = .ok bytes)
    (hret : XboxReturns X call s r s') :
    ∃ fuel host, hostname = some host ∧ Connects X fuel host options s s' := by
  obtain ⟨fuel, hrun⟩ := hret
  subst hok
  have hwp : wpOk (XboxTlsClient.connect X fuel hostname options)
      (fun _ s' => ∃ host, hostname = some host ∧ Connects X fuel host options s s') s :=
    wpOk_xboxConnect fuel hostname options s
  have hconnect : withoutBytes (XboxTlsClient.connect X fuel hostname options) s =
      some (.ok bytes, s') := by
    cases call with
    | connectTo hostname' port alpn =>
      cases htarget
      exact hrun
    | connect hostname' options' =>
      cases htarget
      exact hrun
    | _ => cases htarget
  obtain ⟨_, s₁, hfirst, hlast⟩ := (bind_eq_ok_iff _ _ _ _ _).mp hconnect
  cases hlast
  obtain ⟨host, hhost, hs'⟩ := hwp _ _ hfirst
  exact ⟨fuel, host, hhost, hs'⟩

/-! ## The main result -/

/-- A verifier in memory hands its spans and its pin to the one that is run. -/
theorem deref_fields {v : VerifierObject} {h : Heap} {verifier : NativeServerAuthVerifier}
    (hderef : v.deref h = some verifier) :
    v.anchors.mapM h.read = some verifier.anchors ∧
      verifier.leafCertificateSha256Pin = v.leafCertificateSha256Pin ∧
      verifier.leafCertificateSha256PinEnabled = v.leafCertificateSha256PinEnabled := by
  obtain ⟨ders, hread, hrest⟩ := Option.bind_eq_some_iff.mp hderef
  split at hrest
  · cases hrest
    exact ⟨hread, rfl, rfl⟩
  · cases hrest

/-- The verifier of a handshake is that of the store and of the options. -/
theorem deref_of_store {s s₁ : XboxSystem P V} (hs : StoreRead s) (hapart : Apart s s₁)
    {options : XboxTlsOptions} (hpin : PinnedBy options s₁.tls.world.verifier)
    {verifier : NativeServerAuthVerifier}
    (hderef : s₁.tls.world.verifier.deref s₁.tls.world.heap = some verifier)
    (hsome : verifier.anchors ≠ []) :
    ∃ (certificates : List Bytes) (h : HoldsStore s certificates),
      verifier = verifierOf certificates h.storable.count options := by
  obtain ⟨hread, hpinned, henabled⟩ := deref_fields hderef
  rw [hapart.anchors] at hread
  cases hdata : s.client.trustStoreData with
  | none =>
    rw [hs.absent hdata] at hread
    exact absurd (Option.some.inj hread).symm hsome
  | some block =>
    obtain ⟨-, certificates, hstore, hheld, hall⟩ := hs.present block hdata
    obtain ⟨verifier', hderef', hanchors⟩ := hall s.tls.world.heap hheld
    have hcertificates : verifier.anchors = certificates := by
      have hread' := (deref_fields hderef').1
      rw [hapart.heap] at hread
      rw [← hanchors]
      exact Option.some.inj (hread.symm.trans hread')
    refine ⟨certificates, ⟨hstore, block, hdata, hheld⟩, ?_⟩
    obtain ⟨anchors, bound, pin, enabled⟩ := verifier
    dsimp only at hcertificates hpinned henabled
    subst hcertificates
    rw [hpin.1] at hpinned
    rw [hpin.2] at henabled
    subst hpinned henabled
    rfl

/-- What the native verifier accepted it vouches for. -/
theorem vouches_of_native {v : VerifierObject} {h : Heap} {config : ClientConfig}
    {log : List Event} {a : Authentication}
    (ha : IsAuthentication P (nativeVerdicts P X v h) config log a) :
    ∃ verifier, v.deref h = some verifier ∧ verifier.anchors ≠ [] ∧ Vouches P X verifier a := by
  obtain ⟨-, verifier, hderef, ⟨leaf, hleaf⟩, htrusted⟩ := ha.accepted
  obtain ⟨-, hsignature⟩ := ha.signed
  have hsame : leaf = a.leaf := by
    have hparses := hleaf.parses
    rw [ha.leaf] at hparses
    exact (Except.ok.inj hparses).symm
  subst hsame
  refine ⟨verifier, hderef, ?_, hleaf, htrusted, hsignature⟩
  intro hnone
  obtain ⟨anchor, hanchor, -⟩ := htrusted
  rw [hnone] at hanchor
  cases hanchor

/-- What the native verifier accepted the verifier of `tls_` accepted. -/
theorem accepted_of_native {v : VerifierObject} {h : Heap} {config : ClientConfig}
    {log : List Event} {a : Authentication}
    (ha : IsAuthentication P (nativeVerdicts P X v h) config log a) :
    IsAuthentication P (acceptedBy (tlsEnv P X)) config log a :=
  { ha with
    accepted := ha.accepted.1
    signed := ha.signed.1 }

/-- **One handshake**: its server is authenticated against the store that was held before,
exactly when its last Certificate is directly followed by a CertificateVerify. -/
theorem storeAuthenticated_of_connects {s s' : XboxSystem P V} (hs : StoreRead s) {fuel : ℕ}
    {hostname : CString} {options : XboxTlsOptions}
    (hconnects : Connects X fuel hostname options s s') :
    ∃ evs h, s'.tls.trace = s.tls.trace ++ evs ∧
      IsHandshake P (acceptedBy (tlsEnv P X)) (options.clientConfig hostname) hostname h
        (handshakeEvents evs) ∧
      (StoreAuthenticated X s hostname options (handshakeEvents evs) ↔
        LastCertificateVerified (flightTypes (handshakeEvents evs))) := by
  obtain ⟨s₁, hapart, hpin, t, hrun, hsilent⟩ := hconnects.run
  obtain ⟨hostname', h, hconnection⟩ := connect_log (tlsEnv P X) (abides_acceptedBy _) hrun
  obtain ⟨evs, htrace, hlog, -, -⟩ := hconnection.log
  obtain ⟨before, hbefore, hnobefore⟩ := hapart.silent
  obtain ⟨after, hafter, hnoafter⟩ := hsilent
  have hhost : hostname' = hostname := (Option.some.inj hlog.configured).symm
  subst hhost
  have hevents : handshakeEvents (before ++ evs ++ after) = handshakeEvents evs := by
    rw [handshakeEvents_append, handshakeEvents_append, hnobefore, hnoafter, List.append_nil]
    rfl
  refine ⟨before ++ evs ++ after, h, ?_, hevents.symm ▸ hlog, ?_⟩
  · rw [hafter, htrace, hbefore]
    simp only [List.append_assoc]
  rw [hevents]
  constructor
  · rintro ⟨certificates, hstore, a, ha, -⟩
    exact lastCertificateVerified_of_authenticated hlog ⟨a, ha⟩
  intro hlast
  -- the same run, with the verifier and the heap as they were at its start
  have halike : Alike (SameStore s₁.tls.world.verifier s₁.tls.world.heap) s₁.tls s₁.tls :=
    ⟨rfl, rfl, rfl, rfl, rfl⟩
  obtain ⟨t', hfixed, hend⟩ :=
    (related_connect (matching_fixedStore _ _) fuel _).run halike hrun
  obtain ⟨hostname', h', hconnection'⟩ :=
    connect_log _ (abides_fixedStore _ _) hfixed
  obtain ⟨evs', htrace', hlog', -, -⟩ := hconnection'.log
  have hsame : evs' = evs :=
    List.append_cancel_left (htrace'.symm.trans (hend.trace.symm.trans htrace))
  subst hsame
  obtain ⟨a, ha⟩ := authenticated_of_lastCertificateVerified hlog' hlast
  obtain ⟨verifier, hderef, hsome, hvouches⟩ := vouches_of_native ha
  obtain ⟨certificates, hstore, rfl⟩ := deref_of_store hs hapart hpin hderef hsome
  exact ⟨certificates, hstore, a, accepted_of_native ha, hvouches⟩

/-- **The console trusts its store only.**  In every run of `XboxTlsClient` whose records fit the
caller's buffers and `pending_app_`, whatever the console does, a `connect` that succeeds has made
one handshake, and if its last Certificate is directly followed by a CertificateVerify the server
was authenticated against the store that the client held: by certificates of the block of
`trust_store_data_`, for the name and under the pin of this call, each valid at a time of the
clock, and by a signature over the transcript. -/
theorem storeAuthenticated_of_run (X : XboxEnv V) {v : V} {steps : List (XboxStep P V)}
    {s : XboxSystem P V} (hrun : XboxRun X (XboxSystem.fresh P v) steps s)
    (hfits : ∀ step ∈ steps, ReceiveFits step) {step : XboxStep P V}
    (hstep : step ∈ steps) {hostname : Option CString} {options : XboxTlsOptions}
    (htarget : connectTarget step.before.client step.call = some (hostname, options))
    {bytes : Bytes} (hok : step.result = .ok bytes) :
    ∃ host evs h, hostname = some host ∧ step.after.tls.trace = step.before.tls.trace ++ evs ∧
      IsHandshake P (acceptedBy (tlsEnv P X)) (options.clientConfig host) host h
        (handshakeEvents evs) ∧
      (StoreAuthenticated X step.before host options (handshakeEvents evs) ↔
        LastCertificateVerified (flightTypes (handshakeEvents evs))) := by
  obtain ⟨fuel, host, hhost, hconnects⟩ :=
    connects_of_target htarget hok (returns_of_xboxRun hrun step hstep)
  obtain ⟨evs, h, hevs⟩ :=
    storeAuthenticated_of_connects (storeRead_of_run hrun hfits step hstep) hconnects
  exact ⟨host, evs, h, hhost, hevs⟩

/-! ## One connection -/

/-- A `Crypto` for which every RSA signature is right. -/
def trustingCrypto : Crypto where
  __ := blankCrypto
  nativeRsaPssSha256Verify _ _ _ := .ok ()
  nativeRsaPkcs1Sha256Verify _ _ _ := .ok ()

/-- A console with a trust store of one certificate, at a time at which that is valid. -/
def datedConsole : XboxEnv Bytes where
  __ := console
  unixTimeSeconds w := (1700000000, w)

/-- The certificate of the store without its `cA` flag. -/
def leafCertificate : Bytes := onceCertificate.set 113 0

/-- A flight with that certificate: Certificate, CertificateVerify, Finished. -/
def storedFlight : Bytes := certificateMessages leafCertificate ++ blankFinished

/-- A fresh client, to which the server sends that flight. -/
def storedClient : XboxSystem trustingCrypto Bytes :=
  .fresh trustingCrypto (blankHandshake storedFlight)

/-- Which calls succeed, and the messages of the flights that they accept. -/
def flightsAfter (calls : List XboxCall) : Option (List (Bool × List UInt8)) :=
  (runCalls datedConsole 5 calls storedClient).map fun run => run.1.map fun step =>
    (step.result.isOk,
      flightTypes (handshakeEvents (step.after.tls.trace.drop step.before.tls.trace.length)))

/-- A connection to a server that the store vouches for. -/
theorem storeAuthenticated_once : ∃ steps s, XboxRun datedConsole storedClient steps s ∧
    ∃ step ∈ steps, step.call = .connect (some hostXY) .default ∧
      ∃ evs, step.after.tls.trace = step.before.tls.trace ++ evs ∧
        StoreAuthenticated datedConsole step.before hostXY .default (handshakeEvents evs) := by
  have hafter : flightsAfter [.initializeDefault, .connect (some hostXY) .default] =
      some [(true, []), (true, [hsCertificate, hsCertificateVerify, hsFinished])] := by
    decide +kernel
  unfold flightsAfter at hafter
  obtain ⟨⟨steps, s⟩, hcalls, hresults⟩ := Option.map_eq_some_iff.mp hafter
  obtain ⟨hrun, hsame⟩ := xboxRun_of_runCalls hcalls
  obtain ⟨first, rest, rfl, -, hrest⟩ := List.map_eq_cons_iff.mp hresults
  obtain ⟨second, rest, rfl, hsecond, hnil⟩ := List.map_eq_cons_iff.mp hrest
  obtain rfl := List.map_eq_nil_iff.mp hnil
  have hcall : second.call = .connect (some hostXY) .default :=
    (List.cons.inj (List.cons.inj hsame).2).1
  have hfits := receiveFits_of_calls hsame (by decide)
  obtain ⟨hisOk, htypes⟩ := Prod.mk.inj hsecond
  have hmem : second ∈ [first, second] := List.mem_cons_of_mem _ (List.mem_singleton_self _)
  obtain ⟨bytes, hok⟩ : ∃ bytes, second.result = .ok bytes := by
    cases hresult : second.result with
    | ok bytes => exact ⟨bytes, rfl⟩
    | error e =>
      rw [hresult] at hisOk
      cases hisOk
  have htarget : connectTarget second.before.client second.call =
      some (some hostXY, .default) := by
    rw [hcall]
    rfl
  obtain ⟨host, evs, h, hhost, htrace, -, hauthenticated⟩ :=
    storeAuthenticated_of_run datedConsole hrun hfits hmem htarget hok
  obtain rfl := Option.some.inj hhost
  refine ⟨_, s, hrun, second, hmem, hcall, evs, htrace, hauthenticated.2 ?_⟩
  rw [htrace, List.drop_left] at htypes
  rw [htypes]
  exact ⟨[], [hsFinished], rfl, by decide⟩

end XboxTls.Analysis
