import XboxTls.Analysis.TrustAnchors

/-!
# In which order `XboxTlsClient` uses its environment

The network is started before a connection and stopped with the socket closed, and between two
calls no file is open.  `Orderly` says what an environment has to promise to a program that keeps
to this order; `sound_of_run` is that every run of the client whose records fit does.
-/

set_option autoImplicit false

namespace XboxTls.Analysis

open Programs Programs.Prog XboxTls.Model XboxTls.Interface

variable {P : Crypto} {V : Type}

/-- `J network file` is what holds of the environment while the network is started or not and a
file is open or not, and `C` is what closing the socket adds. -/
structure Orderly (X : XboxEnv V) (J : Bool → Bool → V → Prop) (C : V → Prop) : Prop where
  networkStartup : Leads (J false false) (J true false) (J false false) X.networkStartup
  networkCleanup : ∀ v, J true false v → C v →
    J false false (X.networkCleanup v) ∧ C (X.networkCleanup v)
  randomBytes : ∀ network n, Keeps (J network false) (X.randomBytes n)
  unixTimeSeconds : ∀ network v, J network false v → J network false (X.unixTimeSeconds v).2
  connectTcp : ∀ hostname port, Keeps (J true false) (X.connectTcp hostname port)
  setIoTimeouts : ∀ sendMs receiveMs, Keeps (J true false) (X.setIoTimeouts sendMs receiveMs)
  sendAll : ∀ network bytes, Keeps (J network false) (X.sendAll bytes)
  recvSome : ∀ network n, Keeps (J network false) (X.recvSome n)
  closeSocket : ∀ network v, J network false v →
    J network false (X.closeSocket v) ∧ C (X.closeSocket v)
  fopen : ∀ network path v, J network false v → J network (X.fopen path v).1 (X.fopen path v).2
  fseekEnd : ∀ network v, J network true v → J network true (X.fseekEnd v).2
  ftell : ∀ network v, J network true v → J network true (X.ftell v).2
  fseekSet : ∀ network v, J network true v → J network true (X.fseekSet v).2
  fread : ∀ network n v, J network true v → J network true (X.fread n v).2
  fclose : ∀ network v, J network true v → J network false (X.fclose v)
  malloc : ∀ network file n v, J network file v → J network file (X.malloc n v).2

/-- On the heap lie the blocks of `pending` and the trust store in use. -/
structure Owns (pending : List ℕ) (heap : Heap) (data : Option ℕ) : Prop where
  blocks : heap.blocks.map Prod.fst = pending ++ data.toList
  nodup : (heap.blocks.map Prod.fst).Nodup
  frontier : ∀ block ∈ heap.blocks.map Prod.fst, block < heap.next

section Heaps

variable {pending : List ℕ} {heap : Heap} {data : Option ℕ} {block : ℕ}

/-- A block that is freed is gone from the blocks. -/
theorem map_fst_free (heap : Heap) (block : ℕ) :
    (heap.free block).blocks.map Prod.fst = (heap.blocks.map Prod.fst).filter (· ≠ block) := by
  rw [List.filter_map]
  rfl

/-- A block that is allocated is pending. -/
theorem owns_alloc (h : Owns [] heap data) (bytes : Bytes) :
    Owns [heap.next] (heap.alloc bytes) data := by
  refine ⟨congrArg (heap.next :: ·) h.blocks, ?_, ?_⟩
  · refine List.nodup_cons.mpr ⟨fun hmem => ?_, h.nodup⟩
    exact lt_irrefl _ (h.frontier _ hmem)
  · intro block hblock
    rcases List.mem_cons.mp hblock with rfl | hold
    · exact Nat.lt_succ_self _
    · exact (h.frontier block hold).trans (Nat.lt_succ_self _)

/-- A block that is there is given back. -/
theorem owns_free {pending' : List ℕ} {data' : Option ℕ} (h : Owns pending heap data)
    (hrest : (pending ++ data.toList).filter (· ≠ block) = pending' ++ data'.toList) :
    Owns pending' (heap.free block) data' := by
  refine ⟨?_, ?_, ?_⟩
  · rw [map_fst_free, h.blocks]
    exact hrest
  · rw [map_fst_free]
    exact h.nodup.filter _
  · intro other hother
    rw [map_fst_free] at hother
    exact h.frontier other (List.mem_of_mem_filter hother)

/-- A pending block that is freed is no longer owned. -/
theorem owns_free_pending (h : Owns [block] heap data) : Owns [] (heap.free block) data := by
  apply owns_free h
  have hnodup := h.nodup
  rw [h.blocks] at hnodup
  have hnew := (List.nodup_cons.mp hnodup).1
  simpa using fun other hother (heq : other = block) => hnew (heq ▸ by simpa using hother)

/-- The block of the store that is freed is no longer owned. -/
theorem owns_free_data (h : Owns pending heap (some block)) :
    Owns pending (heap.free block) none := by
  apply owns_free h
  have hnodup := h.nodup
  rw [h.blocks] at hnodup
  have hnew := (List.nodup_append.mp hnodup).2.2
  simpa using fun other hother => hnew other hother block (by simp)

/-- The block that was read becomes the trust store. -/
theorem owns_adopt (h : Owns [block] heap none) : Owns [] heap (some block) :=
  ⟨h.blocks, h.nodup, h.frontier⟩

end Heaps

/-- The environment is as `j` says, these are the two flags of the client, and besides its trust
store only the blocks of `pending` are on the heap. -/
structure Situated (j : V → Prop) (network initialized : Bool) (pending : List ℕ)
    (s : XboxSystem P V) : Prop where
  outside : j s.tls.world.outside
  network : s.client.networkStarted = network
  initialized : s.client.initialized = initialized
  memory : Owns pending s.tls.world.heap s.client.trustStoreData

section Primitives

variable {α β : Type} {j j' k : V → Prop} {network initialized : Bool}
  {pending : List ℕ} {I J : XboxSystem P V → Prop}

/-- The flags that `getXbox` reads are these. -/
theorem leads_getXbox {f : XboxTlsClient → XboxM P V β}
    (hf : ∀ x : XboxTlsClient, x.networkStarted = network → x.initialized = initialized →
      Leads (Situated j network initialized pending) I J (f x)) :
    Leads (Situated j network initialized pending) I J (getXbox >>= f) := by
  intro s hs r s' hrun
  exact hf s.client hs.network hs.initialized s hs r s' hrun

/-- A read of `tls_` changes nothing. -/
theorem situated_getTls :
    Leads (Situated j network initialized pending) (Situated j network initialized pending) J
      (getTls : XboxM P V (TlsClient P)) := by
  intro s hs r s' hrun
  cases hrun
  exact hs

/-- A change of members that are not resources. -/
theorem situated_modifyXbox {f : XboxTlsClient → XboxTlsClient}
    (hf : ∀ x, (f x).networkStarted = x.networkStarted ∧ (f x).initialized = x.initialized ∧
      (f x).trustStoreData = x.trustStoreData) :
    Leads (Situated j network initialized pending) (Situated j network initialized pending) J
      (modifyXbox f : XboxM P V Unit) := by
  intro s hs r s' hrun
  cases hrun
  obtain ⟨hnetwork, hinitialized, hdata⟩ := hf s.client
  refine ⟨hs.outside, hnetwork.trans hs.network, hinitialized.trans hs.initialized, ?_⟩
  show Owns pending _ (f s.client).trustStoreData
  rw [hdata]
  exact hs.memory

/-- `remember(XT_OK)` changes the last error only. -/
theorem situated_rememberOk :
    Leads (Situated j network initialized pending) (Situated j network initialized pending) J
      (rememberOk : XboxM P V Unit) :=
  situated_modifyXbox fun _ => ⟨rfl, rfl, rfl⟩

/-- `remember` of an error changes the last error only. -/
theorem situated_rememberError (e : Error) :
    Leads (Situated j network initialized pending) I (Situated j network initialized pending)
      (rememberError e : XboxM P V α) :=
  leads_bind (situated_modifyXbox fun _ => ⟨rfl, rfl, rfl⟩) fun _ => leads_throw (fun _ h => h) e

/-- An assignment to the verifier. -/
theorem situated_changeVerifier (f : VerifierObject → VerifierObject) :
    Leads (Situated j network initialized pending) (Situated j network initialized pending) J
      (updateXboxWorld fun w => ((), { w with verifier := f w.verifier }) : XboxM P V Unit) := by
  intro s hs r s' hrun
  cases hrun
  exact ⟨hs.outside, hs.network, hs.initialized, hs.memory⟩

/-- A block is handed out. -/
theorem leads_alloc {bytes : Bytes} {f : ℕ → XboxM P V β}
    (hf : ∀ block, Leads (Situated j network initialized [block]) I J (f block)) :
    Leads (Situated j network initialized []) I J
      (updateXboxWorld (fun w => (w.heap.next, { w with heap := w.heap.alloc bytes })) >>= f) := by
  intro s hs
  rw [wp_bind]
  intro r s₁ hrun
  cases hrun
  exact hf _ _ ⟨hs.outside, hs.network, hs.initialized, owns_alloc hs.memory bytes⟩

/-- The block of the last `malloc` is given back. -/
theorem situated_free (block : ℕ) :
    Leads (Situated j network initialized [block]) (Situated j network initialized []) J
      (updateXboxWorld fun w => ((), { w with heap := w.heap.free block }) : XboxM P V Unit) := by
  intro s hs r s' hrun
  cases hrun
  exact ⟨hs.outside, hs.network, hs.initialized, owns_free_pending hs.memory⟩

/-- The exit that frees a pending block. -/
theorem situated_freeAndFail (block : ℕ) (e : Error) :
    Leads (Situated j network initialized [block]) I (Situated j network initialized [])
      (freeAndFail block e : XboxM P V Unit) :=
  leads_bind (situated_free block) fun _ => situated_rememberError e

/-- A change of the outside world that leads from one condition to another. -/
theorem situated_updateOutside {f : V → α × V} (hf : ∀ v, j v → j' (f v).2) :
    Leads (Situated j network initialized pending) (Situated j' network initialized pending) J
      (updateXboxWorld (updateOutside f) : XboxM P V α) := by
  intro s hs r s' hrun
  cases hrun
  exact ⟨hf _ hs.outside, hs.network, hs.initialized, hs.memory⟩

/-- A change of the outside world without an answer. -/
theorem situated_changeOutside {f : V → V} (hf : ∀ v, j v → j' (f v)) :
    Leads (Situated j network initialized pending) (Situated j' network initialized pending) J
      (updateXboxWorld fun w => ((), { w with outside := f w.outside }) : XboxM P V Unit) := by
  intro s hs r s' hrun
  cases hrun
  exact ⟨hf _ hs.outside, hs.network, hs.initialized, hs.memory⟩

/-- A call of the outside world that leads from one condition to another. -/
theorem situated_callOutside {x : Prog V Error α} (hx : Leads j j' k x) :
    Leads (Situated j network initialized pending) (Situated j' network initialized pending)
      (Situated k network initialized pending) (callXboxWorld (callOutside x) : XboxM P V α) := by
  intro s hs r s' hrun
  unfold callXboxWorld callTls callWorld callOutside at hrun
  cases hout : x s.tls.world.outside with
  | none =>
    rw [hout] at hrun
    cases hrun
  | some out =>
    obtain ⟨_, v⟩ := out
    rw [hout] at hrun
    cases hrun
    have hv := hx _ hs.outside _ _ hout
    cases r with
    | ok a => exact ⟨hv, hs.network, hs.initialized, hs.memory⟩
    | error e => exact ⟨hv, hs.network, hs.initialized, hs.memory⟩

/-- A call of the verifier leaves the resources. -/
theorem situated_callVerifier (x : Prog VerifierObject Error α) :
    Leads (Situated j network initialized pending) (Situated j network initialized pending)
      (Situated j network initialized pending) (callXboxWorld (callVerifier x) : XboxM P V α) := by
  intro s hs
  apply wp_callVerifier
  intro r v _
  cases r with
  | ok a => exact ⟨hs.outside, hs.network, hs.initialized, hs.memory⟩
  | error e => exact ⟨hs.outside, hs.network, hs.initialized, hs.memory⟩

/-- `free_trust_store` gives back the store in use. -/
theorem situated_freeTrustStore :
    Leads (Situated j network initialized pending)
      (fun s => Situated j network initialized pending s ∧ s.client.trustStoreData = none) J
      (freeTrustStore : XboxM P V Unit) := by
  intro s hs
  unfold freeTrustStore
  rw [wp_bind]
  refine wp_of_run (show (getXbox : XboxM P V XboxTlsClient) s = some (.ok s.client, s) from rfl) ?_
  rw [thenWp_ok]
  cases hdata : s.client.trustStoreData with
  | none =>
    intro r s' hrun
    cases hrun
    exact ⟨⟨hs.outside, hs.network, hs.initialized, hs.memory⟩, hdata⟩
  | some block =>
    intro r s' hrun
    cases hrun
    have hmemory := hs.memory
    rw [hdata] at hmemory
    exact ⟨⟨hs.outside, hs.network, hs.initialized, owns_free_data hmemory⟩, rfl⟩

/-- The block becomes the trust store or is given back. -/
theorem situated_useTrustStore (block : ℕ) (data : Bytes) :
    Leads (Situated j network initialized [block]) (Situated j network initialized [])
      (Situated j network initialized []) (useTrustStore block data : XboxM P V Unit) := by
  unfold useTrustStore
  apply leads_bind situated_freeTrustStore
  intro _ s hs
  rw [wp_bind, wp_attempt]
  apply wp_callVerifier
  intro loaded v _
  rw [thenWp_ok]
  have hafter : Situated j network initialized [block]
      { s with tls := { s.tls with world := { s.tls.world with verifier := v } } } :=
    ⟨hs.1.outside, hs.1.network, hs.1.initialized, hs.1.memory⟩
  match loaded with
  | .error e => exact situated_freeAndFail block e _ hafter
  | .ok 0 => exact situated_freeAndFail block .verify _ hafter
  | .ok (n + 1) =>
    intro r s' hrun
    cases hrun
    have hmemory := hs.1.memory
    rw [hs.2] at hmemory
    exact ⟨hs.1.outside, hs.1.network, hs.1.initialized, owns_adopt hmemory⟩

end Primitives

/-! ## The verifier -/

section Clock

variable {clock : Option (V → UInt64 × V)} {j : V → Prop}
variable (hclock : ∀ unixTimeSeconds, clock = some unixTimeSeconds →
  ∀ v, j v → j (unixTimeSeconds v).2)

include hclock

/-- Reading the clock keeps what every reading keeps. -/
theorem keeps_readTime : Keeps j (readTime clock) := by
  intro v hv r v' hrun
  unfold readTime at hrun
  cases hc : clock with
  | none =>
    rw [hc] at hrun
    cases hrun
    exact hv
  | some unixTimeSeconds =>
    rw [hc] at hrun
    cases hrun
    exact hclock unixTimeSeconds hc v hv

/-- `verify_chain` touches the environment by its clock only. -/
theorem keeps_verifyChain (verifier : NativeServerAuthVerifier) (chain : CertificateChainView)
    (hostname : CString) : Keeps j (verifier.verifyChain P clock chain hostname) := by
  have hthrow : ∀ {α : Type} (e : Error), Keeps j (Prog.throw e : Prog V Error α) :=
    fun e => maintains_throw (fun _ h => h) e
  have hlift : ∀ {α : Type} (r : Except Error α), Keeps j (Prog.lift r : Prog V Error α) :=
    fun r => maintains_lift (fun _ h => h) r
  have hlink : ∀ i child issuer, Keeps j (verifyChainLink P clock i child issuer) := by
    intro i child issuer
    unfold verifyChainLink
    refine maintains_bind (hlift _) fun _ => maintains_bind (keeps_readTime hclock) fun now => ?_
    split
    · exact hthrow _
    split
    · exact hthrow _
    · exact maintains_pure _
  have hlinks : ∀ ders i, Keeps j (verifyChainLinks P clock i ders) := by
    intro ders
    induction ders with
    | nil => exact fun i => maintains_pure _
    | cons child rest ih =>
      intro i
      cases rest with
      | nil => exact maintains_pure _
      | cons issuer rest => exact maintains_bind (hlink i child issuer) fun _ => ih (i + 1)
  have hanchor : ∀ count top topv anchor,
      Keeps j (anchorAccepts P clock count top topv anchor) := by
    intro count top topv anchor
    unfold anchorAccepts
    split
    · exact maintains_pure _
    · exact maintains_bind (keeps_readTime hclock) fun _ => maintains_pure _
  have hfind : ∀ count top topv anchors, Keeps j (findAnchor P clock count top topv anchors) := by
    intro count top topv anchors
    induction anchors with
    | nil => exact hthrow _
    | cons anchor rest ih =>
      refine maintains_bind (hanchor count top topv anchor) fun accepts => ?_
      split
      · exact maintains_pure _
      · exact ih
  unfold NativeServerAuthVerifier.verifyChain
  split
  · exact hthrow _
  dsimp only
  apply maintains_bind
  · unfold verifyLeaf
    refine maintains_bind (hlift _) fun _ => maintains_bind (keeps_readTime hclock) fun now => ?_
    split
    · exact hthrow _
    split
    · exact hthrow _
    · exact maintains_pure _
  refine fun _ => maintains_bind (hlinks _ _) fun _ => ?_
  split
  · exact hthrow _
  · exact hfind _ _ _ _

end Clock

/-! ## `tls_` -/

section Tls

variable {X : XboxEnv V} {j : V → Prop}

/-- The same world, of whose environment `j` holds. -/
def SameWith (j : V → Prop) (w₁ w₂ : XboxWorld V) : Prop := w₁ = w₂ ∧ j w₁.outside

/-- A call that keeps a condition of the world relates worlds that satisfy it. -/
theorem related_callOutside_of_keeps {α : Type} {x : Prog V Error α} (hx : Keeps j x) :
    Related (SameWith j) (callOutside x) (callOutside x) := by
  rintro w _ ⟨rfl, hw⟩
  unfold callOutside
  cases hout : x w.outside with
  | none => exact .diverge
  | some out => exact .stop _ ⟨rfl, Keeps.run hx hw hout⟩

/-- What `tls_` calls keeps `j`, so the calls of `tls_` do. -/
theorem matching_tlsEnv_of_keeps (hrandom : ∀ n, Keeps j (X.randomBytes n))
    (hsend : ∀ bytes, Keeps j (X.sendAll bytes)) (hrecv : ∀ n, Keeps j (X.recvSome n))
    (hclose : ∀ v, j v → j (X.closeSocket v)) (htime : ∀ v, j v → j (X.unixTimeSeconds v).2)
    (hmalloc : ∀ n v, j v → j (X.malloc n v).2) :
    Matching P (SameWith j) (tlsEnv P X) (tlsEnv P X) where
  randomBytes _ n := related_callOutside_of_keeps (hrandom n)
  sendAll _ bytes := related_callOutside_of_keeps (hsend bytes)
  close _ w₁ w₂ := by
    rintro ⟨rfl, hw⟩
    exact ⟨rfl, hclose _ hw⟩
  verifyChain _ chain hostname := by
    show Related (SameWith j) (verifyChainHere P X chain hostname) _
    unfold verifyChainHere
    apply related_bind
    · rintro w _ ⟨rfl, hw⟩
      exact .stop _ ⟨rfl, hw⟩
    intro w
    cases w.verifier.deref w.heap with
    | none => exact related_diverge
    | some verifier =>
      apply related_callOutside_of_keeps
      apply keeps_verifyChain
      intro unixTimeSeconds hclock v hv
      obtain rfl := Option.some.inj hclock
      exact htime v hv
  verifySignature _ _ _ _ _ := related_lift _
  malloc n w₁ w₂ := by
    rintro ⟨rfl, hw⟩
    exact ⟨rfl, rfl, hmalloc n _ hw⟩
  sizeOfSize := rfl
  writeBehind _ _ _ hw := hw
  readBehind _ _ w₁ w₂ := by
    rintro ⟨rfl, -⟩
    rfl
  readRecord := related_readRecord fun _ n => related_callOutside_of_keeps (hrecv n)

variable {J : Bool → Bool → V → Prop} {C : V → Prop} (hX : Orderly X J C)
  {network initialized : Bool}
include hX

/-- A call of `tls_` keeps what each of its uses of the world keeps. -/
theorem outside_of_call {k : Call} {fuel : ℕ} {t t' : System P (XboxWorld V)}
    {r : Except Error Bytes} (hrun : k.run (tlsEnv P X) fuel t = some (r, t'))
    (ht : J network false t.world.outside) : J network false t'.world.outside := by
  have hmatching : Matching P (SameWith (J network false)) (tlsEnv P X) (tlsEnv P X) :=
    matching_tlsEnv_of_keeps (hX.randomBytes network) (hX.sendAll network) (hX.recvSome network)
      (fun v hv => (hX.closeSocket network v hv).1) (hX.unixTimeSeconds network)
      (hX.malloc network false)
  have halike : Alike (SameWith (J network false)) t t := ⟨rfl, rfl, rfl, ht⟩
  obtain ⟨t'', -, hend⟩ := (related_call hmatching fuel k).run halike hrun
  exact hend.world.2

/-- A method of `tls_` that is one of its calls. -/
theorem situated_callTls {α : Type} {x : ClientM P (XboxWorld V) α} (k : Call) (fuel : ℕ)
    (f : α → Bytes) (hk : k.run (tlsEnv P X) fuel = (do let a ← x; pure (f a))) :
    Keeps (Situated (J network false) network initialized []) (callTls x : XboxM P V α) := by
  intro s hs r s' hrun
  unfold callTls at hrun
  split at hrun
  · cases hrun
  · next r t hcall =>
    cases hrun
    have hwhole : k.run (tlsEnv P X) fuel s.tls = some (r.map f, t) := by
      rw [hk, bind_apply, hcall]
      cases r with
      | ok a => rfl
      | error e => rfl
    have ht := outside_of_call hX hwhole hs.outside
    have hmemory := hs.memory
    rw [← (store_of_call hwhole).2] at hmemory
    cases r with
    | ok a => exact ⟨ht, hs.network, hs.initialized, hmemory⟩
    | error e => exact ⟨ht, hs.network, hs.initialized, hmemory⟩

/-- `tls_.close()` leaves the resources. -/
theorem situated_tlsClose :
    Keeps (Situated (J network false) network initialized [])
      (callTls (Model.close (tlsEnv P X)) : XboxM P V Unit) :=
  situated_callTls hX .close 0 (fun _ => []) rfl

/-- `tls_.reset()` leaves the resources. -/
theorem situated_tlsReset :
    Keeps (Situated (J network false) network initialized [])
      (callTls (Model.reset (tlsEnv P X)) : XboxM P V Unit) :=
  situated_callTls hX .reset 0 (fun _ => []) rfl

end Tls

/-! ## The methods -/

section Methods

variable {X : XboxEnv V} {J : Bool → Bool → V → Prop} {C : V → Prop} (hX : Orderly X J C)
  {network initialized : Bool}

include hX

/-- The exit that closes the file. -/
theorem situated_closeFileAndFail (e : Error) :
    Leads (Situated (J network true) network initialized [])
      (Situated (J network false) network initialized [])
      (Situated (J network false) network initialized [])
      (closeFileAndFail X e : XboxM P V Unit) :=
  leads_bind (situated_changeOutside (hX.fclose network)) fun _ => situated_rememberError e

/-- The file is closed on every way out. -/
theorem situated_readTrustStore (size : ℕ) :
    Leads (Situated (J network true) network initialized [])
      (Situated (J network false) network initialized [])
      (Situated (J network false) network initialized [])
      (readTrustStore X size : XboxM P V Unit) := by
  unfold readTrustStore
  apply leads_bind (situated_updateOutside (hX.malloc network true size))
  intro memory
  split
  · exact situated_closeFileAndFail hX _
  apply leads_bind (situated_updateOutside (hX.fread network size))
  intro data
  apply leads_alloc
  intro block
  split
  · exact leads_bind (situated_free block) fun _ => situated_closeFileAndFail hX _
  · exact leads_bind (situated_changeOutside (hX.fclose network)) fun _ =>
      situated_useTrustStore block data.val

/-- What `fopen` gave decides whether a file is open. -/
theorem leads_fopen {path : CString} {f : Bool → XboxM P V Unit} {I I' : XboxSystem P V → Prop}
    (hf : ∀ opened, Leads (Situated (J network opened) network initialized []) I I' (f opened)) :
    Leads (Situated (J network false) network initialized []) I I'
      (updateXboxWorld (updateOutside (X.fopen path)) >>= f) := by
  intro s hs
  rw [wp_bind]
  intro r s₁ hrun
  cases hrun
  exact hf _ _ ⟨hX.fopen network path _ hs.outside, hs.network, hs.initialized, hs.memory⟩

/-- `load_trust_store_file` gives back the file and every block but the new store. -/
theorem situated_loadTrustStoreFile (path : Option CString) :
    Keeps (Situated (J network false) network initialized [])
      (loadTrustStoreFile X path : XboxM P V Unit) := by
  unfold loadTrustStoreFile
  cases path with
  | none => exact situated_rememberError _
  | some path =>
    dsimp only
    split
    · exact situated_rememberError _
    apply leads_fopen hX
    intro opened
    cases opened with
    | false => exact situated_rememberError _
    | true =>
      rw [if_neg (by decide)]
      apply leads_bind (situated_updateOutside (hX.fseekEnd network))
      intro atEnd
      split
      · exact situated_closeFileAndFail hX _
      apply leads_bind (situated_updateOutside (hX.ftell network))
      intro fileSize
      split
      · exact situated_closeFileAndFail hX _
      apply leads_bind (situated_updateOutside (hX.fseekSet network))
      intro atStart
      split
      · exact situated_closeFileAndFail hX _
      · exact situated_readTrustStore hX _

/-- After `close` the socket is closed, whatever `tls_` answered. -/
theorem situated_xboxClose :
    Leads (Situated (J network false) network initialized [])
      (Situated (fun v => J network false v ∧ C v) network initialized [])
      (Situated (fun v => J network false v ∧ C v) network initialized [])
      (XboxTlsClient.close X : XboxM P V Unit) := by
  unfold XboxTlsClient.close
  apply leads_getXbox
  intro x _ _
  apply leads_bind situated_getTls
  intro t
  have hleave : Keeps (Situated (J network false) network initialized [])
      (if t.state = .connected ∧ x.activeOptions.sendCloseNotify then
        callTls (Model.close (tlsEnv P X))
      else if t.state ≠ .idle then callTls (Model.reset (tlsEnv P X))
      else pure () : XboxM P V Unit) := by
    split
    · exact situated_tlsClose hX
    · split
      · exact situated_tlsReset hX
      · exact maintains_pure ()
  apply leads_bind (leads_attempt hleave)
  intro error
  have hclose : Leads (Situated (J network false) network initialized [])
      (Situated (fun v => J network false v ∧ C v) network initialized [])
      (Situated (fun v => J network false v ∧ C v) network initialized [])
      (closeSocket X : XboxM P V Unit) :=
    situated_changeOutside (hX.closeSocket network)
  apply leads_bind hclose
  intro _
  cases error with
  | error e => exact situated_rememberError e
  | ok u => exact situated_rememberOk

/-- The network is stopped, the socket closed and no trust store is left. -/
structure Down (J : Bool → Bool → V → Prop) (C : V → Prop) (s : XboxSystem P V) : Prop where
  situated : Situated (fun v => J false false v ∧ C v) false false [] s
  data : s.client.trustStoreData = none

/-- The network is stopped if it was started. -/
theorem down_stopNetwork {I : XboxSystem P V → Prop} :
    Leads (fun s => Situated (fun v => J network false v ∧ C v) network initialized [] s ∧
        s.client.trustStoreData = none)
      (fun s => Situated (fun v => J false false v ∧ C v) false initialized [] s ∧
        s.client.trustStoreData = none) I (stopNetwork X : XboxM P V Unit) := by
  rintro s ⟨hs, hdata⟩
  unfold stopNetwork
  rw [wp_bind]
  refine wp_of_run (show (getXbox : XboxM P V XboxTlsClient) s = some (.ok s.client, s) from rfl) ?_
  rw [thenWp_ok, hs.network]
  cases network with
  | false =>
    rw [if_neg (by decide), wp_pure]
    exact ⟨hs, hdata⟩
  | true =>
    rw [if_pos rfl]
    intro r s' hrun
    cases hrun
    have hcleanup := hX.networkCleanup _ hs.outside.1 hs.outside.2
    exact ⟨⟨hcleanup, rfl, hs.initialized, hs.memory⟩, hdata⟩

/-- `shutdown` stops the network with the socket closed. -/
theorem down_shutdown {I : XboxSystem P V → Prop} :
    Leads (Situated (J network false) network initialized []) (Down J C) I
      (XboxTlsClient.shutdown X : XboxM P V Unit) := by
  unfold XboxTlsClient.shutdown
  apply leads_bind (leads_attempt (situated_xboxClose hX))
  intro _
  apply leads_bind situated_freeTrustStore
  intro _
  apply leads_bind (down_stopNetwork hX)
  rintro _ s ⟨hs, hdata⟩ r s' hrun
  cases hrun
  exact ⟨⟨hs.outside, hs.network, rfl, hs.memory⟩, hdata⟩

/-- The network is started unless it is already. -/
theorem situated_startNetwork :
    Leads (Situated (J network false) network initialized [])
      (Situated (J true false) true initialized [])
      (Situated (J network false) network initialized [])
      (startNetwork X : XboxM P V Unit) := by
  unfold startNetwork
  apply leads_getXbox
  intro x hx _
  rw [hx]
  cases network with
  | true => exact maintains_pure ()
  | false =>
    rw [if_neg (by decide)]
    apply leads_bind
    · exact leads_onError (situated_callOutside hX.networkStartup) fun e => situated_rememberError e
    · intro _ s hs r s' hrun
      cases hrun
      exact ⟨hs.outside, rfl, hs.initialized, hs.memory⟩

/-- No file is open, the network is as `network_started_` says and there for an initialized client,
and the trust store is all that is on the heap. -/
structure Coherent (J : Bool → Bool → V → Prop) (s : XboxSystem P V) : Prop where
  outside : J s.client.networkStarted false s.tls.world.outside
  flags : s.client.initialized → s.client.networkStarted
  memory : Owns [] s.tls.world.heap s.client.trustStoreData

omit hX in
/-- A client that is situated between two calls is coherent. -/
theorem Situated.sound {s : XboxSystem P V}
    (hs : Situated (J network false) network initialized [] s)
    (hflags : initialized = true → network = true) : Coherent J s := by
  obtain ⟨houtside, hnetwork, hinitialized, hmemory⟩ := hs
  subst hnetwork hinitialized
  exact ⟨houtside, hflags, hmemory⟩

omit hX in
/-- A coherent client is situated between two calls. -/
theorem Coherent.situated {s : XboxSystem P V} (hs : Coherent J s) :
    Situated (J s.client.networkStarted false) s.client.networkStarted s.client.initialized [] s :=
  ⟨hs.outside, rfl, rfl, hs.memory⟩

omit hX in
/-- A method that keeps the flags. -/
theorem sound_of_keeps {α : Type} {x : XboxM P V α}
    (hx : ∀ network initialized : Bool, (initialized = true → network = true) →
      Keeps (Situated (J network false) network initialized []) x) : Keeps (Coherent J) x := by
  intro s hs
  refine wp_mono (hx _ _ hs.flags s hs.situated) ?_
  intro r s' hr
  cases r with
  | ok a => exact hr.sound hs.flags
  | error e => exact hr.sound hs.flags

/-- `initialize` keeps coherence. -/
theorem sound_initializeWith (options : XboxTlsOptions) :
    Keeps (Coherent J) (XboxTlsClient.initializeWith X options : XboxM P V Unit) := by
  intro s hs
  have hwhole : Leads
      (Situated (J s.client.networkStarted false) s.client.networkStarted
        s.client.initialized [])
      (Situated (J true false) true true []) (Coherent J)
      (XboxTlsClient.initializeWith X options : XboxM P V Unit) := by
    unfold XboxTlsClient.initializeWith
    refine leads_bind (situated_modifyXbox fun _ => ⟨rfl, rfl, rfl⟩) fun _ => ?_
    apply leads_bind
    · exact leads_mono (situated_startNetwork hX) (fun _ h => h) (fun _ h => h)
        fun _ h => h.sound hs.flags
    intro _
    apply leads_bind
    · apply leads_onError (situated_loadTrustStoreFile hX options.trustStorePath)
      intro e
      apply leads_bind (down_shutdown hX)
      intro _
      refine leads_mono (situated_rememberError e) (fun _ h => h.situated) (fun _ h => h) ?_
      intro s₁ hs₁
      exact Situated.sound ⟨hs₁.outside.1, hs₁.network, hs₁.initialized, hs₁.memory⟩ id
    intro _
    refine leads_bind ?_ fun _ => situated_rememberOk
    intro s₁ hs₁ r s' hrun
    cases hrun
    exact ⟨hs₁.outside, hs₁.network, rfl, hs₁.memory⟩
  refine wp_mono (hwhole s hs.situated) ?_
  intro r s' hr
  cases r with
  | ok a => exact hr.sound fun _ => rfl
  | error e => exact hr

/-! ### `connect` -/

omit hX in
/-- The exit that counts a failed connection leaves the resources. -/
theorem situated_failConnect {j : V → Prop} (e : Error) :
    Keeps (Situated j network initialized []) (failConnect e : XboxM P V Unit) :=
  leads_bind (situated_modifyXbox fun _ => ⟨rfl, rfl, rfl⟩) fun _ => situated_rememberError e

/-- Closing the socket leaves the resources of the other kinds. -/
theorem situated_closeSocket {I : XboxSystem P V → Prop} :
    Leads (Situated (J network false) network initialized [])
      (Situated (J network false) network initialized []) I (closeSocket X : XboxM P V Unit) :=
  situated_changeOutside fun v hv => (hX.closeSocket network v hv).1

/-- Leaving a connection gives back its socket. -/
theorem situated_leaveConnection (options : XboxTlsOptions) :
    Keeps (Situated (J network false) network initialized [])
      (leaveConnection X options : XboxM P V Unit) := by
  unfold leaveConnection
  apply maintains_bind
  · unfold closeConnected
    apply leads_bind situated_getTls
    intro t
    split
    · exact maintains_pure ()
    split
    · exact situated_rememberError _
    have hleave : Keeps (Situated (J network false) network initialized [])
        (if options.sendCloseNotify then callTls (Model.close (tlsEnv P X))
        else callTls (Model.reset (tlsEnv P X)) : XboxM P V Unit) := by
      split
      · exact situated_tlsClose hX
      · exact situated_tlsReset hX
    exact leads_bind (leads_attempt hleave) fun _ => situated_closeSocket hX
  · intro _
    unfold resetToIdle
    apply leads_bind situated_getTls
    intro t
    split
    · exact leads_onError (situated_tlsReset hX) fun e => situated_rememberError e
    · exact maintains_pure ()

omit hX in
/-- Setting the pin leaves the resources. -/
theorem situated_setPin (options : XboxTlsOptions) {j : V → Prop} :
    Keeps (Situated j network initialized []) (setPin options : XboxM P V Unit) := by
  unfold setPin
  cases options.certificateSha256Pin with
  | some pin => exact situated_callVerifier _
  | none => exact situated_changeVerifier _

/-- The network is there when the socket is opened. -/
theorem situated_openConnection (fuel : ℕ) (hostname : CString) (options : XboxTlsOptions) :
    Keeps (Situated (J true false) true initialized [])
      (openConnection X fuel hostname options : XboxM P V Unit) := by
  unfold openConnection
  apply leads_bind
  · exact leads_onError (situated_callOutside (hX.connectTcp hostname options.port)) fun e =>
      situated_failConnect e
  intro _
  apply leads_bind
  · apply leads_onError (situated_callOutside (hX.setIoTimeouts _ _))
    intro e
    exact leads_bind (situated_closeSocket hX) fun _ => situated_failConnect e
  intro _
  apply leads_onError (situated_callTls hX (.connect _) fuel (fun _ => []) rfl)
  intro e
  exact leads_bind (situated_closeSocket hX) fun _ => situated_failConnect e

/-- `connect` on an idle client holds at most the one socket. -/
theorem situated_connectIdle (fuel : ℕ) (hostname : CString) (options : XboxTlsOptions) :
    Keeps (Situated (J true false) true initialized [])
      (connectIdle X fuel hostname options : XboxM P V Unit) := by
  unfold connectIdle
  split
  · exact situated_failConnect _
  apply leads_bind
  · exact leads_onError (situated_setPin options) fun e => situated_failConnect e
  intro _
  apply leads_bind (situated_openConnection hX fuel hostname options)
  intro _
  refine leads_bind (situated_modifyXbox fun _ => ⟨rfl, rfl, rfl⟩) fun _ => ?_
  apply leads_bind
  · unfold checkAlpn
    apply leads_bind situated_getTls
    intro t
    split
    · apply leads_bind (leads_attempt (situated_tlsClose hX))
      intro _
      exact leads_bind (situated_closeSocket hX) fun _ => situated_failConnect _
    · exact maintains_pure ()
  intro _
  apply leads_bind
  · unfold requestKeyUpdate
    split
    · apply leads_bind
      · exact leads_onError (situated_callTls hX (.keyUpdate true) 0 (fun _ => []) rfl) fun e =>
          situated_failConnect e
      · intro _
        exact situated_modifyXbox fun _ => ⟨rfl, rfl, rfl⟩
    · exact maintains_pure ()
  intro _
  exact leads_bind (situated_modifyXbox fun _ => ⟨rfl, rfl, rfl⟩) fun _ => situated_rememberOk

/-- Only an initialized client opens a connection, and it has the network. -/
theorem situated_xboxConnect (fuel : ℕ) (hostname : Option CString) (options : XboxTlsOptions)
    (hflags : initialized = true → network = true) :
    Keeps (Situated (J network false) network initialized [])
      (XboxTlsClient.connect X fuel hostname options : XboxM P V Unit) := by
  unfold XboxTlsClient.connect
  refine leads_bind (situated_modifyXbox fun _ => ⟨rfl, rfl, rfl⟩) fun _ => ?_
  apply leads_getXbox
  intro x hnetwork hinitialized
  cases hostname with
  | none => exact situated_failConnect _
  | some hostname =>
    dsimp only
    split
    · exact situated_failConnect _
    · next hready =>
      have htrue : initialized = true := by
        rw [← hinitialized]
        by_contra hfalse
        exact hready (Or.inl (by simpa using hfalse))
      obtain rfl : network = true := hflags htrue
      exact leads_bind (situated_leaveConnection hX options) fun _ =>
        situated_connectIdle hX fuel hostname options

/-! ### Every call -/

omit hX in
/-- Nothing lands behind `tls_` on the solid console. -/
theorem situated_landOverrun {j : V → Prop} (before after : TlsClient P) :
    Keeps (Situated j network initialized [])
      (landOverrun (solid X) before after : XboxM P V Unit) := by
  intro s hs r s' hrun
  unfold landOverrun at hrun
  split at hrun
  · cases hrun
    exact ⟨hs.outside, hs.network, hs.initialized, hs.memory⟩
  · cases hrun
    exact hs

/-- `receive` on the solid console. -/
theorem situated_receive (fuel : ℕ) (receivedNull outNull : Bool) (size : ℕ) :
    Keeps (Situated (J network false) network initialized [])
      (XboxTlsClient.receive (solid X) fuel receivedNull outNull size : XboxM P V Bytes) := by
  unfold XboxTlsClient.receive
  have hrecv : (Call.recv receivedNull outNull size).run (tlsEnv P X) fuel =
      (Model.recv (tlsEnv P X) fuel receivedNull outNull size : ClientM P (XboxWorld V) Bytes) >>=
        fun bytes => pure (id bytes) :=
    (bind_pure_right _).symm
  apply leads_bind situated_getTls
  intro before
  apply leads_bind
  · exact leads_onError (situated_callTls hX _ fuel id hrecv) fun e => situated_rememberError e
  intro bytes
  apply leads_bind situated_getTls
  intro after
  refine leads_bind (situated_landOverrun before after) fun _ => ?_
  refine leads_bind (situated_modifyXbox fun _ => ⟨rfl, rfl, rfl⟩) fun _ => ?_
  exact leads_bind situated_rememberOk fun _ => maintains_pure bytes

/-- `send` leaves the resources. -/
theorem situated_xboxSend (null : Bool) (data : Bytes) :
    Keeps (Situated (J network false) network initialized [])
      (XboxTlsClient.send X null data : XboxM P V Unit) := by
  unfold XboxTlsClient.send
  apply leads_bind
  · exact leads_onError (situated_callTls hX (.send null data) 0 (fun _ => []) rfl) fun e =>
      situated_rememberError e
  intro _
  exact leads_bind (situated_modifyXbox fun _ => ⟨rfl, rfl, rfl⟩) fun _ => situated_rememberOk

omit hX in
/-- A method without bytes leaves what it leaves. -/
theorem situated_withoutBytes {j : V → Prop} {x : XboxM P V Unit}
    (hx : Keeps (Situated j network initialized []) x) :
    Keeps (Situated j network initialized []) (withoutBytes x) :=
  leads_bind hx fun _ => maintains_pure []

/-- A call that is not a `receive`. -/
theorem sound_otherCall (fuel : ℕ) {call : XboxCall} (hother : receiveSize call = none) :
    Keeps (Coherent J) (call.run X fuel : XboxM P V Bytes) := by
  have hconnect : ∀ hostname options,
      Keeps (Coherent J) (withoutBytes (XboxTlsClient.connect X fuel hostname options) :
        XboxM P V Bytes) :=
    fun hostname options => sound_of_keeps fun _ _ hflags =>
      situated_withoutBytes (situated_xboxConnect hX fuel hostname options hflags)
  have hinitialize : ∀ options,
      Keeps (Coherent J)
        (withoutBytes (XboxTlsClient.initializeWith X options) : XboxM P V Bytes) :=
    fun options => leads_bind (sound_initializeWith hX options) fun _ => maintains_pure []
  have hsend : ∀ null data,
      Keeps (Coherent J) (withoutBytes (XboxTlsClient.send X null data) : XboxM P V Bytes) :=
    fun null data =>
      sound_of_keeps fun _ _ _ => situated_withoutBytes (situated_xboxSend hX null data)
  have hremember : ∀ {α : Type} (e : Error), Keeps (Coherent J) (rememberError e : XboxM P V α) :=
    fun e => sound_of_keeps fun _ _ _ => situated_rememberError e
  cases call with
  | initializeDefault =>
    intro s hs
    exact hinitialize s.client.defaults s hs
  | initializePath path =>
    intro s hs
    exact hinitialize { s.client.defaults with trustStorePath := path } s hs
  | initializeWith options => exact hinitialize options
  | connectTo hostname port alpn =>
    intro s hs
    exact hconnect hostname (s.client.defaults.towards port alpn) s hs
  | connect hostname options => exact hconnect hostname options
  | send null data => exact hsend null data
  | sendPointer null data =>
    show Keeps (Coherent J) (withoutBytes (if null ∧ data.length ≠ 0 then
      rememberError .invalidArgument else XboxTlsClient.send X null data))
    split
    · exact leads_bind (hremember _) fun _ => maintains_pure []
    · exact hsend null data
  | receive receivedNull outNull size => cases hother
  | receivePointer receivedNull outNull size => cases hother
  | keyUpdate request =>
    refine sound_of_keeps fun _ _ _ => situated_withoutBytes ?_
    apply leads_bind
    · exact leads_onError (situated_callTls hX (.keyUpdate request) 0 (fun _ => []) rfl) fun e =>
        situated_rememberError e
    intro _
    exact leads_bind (situated_modifyXbox fun _ => ⟨rfl, rfl, rfl⟩) fun _ => situated_rememberOk
  | reloadTrustStore path =>
    refine sound_of_keeps fun _ _ _ => situated_withoutBytes ?_
    apply leads_getXbox
    intro x _ _
    split
    · exact situated_rememberError _
    · exact situated_loadTrustStoreFile hX path
  | close =>
    refine sound_of_keeps fun _ _ _ => situated_withoutBytes ?_
    refine leads_mono (situated_xboxClose hX) (fun _ h => h) ?_ ?_
    all_goals exact fun s h => ⟨h.outside.1, h.network, h.initialized, h.memory⟩
  | shutdown =>
    apply maintains_bind
    · intro s hs
      have hdown := down_shutdown hX (I := Coherent J) s hs.situated
      refine wp_mono hdown ?_
      intro r s' hr
      cases r with
      | ok u =>
        obtain ⟨⟨houtside, hnetwork, hinitialized, hmemory⟩, -⟩ := hr
        exact Situated.sound ⟨houtside.1, hnetwork, hinitialized, hmemory⟩ id
      | error e => exact hr
    · exact fun _ => maintains_pure []
  | setDefaultOptions options =>
    exact sound_of_keeps fun _ _ _ => situated_withoutBytes
      (situated_modifyXbox fun _ => ⟨rfl, rfl, rfl⟩)
  | resetStats =>
    exact sound_of_keeps fun _ _ _ => situated_withoutBytes
      (situated_modifyXbox fun _ => ⟨rfl, rfl, rfl⟩)

/-- **Every call keeps to the order**, on the solid console. -/
theorem sound_xboxCall (fuel : ℕ) (call : XboxCall) :
    Keeps (Coherent J) (call.run (solid X) fuel : XboxM P V Bytes) := by
  have hreceive : ∀ receivedNull outNull size,
      Keeps (Coherent J) (XboxTlsClient.receive (solid X) fuel receivedNull outNull size :
        XboxM P V Bytes) :=
    fun receivedNull outNull size => sound_of_keeps fun _ _ _ =>
      situated_receive hX fuel receivedNull outNull size
  cases call with
  | receive receivedNull outNull size => exact hreceive receivedNull outNull size
  | receivePointer receivedNull outNull size =>
    show Keeps (Coherent J) (if outNull ∧ size ≠ 0 then rememberError .invalidArgument
      else XboxTlsClient.receive (solid X) fuel receivedNull outNull size)
    split
    · exact sound_of_keeps fun _ _ _ => situated_rememberError _
    · exact hreceive receivedNull outNull size
  | _ =>
    rw [run_solid rfl]
    exact sound_otherCall hX fuel rfl

/-- **The client keeps to the order** in every run from a fresh one whose records fit. -/
theorem sound_of_run {v : V} (hv : J false false v) {steps : List (XboxStep P V)}
    {s : XboxSystem P V} (hrun : XboxRun X (XboxSystem.fresh P v) steps s)
    (hfits : ∀ step ∈ steps, ReceiveFits step) : Coherent J s := by
  replace hrun := (xboxRun_solid hrun (pendingFits_fresh v) hfits).1
  clear hfits
  generalize hstart : XboxSystem.fresh P v = s₀ at hrun
  induction hrun with
  | nil =>
    subst hstart
    exact ⟨hv, fun h => absurd h Bool.false_ne_true, ⟨rfl, .nil, fun _ h => by cases h⟩⟩
  | snoc hrun hreturns ih =>
    obtain ⟨fuel, hcall⟩ := hreturns
    exact Keeps.run (sound_xboxCall hX fuel _) ih hcall

/-- A `shutdown` that returns has closed the socket, stopped the network and given back the trust
store. -/
theorem down_of_shutdown {s s' : XboxSystem P V} {r : Except Error Bytes} (hs : Coherent J s)
    (hreturns : XboxReturns X .shutdown s r s') : Down J C s' := by
  obtain ⟨fuel, hcall⟩ := hreturns
  have hwhole : Leads (Situated (J s.client.networkStarted false) s.client.networkStarted
      s.client.initialized []) (Down J C) (Down J C)
      (XboxCall.run X fuel .shutdown : XboxM P V Bytes) :=
    leads_bind (down_shutdown hX) fun _ => maintains_pure []
  have hend := hwhole s hs.situated r s' hcall
  cases r with
  | ok bytes => exact hend
  | error e => exact hend

end Methods

end XboxTls.Analysis
