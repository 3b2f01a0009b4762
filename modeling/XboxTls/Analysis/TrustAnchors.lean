import XboxTls.Analysis.CertificateExtensions
import XboxTls.Analysis.TwoRuns
import XboxTls.Analysis.Overrun
import XboxTls.Interface.BlankServer
import XboxTls.Interface.TrustAnchors

/-!
# The anchors never dangle

A store is read into a new block before the old one is freed, and the anchors are cleared with
the old block.  Loading leaves either the anchors of the new block, which the client then owns,
or none.  The methods of `tls_` change neither the anchors nor the heap.
-/

set_option autoImplicit false

namespace XboxTls.Analysis

open Programs Programs.Prog XboxTls.Model XboxTls.Interface

/-! ## The heap -/

/-- A block that was allocated is there. -/
theorem lookup_alloc_self (h : Heap) (data : Bytes) :
    (h.alloc data).lookup h.next = some data := by
  simp [Heap.alloc, Heap.lookup]

/-- An allocation leaves the other blocks. -/
theorem lookup_alloc_of_lt {h : Heap} {block : ℕ} (hlt : block < h.next) (data : Bytes) :
    (h.alloc data).lookup block = h.lookup block := by
  have hne : (block == h.next) = false := by
    rw [beq_eq_false_iff_ne]
    omega
  simp [Heap.alloc, Heap.lookup, List.lookup_cons, hne]

/-- Freeing a block leaves the others. -/
theorem lookup_free_of_ne {h : Heap} {block freed : ℕ} (hne : block ≠ freed) :
    (h.free freed).lookup block = h.lookup block := by
  unfold Heap.free Heap.lookup
  induction h.blocks with
  | nil => rfl
  | cons b blocks ih =>
    by_cases hb : b.1 = freed
    · have hskip : (block == b.1) = false := by
        rw [beq_eq_false_iff_ne, hb]
        exact hne
      rw [List.filter_cons_of_neg (by simpa using hb), ih, List.lookup_cons, hskip]
    · rw [List.filter_cons_of_pos (by simpa using hb), List.lookup_cons, List.lookup_cons, ih]

/-! ## Loading a store -/

/-- The span lies inside a block of this length. -/
def Inside (block length : ℕ) (span : HeapSpan) : Prop :=
  span.block = block ∧ span.off + span.size ≤ length

/-- How the loader ends: with as many anchors as it counts, inside the block, or with none. -/
def Loads (block length : ℕ) (count : ℕ → ℕ) (r : Except Error ℕ) (v : VerifierObject) : Prop :=
  match r with
  | .ok n => (∀ span ∈ v.anchors, Inside block length span) ∧ v.anchors.length = count n
  | .error _ => v.anchors = []

/-- The exit that clears the anchors leaves none. -/
theorem loads_clearAndFail {block length : ℕ} {count : ℕ → ℕ} (e : Error) (v : VerifierObject) :
    wp (VerifierObject.clearAndFail e) (Loads block length count) v := by
  intro r v' hrun
  cases hrun
  rfl

/-- `add_trust_anchor` adds the span or changes nothing. -/
theorem addTrustAnchor_cases {span : HeapSpan} {der : Bytes} {v v' : VerifierObject}
    {r : Except Error Unit} (hrun : VerifierObject.addTrustAnchor span der v = some (r, v')) :
    (∃ e, r = .error e) ∨ (r = .ok () ∧ v'.anchors = v.anchors ++ [span]) := by
  unfold VerifierObject.addTrustAnchor at hrun
  rw [bind_of_ok (get_apply v)] at hrun
  by_cases hsize : span.size = 0
  · rw [if_pos hsize] at hrun
    cases hrun
    exact Or.inl ⟨_, rfl⟩
  rw [if_neg hsize] at hrun
  by_cases hroom : v.anchors.length < 16
  · rw [dif_pos hroom] at hrun
    cases hparse : x509ParseCertificate der with
    | error e =>
      rw [hparse] at hrun
      cases hrun
      exact Or.inl ⟨_, rfl⟩
    | ok view =>
      rw [hparse] at hrun
      cases hrun
      exact Or.inr ⟨rfl, rfl⟩
  · rw [dif_neg hroom] at hrun
    cases hrun
    exact Or.inl ⟨_, rfl⟩

/-- The loop adds an anchor for each certificate. -/
theorem loads_loadEntries (block : ℕ) (blob : Bytes) (count off : ℕ) {v : VerifierObject}
    (hoff : off ≤ blob.length) (hv : ∀ span ∈ v.anchors, Inside block blob.length span) :
    wp (VerifierObject.loadEntries block blob count off)
      (Loads block blob.length fun _ => v.anchors.length + count) v := by
  induction count generalizing off v with
  | zero =>
    intro r v' hrun
    cases hrun
    exact ⟨hv, rfl⟩
  | succ count ih =>
    unfold VerifierObject.loadEntries
    split
    · exact loads_clearAndFail _ v
    next hheader =>
    dsimp only
    split
    · exact loads_clearAndFail _ v
    next hlen =>
    push Not at hlen
    rw [wp_bind, wp_onError]
    intro r v' hrun
    rcases addTrustAnchor_cases hrun with ⟨e, rfl⟩ | ⟨rfl, hanchors⟩
    · rw [handledWp_error]
      intro r v'' hclear
      cases hclear
      rfl
    rw [handledWp_ok, thenWp_ok]
    have hinside : ∀ span ∈ v'.anchors, Inside block blob.length span := by
      intro span hspan
      rw [hanchors] at hspan
      rcases List.mem_append.mp hspan with hold | hnew
      · exact hv span hold
      · rw [List.mem_singleton.mp hnew]
        refine ⟨rfl, ?_⟩
        show off + 3 + loadBe24 blob off ≤ blob.length
        omega
    refine wp_mono (ih (off + 3 + loadBe24 blob off) (by omega) hinside) ?_
    intro r v'' hr
    cases r with
    | error e => exact hr
    | ok n =>
      refine ⟨hr.1, hr.2.trans ?_⟩
      show v'.anchors.length + count = v.anchors.length + (count + 1)
      rw [hanchors, List.length_append, List.length_singleton]
      omega

/-- The loader on a verifier without anchors. -/
theorem loads_loadCompactTrustStore (block : ℕ) (blob : Bytes) {v : VerifierObject}
    (hv : v.anchors = []) :
    wp (VerifierObject.loadCompactTrustStore block blob) (Loads block blob.length id) v := by
  unfold VerifierObject.loadCompactTrustStore
  split
  · intro r v' hrun
    cases hrun
    exact hv
  next hsize =>
  split
  · intro r v' hrun
    cases hrun
    exact hv
  rw [wp_bind, wp_modify, thenWp_ok]
  refine wp_bind_of_spec (loads_loadEntries block blob _ 6 (by omega) (by
    intro span hspan
    cases hspan)) ?_ fun e v' hv' => hv'
  intro off v' hv'
  split
  · exact loads_clearAndFail _ v'
  · intro r v'' hrun
    cases hrun
    refine ⟨hv'.1, hv'.2.trans ?_⟩
    show ([] : List HeapSpan).length + _ = _
    rw [List.length_nil, Nat.zero_add]
    rfl

/-! ## `tls_` leaves the store alone -/

variable {P : Crypto} {V : Type} {X : XboxEnv V}

/-- The same world, with this verifier and this heap. -/
def SameStore (v : VerifierObject) (h : Heap) (w₁ w₂ : XboxWorld V) : Prop :=
  w₁ = w₂ ∧ w₁.verifier = v ∧ w₁.heap = h

variable {v : VerifierObject} {h : Heap}

/-- A call of the outside world leaves the store. -/
theorem related_callOutside {α : Type} (x : Prog V Error α) :
    Related (SameStore v h) (callOutside x) (callOutside x) := by
  rintro w _ ⟨rfl, hv, hh⟩
  unfold callOutside
  cases x w.outside with
  | none => exact .diverge
  | some out => exact .stop _ ⟨rfl, hv, hh⟩

/-- The verifier leaves its store. -/
theorem related_verifyChainHere (chain : CertificateChainView) (hostname : CString) :
    Related (SameStore v h) (verifyChainHere P X chain hostname)
      (verifyChainHere P X chain hostname) := by
  unfold verifyChainHere
  apply related_bind
  · rintro w _ ⟨rfl, hw⟩
    exact .stop _ ⟨rfl, hw⟩
  intro w
  cases w.verifier.deref w.heap with
  | none => exact related_diverge
  | some verifier => exact related_callOutside _

/-- The calls of `tls_` change neither the verifier nor the heap. -/
theorem matching_tlsEnv : Matching P (SameStore v h) (tlsEnv P X) (tlsEnv P X) where
  randomBytes _ n := related_callOutside (X.randomBytes n)
  sendAll _ bytes := related_callOutside (X.sendAll bytes)
  close stream w₁ w₂ := by
    rintro ⟨rfl, hw⟩
    exact ⟨rfl, hw⟩
  verifyChain _ chain hostname := related_verifyChainHere chain hostname
  verifySignature _ _ _ _ _ := related_lift _
  malloc n w₁ w₂ := by
    rintro ⟨rfl, hw⟩
    exact ⟨rfl, rfl, hw⟩
  sizeOfSize := rfl
  writeBehind _ _ _ hw := hw
  readBehind first n w₁ w₂ := by
    rintro ⟨rfl, -⟩
    rfl
  readRecord := related_readRecord fun _ n => related_callOutside (X.recvSome n)

/-- A call of `tls_` leaves verifier and heap. -/
theorem store_of_call {k : Call} {fuel : ℕ} {t t' : System P (XboxWorld V)}
    {r : Except Error Bytes} (hrun : k.run (tlsEnv P X) fuel t = some (r, t')) :
    t'.world.verifier = t.world.verifier ∧ t'.world.heap = t.world.heap := by
  have hrelated := related_call (matching_tlsEnv (P := P) (X := X) (v := t.world.verifier)
    (h := t.world.heap)) fuel k
  have halike : Alike (SameStore t.world.verifier t.world.heap) t t := ⟨rfl, rfl, rfl, rfl, rfl⟩
  obtain ⟨t'', -, hend⟩ := hrelated.run halike hrun
  exact hend.world.2

/-! ## The invariant -/

/-- The anchors are owned, and the block of the store was handed out. -/
structure StoreKept (s : XboxSystem P V) : Prop extends AnchorsOwned s where
  frontier : ∀ block, s.client.trustStoreData = some block → block < s.tls.world.heap.next

/-- No store and no anchors. -/
theorem storeKept_none {s : XboxSystem P V} (hanchors : s.tls.world.verifier.anchors = [])
    (hdata : s.client.trustStoreData = none) : StoreKept s := by
  refine ⟨⟨?_, ?_⟩, ?_⟩
  · intro span hspan
    rw [hanchors] at hspan
    cases hspan
  · simp [hanchors, hdata]
  · intro block hblock
    rw [hdata] at hblock
    cases hblock

/-- What leaves the anchors, the heap and `trust_store_data_` as they are. -/
theorem storeKept_same {s s' : XboxSystem P V}
    (hanchors : s'.tls.world.verifier.anchors = s.tls.world.verifier.anchors)
    (hheap : s'.tls.world.heap = s.tls.world.heap)
    (hdata : s'.client.trustStoreData = s.client.trustStoreData) (hs : StoreKept s) :
    StoreKept s' := by
  refine ⟨⟨?_, ?_⟩, ?_⟩
  · rw [hanchors, hheap, hdata]
    exact hs.inside
  · rw [hanchors, hdata]
    exact hs.present
  · rw [hheap, hdata]
    exact hs.frontier

/-- After `free_trust_store` there are no anchors and no store; the other blocks stay. -/
theorem freeTrustStore_run (s : XboxSystem P V) :
    ∃ s', (freeTrustStore : XboxM P V Unit) s = some (.ok (), s') ∧
      s'.tls.world.verifier.anchors = [] ∧ s'.client.trustStoreData = none ∧
      s'.tls.world.heap.next = s.tls.world.heap.next ∧
      ∀ block, s.client.trustStoreData ≠ some block →
        s'.tls.world.heap.lookup block = s.tls.world.heap.lookup block := by
  unfold freeTrustStore
  rw [bind_of_ok (show (getXbox : XboxM P V XboxTlsClient) s = some (.ok s.client, s) from rfl)]
  cases hdata : s.client.trustStoreData with
  | none => exact ⟨_, rfl, rfl, hdata, rfl, fun _ _ => rfl⟩
  | some freed =>
    refine ⟨_, rfl, rfl, rfl, rfl, ?_⟩
    intro block hblock
    exact lookup_free_of_ne fun heq => hblock (by rw [heq])

/-- Freeing the store leaves no anchors. -/
theorem storeKept_free : Keeps StoreKept (freeTrustStore : XboxM P V Unit) := by
  intro s hs r s' hrun
  obtain ⟨s₁, hfree, hanchors, hdata, -⟩ := freeTrustStore_run s
  rw [hfree] at hrun
  cases hrun
  exact storeKept_none hanchors hdata

/-- A method of the verifier changes the verifier only. -/
theorem wp_callVerifier {α : Type} {x : Prog VerifierObject Error α}
    {Q : Except Error α → XboxSystem P V → Prop} {s : XboxSystem P V}
    (hx : wp x (fun r v => Q r { s with tls := { s.tls with
      world := { s.tls.world with verifier := v } } }) s.tls.world.verifier) :
    wp (callXboxWorld (callVerifier x)) Q s := by
  intro r s' hrun
  unfold callXboxWorld callTls callWorld callVerifier at hrun
  cases hout : x s.tls.world.verifier with
  | none =>
    rw [hout] at hrun
    cases hrun
  | some out =>
    obtain ⟨_, v⟩ := out
    rw [hout] at hrun
    cases hrun
    exact hx _ _ hout

/-- The new store replaces the old one, or there is none. -/
theorem storeKept_useTrustStore {block : ℕ} {data : Bytes} {s : XboxSystem P V}
    (hblock : s.tls.world.heap.lookup block = some data) (hlt : block < s.tls.world.heap.next)
    (hnew : s.client.trustStoreData ≠ some block) :
    wp (useTrustStore block data : XboxM P V Unit) (fun _ s' => StoreKept s') s := by
  obtain ⟨s₁, hfree, hanchors, hdata, hnext, hlookup⟩ := freeTrustStore_run s
  rw [← hlookup block hnew] at hblock
  rw [← hnext] at hlt
  unfold useTrustStore
  intro r s' hrun
  rw [bind_of_ok hfree] at hrun
  revert r s'
  show wp _ (fun _ s' => StoreKept s') s₁
  rw [wp_bind, wp_attempt]
  apply wp_callVerifier
  refine wp_mono (loads_loadCompactTrustStore block data hanchors) ?_
  intro loaded v hloaded
  rw [thenWp_ok]
  have hfail : ∀ e, v.anchors = [] → wp (freeAndFail block e : XboxM P V Unit)
      (fun _ s' => StoreKept s')
      { s₁ with tls := { s₁.tls with world := { s₁.tls.world with verifier := v } } } := by
    intro e hv r s' hrun
    cases hrun
    exact storeKept_none hv hdata
  match loaded, hloaded with
  | .error e, hv => exact hfail e hv
  | .ok 0, ⟨_, hcount⟩ => exact hfail .verify (List.length_eq_zero_iff.mp hcount)
  | .ok (n + 1), ⟨hinside, hcount⟩ =>
    intro r s' hrun
    cases hrun
    refine ⟨⟨?_, ?_⟩, ?_⟩
    · intro span hspan
      obtain ⟨hspan, hsize⟩ := hinside span hspan
      rw [hspan]
      exact ⟨rfl, data, hblock, hsize⟩
    · have hsome : v.anchors ≠ [] := by
        intro hnil
        rw [hnil] at hcount
        cases hcount
      exact ⟨fun _ => by simp, fun _ => hsome⟩
    · intro block' hblock'
      cases hblock'
      exact hlt

/-- A store that is read is owned, or there is none. -/
theorem storeKept_readTrustStore (size : ℕ) :
    Keeps StoreKept (readTrustStore X size : XboxM P V Unit) := by
  have hremember : ∀ e, Keeps StoreKept (closeFileAndFail X e : XboxM P V Unit) := by
    intro e s hs r s' hrun
    cases hrun
    exact storeKept_same (s := s) rfl rfl rfl hs
  unfold readTrustStore
  apply maintains_bind
  · intro s hs r s' hrun
    cases hrun
    exact storeKept_same (s := s) rfl rfl rfl hs
  intro memory
  split
  · exact hremember _
  apply maintains_bind
  · intro s hs r s' hrun
    cases hrun
    exact storeKept_same (s := s) rfl rfl rfl hs
  intro data s hs
  rw [wp_bind]
  intro r s₁ hrun
  cases hrun
  rw [thenWp_ok]
  -- the block that was handed out is not that of the store in use
  have hnew : s.client.trustStoreData ≠ some s.tls.world.heap.next := by
    intro hblock
    exact absurd (hs.frontier _ hblock) (lt_irrefl _)
  have hkept : ∀ (heap : Heap), (∀ block, block < s.tls.world.heap.next →
      heap.lookup block = s.tls.world.heap.lookup block) →
      heap.next = s.tls.world.heap.next + 1 → ∀ w : V,
      StoreKept { s with tls := { s.tls with
        world := { s.tls.world with heap := heap, outside := w } } } := by
    intro heap hlookup hnext w
    refine ⟨⟨?_, hs.present⟩, ?_⟩
    · intro span hspan
      obtain ⟨hblock, contents, hcontents, hsize⟩ := hs.inside span hspan
      refine ⟨hblock, contents, ?_, hsize⟩
      rw [← hcontents]
      exact hlookup _ (hs.frontier _ hblock)
    · intro block hblock
      show block < heap.next
      rw [hnext]
      exact (hs.frontier block hblock).trans (Nat.lt_succ_self _)
  split
  · intro r s' hrun
    have hfreed := hkept ((s.tls.world.heap.alloc data.val).free s.tls.world.heap.next)
      (fun block hlt => (lookup_free_of_ne hlt.ne).trans (lookup_alloc_of_lt hlt _)) rfl
      (X.fclose s.tls.world.outside)
    cases hrun
    refine storeKept_same ?_ ?_ ?_ hfreed
    all_goals rfl
  · rw [wp_bind]
    intro r s₂ hrun
    cases hrun
    rw [thenWp_ok]
    refine wp_mono (storeKept_useTrustStore (lookup_alloc_self _ _) (Nat.lt_succ_self _) hnew) ?_
    intro r s' hr
    cases r with
    | ok u => exact hr
    | error e => exact hr

/-- Every part of a method keeps the store. -/
theorem storeKept_closed : MethodsClosed X (StoreKept : XboxSystem P V → Prop) where
  members s x hdata _ hs := storeKept_same (s := s) rfl rfl hdata hs
  call s k fuel r t _ hrun hs := by
    obtain ⟨hverifier, hheap⟩ := store_of_call hrun
    exact storeKept_same (s := s) (congrArg _ hverifier) hheap rfl hs
  outside s _ hs := storeKept_same (s := s) rfl rfl rfl hs
  pin s _ hanchors hs := storeKept_same (s := s) hanchors rfl rfl hs
  free := storeKept_free
  read := storeKept_readTrustStore

/-! ## Runs -/

/-- In every run whose records fit, the store is kept. -/
theorem storeKept_of_run {v : V} {steps : List (XboxStep P V)} {s : XboxSystem P V}
    (hrun : XboxRun X (XboxSystem.fresh P v) steps s) (hfits : ∀ step ∈ steps, ReceiveFits step) :
    StoreKept s := by
  have hmembers : ∀ (s : XboxSystem P V) (x : XboxTlsClient),
      x.trustStoreData = s.client.trustStoreData → StoreKept s → StoreKept { s with client := x } :=
    fun s _ hdata hs => storeKept_same (s := s) rfl rfl hdata hs
  have hrecv : ∀ (s : XboxSystem P V) fuel receivedNull outNull size r t,
      Model.recv (tlsEnv P X) fuel receivedNull outNull size s.tls = some (r, t) →
        StoreKept s → StoreKept { s with tls := t } := by
    intro s fuel receivedNull outNull size r t hcall hs
    obtain ⟨hverifier, hheap⟩ := store_of_call
      (show (Call.recv receivedNull outNull size).run _ fuel s.tls = _ from hcall)
    exact storeKept_same (s := s) (congrArg _ hverifier) hheap rfl hs
  exact (kept_of_fittingRun storeKept_closed hmembers hrecv hrun (pendingFits_fresh v) hfits
    (storeKept_none rfl rfl)).1

/-- **The anchors never dangle.**  After any calls in any order, with any files and any
failures, if what `receive` keeps fits `pending_app_`, every anchor lies inside the block that
`trust_store_data_` owns, reading it gives bytes, and there is an anchor exactly when there is a
store. -/
theorem anchorsOwned_of_run (X : XboxEnv V) {v : V} {steps : List (XboxStep P V)}
    {s : XboxSystem P V} (hrun : XboxRun X (XboxSystem.fresh P v) steps s)
    (hfits : ∀ step ∈ steps, ReceiveFits step) :
    AnchorsOwned s ∧ ∀ span ∈ s.tls.world.verifier.anchors,
      ∃ der, s.tls.world.heap.read span = some der := by
  have hkept := storeKept_of_run hrun hfits
  refine ⟨hkept.toAnchorsOwned, ?_⟩
  intro span hspan
  obtain ⟨-, data, hdata, hsize⟩ := hkept.inside span hspan
  refine ⟨slice data span.off span.size, ?_⟩
  unfold Heap.read
  rw [hdata]
  exact if_pos hsize

/-- A console whose file holds a store of one certificate until the file is closed, and then
only the first three bytes of it. -/
def fadingConsole : XboxEnv Bytes where
  __ := scriptedXbox (trustStoreOf onceCertificate)
  ftell w := (if w.length = 0 then 3 else (trustStoreOf onceCertificate).length, w)
  fclose w := w.drop 1

/-- The numbers of anchors after these calls on that console, and whether there is a store. -/
def anchorsAfter (calls : List XboxCall) : Option (List ℕ × Bool) :=
  (runCalls fadingConsole 5 calls (.fresh blankCrypto [0])).map fun run =>
    (run.1.map fun step => step.after.tls.world.verifier.anchors.length,
      run.2.client.trustStoreData.isSome)

/-- A reload that fails after a store was loaded: no anchor is left of it. -/
theorem anchorsOwned_reload : ∃ steps s,
    XboxRun fadingConsole (XboxSystem.fresh blankCrypto [0]) steps s ∧
    steps.map (fun step => step.after.tls.world.verifier.anchors.length) = [1, 0] ∧
    s.client.trustStoreData = none ∧ AnchorsOwned s := by
  have hafter : anchorsAfter [.initializeDefault, .reloadTrustStore (some ⟨[97], by decide⟩)] =
      some ([1, 0], false) := by decide +kernel
  unfold anchorsAfter at hafter
  obtain ⟨⟨steps, s⟩, hcalls, hresult⟩ := Option.map_eq_some_iff.mp hafter
  obtain ⟨hanchors, hdata⟩ := Prod.mk.inj hresult
  obtain ⟨hrun, hsame⟩ := xboxRun_of_runCalls hcalls
  have hfits := receiveFits_of_calls hsame (by decide)
  refine ⟨steps, s, hrun, hanchors, by simpa using hdata, (anchorsOwned_of_run _ hrun hfits).1⟩

end XboxTls.Analysis
