import Mathlib.Data.List.Nodup
import XboxTls.Analysis.ScriptedHandshake
import XboxTls.Analysis.Steady
import XboxTls.Interface.NonceUse

/-!
# No nonce is used twice

Sealing a record advances the sequence number, a derivation starts it at zero, and a failed
write ends the use of the keys, since `fail` leaves the state in which nothing is sealed.
So the nonces under one derivation are those of the sequence numbers 0, 1, 2, … in order,
which differ as long as the counter of 64 bits does not come round
(`nonces_nodup_of_run`).
-/

set_option autoImplicit false

namespace XboxTls.Analysis

open Programs Programs.Prog XboxTls.Model XboxTls.Interface

variable {P : Crypto} {W : Type} (E : Env W)

/-! ## Nonces and sequence numbers -/

/-- Masking with a fixed string is injective. -/
theorem zipWith_xor_injective (mask a b : Bytes) (ha : a.length = mask.length)
    (hb : b.length = mask.length)
    (h : List.zipWith (· ^^^ ·) mask a = List.zipWith (· ^^^ ·) mask b) : a = b := by
  induction mask generalizing a b with
  | nil =>
    rw [List.eq_nil_of_length_eq_zero ha, List.eq_nil_of_length_eq_zero hb]
  | cons m mask ih =>
    cases a with
    | nil => simp at ha
    | cons x a =>
      cases b with
      | nil => simp at hb
      | cons y b =>
        have ha' : a.length = mask.length := by simpa using ha
        have hb' : b.length = mask.length := by simpa using hb
        simp only [List.zipWith_cons_cons, List.cons.injEq, UInt8.xor_right_inj] at h
        rw [h.1, ih a b ha' hb' h.2]

/-- Eight bytes determine a number below `2^64`. -/
theorem be64_injective {a b : ℕ} (ha : a < 2 ^ 64) (hb : b < 2 ^ 64) (h : be64 a = be64 b) :
    a = b := by
  unfold be64 at h
  simp only [List.cons.injEq, and_true] at h
  have htoNat : ∀ m n : ℕ, UInt8.ofNat m = UInt8.ofNat n → m % 256 = n % 256 := by
    intro m n hmn
    have h' := congrArg UInt8.toNat hmn
    simpa using h'
  obtain ⟨h7, h6, h5, h4, h3, h2, h1, h0⟩ := h
  have e7 := htoNat _ _ h7
  have e6 := htoNat _ _ h6
  have e5 := htoNat _ _ h5
  have e4 := htoNat _ _ h4
  have e3 := htoNat _ _ h3
  have e2 := htoNat _ _ h2
  have e1 := htoNat _ _ h1
  have e0 := htoNat _ _ h0
  omega

/-- Different sequence numbers give different nonces. -/
theorem makeRecordNonce_injective (iv : FixedBytes 12) {a b : UInt64}
    (h : makeRecordNonce iv a = makeRecordNonce iv b) : a = b := by
  have hval := congrArg Subtype.val h
  unfold makeRecordNonce at hval
  dsimp only at hval
  have hlen : (iv.val.drop 4).length = 8 := by
    rw [List.length_drop, iv.property]
  have hmask := List.append_cancel_left hval
  have hbytes := zipWith_xor_injective (iv.val.drop 4) (be64 a.toNat) (be64 b.toNat)
    (by rw [hlen]; rfl) (by rw [hlen]; rfl) hmask
  have hnat := be64_injective a.toNat_lt b.toNat_lt hbytes
  exact UInt64.toNat_inj.mp hnat

/-- These are the nonces of the sequence numbers from zero on. -/
def Counted (iv : FixedBytes 12) (nonces : List (FixedBytes 12)) : Prop :=
  nonces = (List.range nonces.length).map fun i => makeRecordNonce iv (UInt64.ofNat i)

/-- No nonces are counted. -/
theorem counted_nil (iv : FixedBytes 12) : Counted iv [] := rfl

/-- The next nonce is that of the length. -/
theorem counted_concat {iv : FixedBytes 12} {nonces : List (FixedBytes 12)}
    (h : Counted iv nonces) :
    Counted iv (nonces ++ [makeRecordNonce iv (UInt64.ofNat nonces.length)]) := by
  unfold Counted
  rw [List.length_append, List.length_singleton, List.range_succ, List.map_append,
    List.map_singleton]
  unfold Counted at h
  rw [← h]

/-- Before the counter comes round no nonce comes twice. -/
theorem Counted.nodup {iv : FixedBytes 12} {nonces : List (FixedBytes 12)}
    (h : Counted iv nonces) (hlen : nonces.length < 2 ^ 64) : nonces.Nodup := by
  unfold Counted at h
  rw [h]
  apply List.Nodup.map_on _ List.nodup_range
  intro i hi j hj hij
  rw [List.mem_range] at hi hj
  have hseq := makeRecordNonce_injective iv hij
  have hnat := congrArg UInt64.toNat hseq
  rw [UInt64.toNat_ofNat', UInt64.toNat_ofNat'] at hnat
  omega

/-! ## The invariant -/

/-- Under every derivation of every slot the sequence numbers went up from zero, and the records
were encrypted under their nonces. -/
structure AllCounted (P : Crypto) (evs : List Event) : Prop where
  counted : ∀ slot, ∀ nonces ∈ sealedNonces slot evs, ∃ iv, Counted iv nonces
  encrypted : SealsEncrypted P evs

/-- The keys of the slot are those of its last derivation, advanced once for each record. -/
def Live (slot : KeySlot) (s : System P W) : Prop :=
  ∃ nonces older, sealedNonces slot s.trace = nonces :: older ∧
    Counted (s.client.keys slot).iv nonces ∧
    (s.client.keys slot).sequenceNumber = UInt64.ofNat nonces.length

/-- The client is in this state and its keys in these slots are live. -/
structure Sealable (live : KeySlot → Prop) (state : ClientState) (s : System P W) : Prop where
  state : s.client.state = state
  counted : AllCounted P s.trace
  keys : ∀ slot, live slot → Live slot s

/-- Between calls: a connected client has live application keys. -/
def Keyed (s : System P W) : Prop :=
  AllCounted P s.trace ∧ (s.client.state = .connected → Live .clientApp s)

/-- Nothing counts but derivations and seals. -/
theorem sealedNonces_of_aloof (slot : KeySlot) (evs evs' : List Event)
    (h : ∀ ev ∈ evs', aloofEvent ev = true) :
    sealedNonces slot (evs ++ evs') = sealedNonces slot evs := by
  induction evs' generalizing evs with
  | nil => rw [List.append_nil]
  | cons ev evs' ih =>
    have hev : aloofEvent ev = true := h ev (List.mem_cons_self ..)
    have hrest : ∀ ev ∈ evs', aloofEvent ev = true := fun e he => h e (List.mem_cons_of_mem _ he)
    have hskip : ∀ groups, countSeal slot groups ev = groups := by
      intro groups
      cases ev <;> first | rfl | cases hev
    rw [List.append_cons, ih _ hrest, sealedNonces_concat, hskip]

/-- Other events seal nothing. -/
theorem sealsEncrypted_append {evs evs' : List Event} (h : SealsEncrypted P evs)
    (h' : SealsEncrypted P evs') : SealsEncrypted P (evs ++ evs') := by
  intro slot keys record hmem
  rcases List.mem_append.mp hmem with hold | hnew
  · exact h slot keys record hold
  · exact h' slot keys record hnew

/-- Events that do not seal say nothing of records. -/
theorem sealsEncrypted_of_aloof {evs : List Event} (h : ∀ ev ∈ evs, aloofEvent ev = true) :
    SealsEncrypted P evs :=
  fun _ _ _ hmem => absurd (h _ hmem) Bool.false_ne_true

/-- Events that neither derive nor seal change no count. -/
theorem allCounted_aloof {evs evs' : List Event} (hs : AllCounted P evs)
    (h : ∀ ev ∈ evs', aloofEvent ev = true) : AllCounted P (evs ++ evs') := by
  refine ⟨?_, sealsEncrypted_append hs.encrypted (sealsEncrypted_of_aloof h)⟩
  intro slot nonces hmem
  rw [sealedNonces_of_aloof slot _ _ h] at hmem
  exact hs.counted slot nonces hmem

/-- Nothing was sealed yet. -/
theorem allCounted_nil : AllCounted P [] := by
  refine ⟨?_, fun _ _ _ h => by cases h⟩
  intro slot nonces hmem
  rw [List.mem_singleton.mp hmem]
  exact ⟨.zero 12, counted_nil _⟩

/-- A quiet event neither derives nor seals. -/
theorem aloofEvent_of_quietEvent {ev : Event} (h : quietEvent ev = true) :
    aloofEvent ev = true := by
  cases ev <;> first | rfl | cases h

/-- What a state with aloof events and the same keys in the live slots keeps. -/
theorem Sealable.of_eq {live : KeySlot → Prop} {state : ClientState} {s s' : System P W}
    (hs : Sealable live state s) (hstate : s'.client.state = s.client.state) (evs : List Event)
    (htrace : s'.trace = s.trace ++ evs) (hevs : ∀ ev ∈ evs, aloofEvent ev = true)
    (hkeys : ∀ slot, live slot → s'.client.keys slot = s.client.keys slot) :
    Sealable live state s' := by
  refine ⟨hstate.trans hs.state, ?_, ?_⟩
  · rw [htrace]
    exact allCounted_aloof hs.counted hevs
  · intro slot hlive
    unfold Live
    rw [htrace, sealedNonces_of_aloof slot _ _ hevs, hkeys slot hlive]
    exact hs.keys slot hlive

/-- A quiet change leaves the counts. -/
theorem sealable_quiet {live : KeySlot → Prop} {state : ClientState} {s s' : System P W}
    (h : Quiet s s') (hs : Sealable live state s) : Sealable live state s' := by
  obtain ⟨evs, htrace, hevs⟩ := h.trace
  refine hs.of_eq h.state evs htrace (fun ev hev => aloofEvent_of_quietEvent (hevs ev hev)) ?_
  intro slot _
  rw [h.keys]

/-- Fewer live slots. -/
theorem Sealable.mono {live live' : KeySlot → Prop} {state : ClientState} {s : System P W}
    (hs : Sealable live state s) (h : ∀ slot, live' slot → live slot) :
    Sealable live' state s :=
  ⟨hs.state, hs.counted, fun slot hlive => hs.keys slot (h slot hlive)⟩

/-- Counts that hold for every slot are all that an unconnected client needs. -/
theorem keyed_of_counted {s : System P W} (h : AllCounted P s.trace)
    (hstate : s.client.state ≠ .connected) : Keyed s :=
  ⟨h, fun hconn => absurd hconn hstate⟩

/-- Wiping the secrets leaves the counts of the log. -/
theorem keyed_wiped {live : KeySlot → Prop} {state : ClientState} {s s' : System P W}
    (h : Wiped s s') (hs : Sealable live state s) : Keyed s' := by
  apply keyed_of_counted
  · rw [h.trace]
    exact hs.counted
  · rw [h.client]
    simp

/-- **Sealing keeps the keys live.** -/
theorem sealable_afterSeal {live : KeySlot → Prop} {state : ClientState} {s : System P W}
    (hs : Sealable live state s) {slot : KeySlot} (hslot : live slot) (w : W) {record : Bytes}
    (hrecord : EncryptedWith P (s.client.keys slot).key (s.client.keys slot).nonce record) :
    Sealable live state (afterSeal s slot w record) := by
  obtain ⟨nonces, older, hgroups, hcounted, hseq⟩ := hs.keys slot hslot
  have hself : sealedNonces slot (s.trace ++ [.sealed slot (s.client.keys slot) record]) =
      (nonces ++ [(s.client.keys slot).nonce]) :: older := by
    rw [sealedNonces_concat, hgroups]
    simp only [countSeal, if_true, List.headD_cons, List.tail_cons]
  have hother : ∀ slot', slot' ≠ slot →
      sealedNonces slot' (s.trace ++ [.sealed slot (s.client.keys slot) record]) =
        sealedNonces slot' s.trace := by
    intro slot' hne
    rw [sealedNonces_concat]
    simp only [countSeal, if_neg (Ne.symm hne)]
  have hnext : Counted (s.client.keys slot).iv (nonces ++ [(s.client.keys slot).nonce]) := by
    unfold TrafficKeys.nonce
    rw [hseq]
    exact counted_concat hcounted
  have hencrypted : SealsEncrypted P [.sealed slot (s.client.keys slot) record] := by
    intro slot' keys record' hmem
    cases List.mem_singleton.mp hmem
    exact hrecord
  refine ⟨?_, ⟨?_, sealsEncrypted_append hs.counted.encrypted hencrypted⟩, ?_⟩
  · rw [← hs.state]
    cases slot <;> rfl
  · intro slot' nonces' hmem
    by_cases hne : slot' = slot
    · subst hne
      rw [afterSeal, hself] at hmem
      rcases List.mem_cons.mp hmem with rfl | hmem
      · exact ⟨_, hnext⟩
      · exact hs.counted.counted slot' nonces' (by rw [hgroups]; exact List.mem_cons_of_mem _ hmem)
    · rw [afterSeal, hother slot' hne] at hmem
      exact hs.counted.counted slot' nonces' hmem
  · intro slot' hlive
    by_cases hne : slot' = slot
    · subst hne
      refine ⟨_, older, hself, ?_, ?_⟩
      · simp only [afterSeal, keys_setKeys_self, TrafficKeys.advance_iv]
        exact hnext
      · simp only [afterSeal, keys_setKeys_self, TrafficKeys.advance_sequenceNumber, hseq,
          List.length_append, List.length_singleton, UInt64.ofNat_add]
        rfl
    · obtain ⟨nonces', older', hgroups', hcounted', hseq'⟩ := hs.keys slot' hlive
      refine ⟨nonces', older', (hother slot' hne).trans hgroups', ?_, ?_⟩
      · simp only [afterSeal, keys_setKeys_of_ne _ hne]
        exact hcounted'
      · simp only [afterSeal, keys_setKeys_of_ne _ hne]
        exact hseq'

/-- **A derivation makes the keys of its slot live.** -/
theorem sealable_afterDerive {live : KeySlot → Prop} {state : ClientState} {s : System P W}
    (hs : Sealable live state s) (slot : KeySlot) {keys : TrafficKeys}
    (hkeys : keys.sequenceNumber = 0) :
    Sealable (fun slot' => slot' = slot ∨ live slot') state (afterDerive s slot keys) := by
  have hself : sealedNonces slot (s.trace ++ [.keysDerived slot keys]) =
      [] :: sealedNonces slot s.trace := by
    rw [sealedNonces_concat]
    simp only [countSeal, if_true]
  have hother : ∀ slot', slot' ≠ slot →
      sealedNonces slot' (s.trace ++ [.keysDerived slot keys]) = sealedNonces slot' s.trace := by
    intro slot' hne
    rw [sealedNonces_concat]
    simp only [countSeal, if_neg (Ne.symm hne)]
  have hencrypted : SealsEncrypted P [.keysDerived slot keys] := by
    intro slot' keys' record hmem
    cases List.mem_singleton.mp hmem
  refine ⟨?_, ⟨?_, sealsEncrypted_append hs.counted.encrypted hencrypted⟩, ?_⟩
  · rw [← hs.state]
    cases slot <;> rfl
  · intro slot' nonces hmem
    by_cases hne : slot' = slot
    · subst hne
      rw [afterDerive, hself] at hmem
      rcases List.mem_cons.mp hmem with rfl | hmem
      · exact ⟨keys.iv, counted_nil _⟩
      · exact hs.counted.counted slot' nonces hmem
    · rw [afterDerive, hother slot' hne] at hmem
      exact hs.counted.counted slot' nonces hmem
  · intro slot' hlive
    by_cases hne : slot' = slot
    · subst hne
      refine ⟨[], sealedNonces slot' s.trace, hself, counted_nil _, ?_⟩
      simp only [afterDerive, keys_setKeys_self, hkeys, List.length_nil]
      rfl
    · obtain ⟨nonces, older, hgroups, hcounted, hseq⟩ := hs.keys slot' (hlive.resolve_left hne)
      refine ⟨nonces, older, (hother slot' hne).trans hgroups, ?_, ?_⟩
      · simp only [afterDerive, keys_setKeys_of_ne _ hne]
        exact hcounted
      · simp only [afterDerive, keys_setKeys_of_ne _ hne]
        exact hseq

/-- Opening a record does not touch the keys of the other slots. -/
theorem sealable_afterOpen {live : KeySlot → Prop} {state : ClientState} {s : System P W}
    (hs : Sealable live state s) {slot : KeySlot} (hslot : ¬ live slot) (record : Bytes) :
    Sealable live state (afterOpen s slot record) := by
  refine hs.of_eq ?_ [.opened slot (s.client.keys slot) record] rfl (by simp [aloofEvent]) ?_
  · cases slot <;> rfl
  · intro slot' hlive
    have hne : slot' ≠ slot := by
      rintro rfl
      exact hslot hlive
    exact keys_setKeys_of_ne _ hne _

/-- What `protect_record_aes128_gcm` writes was encrypted under the nonce of the keys. -/
theorem encryptedWith_sealedRecord (keys : TrafficKeys) {innerType : UInt8} {content : Bytes}
    {padding : ℕ} (hcheck : checkProtect innerType content padding 16645 = .ok ()) :
    EncryptedWith P keys.key keys.nonce (sealedRecord P keys innerType content padding) := by
  obtain ⟨-, -, -, -, hfrag⟩ := checkProtect_ok hcheck
  refine ⟨innerPlaintext innerType content padding, ?_, rfl⟩
  unfold fragLength at hfrag
  unfold innerPlaintext
  simp only [List.length_append, List.length_singleton, List.length_replicate]
  omega

/-! ## The methods -/

section Methods

variable {live : KeySlot → Prop} {state : ClientState}

/-- A record that is sealed under live keys takes the next nonce. -/
theorem keeps_sealable_protectRecord {slot : KeySlot} (hslot : live slot) (innerType : UInt8)
    (content : Bytes) (padding : ℕ) :
    Keeps (Sealable live state)
      (protectRecord E slot innerType content padding : ClientM P W Bytes) := by
  intro s hs
  apply wp_protectRecord
  · intro e w
    exact sealable_quiet (still_world s w).quiet hs
  · intro w hcheck
    exact sealable_afterSeal hs hslot w (encryptedWith_sealedRecord _ hcheck)

/-- A record that is opened seals nothing. -/
theorem keeps_sealable_unprotectRecord {slot : KeySlot} (hslot : ¬ live slot) (record : Bytes) :
    Keeps (Sealable live state) (unprotectRecord slot record : ClientM P W (UInt8 × Bytes)) := by
  intro s hs
  apply wp_unprotectRecord
  · intro e
    exact hs
  · intro e plaintext _
    exact hs.of_eq rfl [.opened _ _ _] rfl (by simp [aloofEvent]) fun _ _ => rfl
  · intro t content _
    exact sealable_afterOpen hs hslot record

/-- `send_protected` seals with the keys that its state selects. -/
theorem keeps_sealable_sendProtected
    (hslot : live (if state = .connected then .clientApp else .clientHs)) (innerType : UInt8)
    (payload : Bytes) :
    Keeps (Sealable live state) (sendProtected E innerType payload : ClientM P W Unit) := by
  have hwrite : ∀ stream record,
      Keeps (Sealable live state) (writeStream E stream record : ClientM P W Unit) :=
    maintains_writeStream E (fun _ _ h => sealable_quiet h.quiet) fun _ h => h
  intro s hs
  unfold sendProtected
  rw [wp_bind, wp_getClient, thenWp_ok, hs.state]
  apply maintains_bind (keeps_sealable_protectRecord E hslot innerType payload 0) _ s hs
  intro record
  exact maintains_bind (maintains_deref _) fun stream => hwrite stream record

/-- Another schedule, which no slot depends on. -/
theorem sealable_schedule {s : System P W} (hs : Sealable live state s) (schedule : KeySchedule) :
    Sealable live state { s with client := { s.client with schedule := schedule } } := by
  refine hs.of_eq rfl [] (List.append_nil _).symm (by simp) ?_
  intro slot _
  cases slot <;> rfl

/-- A received KeyUpdate or a sent one derives the keys of a slot anew. -/
theorem keeps_sealable_updateClientKeys :
    Keeps (Sealable live state) (updateClientKeys : ClientM P W Unit) := by
  intro s hs
  obtain ⟨next, keys, hupdate, -, hseq⟩ :=
    updateTrafficSecretSha256_isOk P s.client.schedule.clientApplicationTrafficSecret
  unfold updateClientKeys
  rw [wp_bind, wp_getClient, thenWp_ok, hupdate]
  simp only [wp_bind, wp_lift, thenWp_ok, wp_modifyClient, wp_emit, ends_ok]
  have hderive := sealable_afterDerive (sealable_schedule hs
    { s.client.schedule with clientApplicationTrafficSecret := next }) .clientApp hseq
  exact hderive.mono fun slot hlive => Or.inr hlive

/-- The update of the server's keys seals nothing. -/
theorem keeps_sealable_updateServerKeys :
    Keeps (Sealable live state) (updateServerKeys : ClientM P W Unit) := by
  intro s hs
  obtain ⟨next, keys, hupdate, -, hseq⟩ :=
    updateTrafficSecretSha256_isOk P s.client.schedule.serverApplicationTrafficSecret
  unfold updateServerKeys
  rw [wp_bind, wp_getClient, thenWp_ok, hupdate]
  simp only [wp_bind, wp_lift, thenWp_ok, wp_modifyClient, wp_emit, ends_ok]
  have hderive := sealable_afterDerive (sealable_schedule hs
    { s.client.schedule with serverApplicationTrafficSecret := next }) .serverApp hseq
  exact hderive.mono fun slot hlive => Or.inr hlive

end Methods

/-! ## The handshake -/

/-- During the hello messages nothing is sealed. -/
abbrev NoLive : KeySlot → Prop := fun _ => False

/-- During the encrypted flight the client's handshake keys are live. -/
abbrev HsLive : KeySlot → Prop := fun slot => slot = .clientHs

/-- Once connected the client's application keys are live. -/
abbrev AppLive : KeySlot → Prop := fun slot => slot = .clientApp

section Handshake

variable {live : KeySlot → Prop} {state : ClientState}

/-- `fail` ends the use of the keys. -/
theorem keyed_of_wiped (s s' : System P W) (h : Wiped s s') (hs : Sealable live state s) :
    Keyed s' :=
  keyed_wiped h hs

/-- Deriving the keys of a slot, behind its error check. -/
theorem leads_deriveKeys (slot : KeySlot) (secret : FixedBytes 32) :
    Leads (Sealable live state) (Sealable (fun slot' => slot' = slot ∨ live slot') state) Keyed
      (orFail E (deriveKeys slot secret) : ClientM P W Unit) := by
  intro s hs
  unfold orFail
  rw [wp_onError]
  apply wp_deriveKeys
  intro keys hkeys
  exact sealable_afterDerive hs slot hkeys

/-- The handshake keys come live. -/
theorem leads_deriveHandshakeKeys (sh : ServerHelloInfo) (group : NamedGroup) :
    Leads (Sealable NoLive .handshaking) (Sealable HsLive .handshaking) Keyed
      (deriveHandshakeKeys E sh group : ClientM P W Unit) := by
  have hW : ∀ s s' : System P W, Wiped s s' → Sealable NoLive .handshaking s → Keyed s' :=
    keyed_of_wiped
  have hQ : ∀ s s' : System P W, Quiet s s' → Sealable NoLive .handshaking s →
      Sealable NoLive .handshaking s' := fun _ _ => sealable_quiet
  have hsched : ∀ f : TlsClient P → KeySchedule, Keeps (Sealable NoLive .handshaking)
      (modifyClient fun c => { c with schedule := f c } : ClientM P W Unit) := by
    intro f s hs
    rw [wp_modifyClient]
    exact sealable_schedule hs _
  unfold deriveHandshakeKeys
  apply leads_bind maintains_getClient
  intro c
  apply leads_bind
  · apply maintains_modifyClient hQ
    intro s
    exact ⟨rfl, rfl, rfl, rfl, rfl, rfl, rfl, [], by simp, by simp⟩
  intro _
  split
  · intro s hs
    rw [wp_failWith_iff]
    exact hW _ _ (wiped_afterEnd E s) hs
  apply leads_bind maintains_getClient
  intro c
  apply leads_bind (maintains_orFail E hW (maintains_lift (fun _ h => h) _))
  intro shared
  apply leads_bind (maintains_emit hQ rfl)
  intro _
  apply leads_bind (maintains_mono (hsched _) fun s hs => keyed_of_counted hs.counted (by
    rw [hs.state]
    simp))
  intro _
  apply leads_bind maintains_getClient
  intro c
  apply leads_bind (maintains_orFail E hW (maintains_lift (fun _ h => h) _))
  intro schedule
  apply leads_bind (maintains_mono (hsched _) fun s hs => keyed_of_counted hs.counted (by
    rw [hs.state]
    simp))
  intro _
  apply leads_bind (leads_deriveKeys E .clientHs _)
  intro _
  apply leads_bind (leads_deriveKeys E .serverHs _)
  intro _ s hs
  rw [wp_emit]
  have hlive : Sealable HsLive .handshaking s :=
    hs.mono fun slot hslot => Or.inr (Or.inl hslot)
  exact sealable_quiet (quiet_emit s rfl) hlive

/-- The encrypted flight opens records, and seals none. -/
theorem keeps_sealable_flightLoop (fuel : ℕ) (l : FlightLocals) :
    Keeps (Sealable HsLive state) (flightLoop E fuel l : ClientM P W Unit) := by
  have hQ : ∀ s s' : System P W, Quiet s s' → Sealable HsLive state s →
      Sealable HsLive state s' := fun _ _ => sealable_quiet
  have hJ : ∀ s : System P W, Sealable HsLive state s → Sealable HsLive state s := fun _ h => h
  have hround : ∀ l, Keeps (Sealable HsLive state)
      (flightRound E l : ClientM P W FlightLocals) := by
    intro l
    have hT := Quiet.still_closed hQ
    unfold flightRound
    apply maintains_bind (maintains_readRecord E hT hJ _)
    intro record
    apply maintains_bind (maintains_lift hJ _)
    intro rh
    split
    · exact maintains_bind (maintains_emit hQ rfl) fun _ => maintains_pure l
    · split
      · exact maintains_bind (maintains_handleAlert hT _) fun e => maintains_throw hJ e
      · split
        · exact maintains_throw hJ _
        · apply maintains_bind (keeps_sealable_unprotectRecord (by simp) record)
          intro opened
          dsimp only
          split
          · exact maintains_bind (maintains_handleAlert hT _) fun e => maintains_throw hJ e
          · split
            · exact maintains_throw hJ _
            · apply maintains_bind (maintains_appendFragment hQ hJ _ _)
              intro _
              apply maintains_bind maintains_getClient
              intro c
              exact maintains_drainFlight E hQ hJ _ _
  induction fuel generalizing l with
  | zero => exact maintains_diverge
  | succ fuel ih =>
    unfold flightLoop
    split
    · exact maintains_pure ()
    · apply maintains_bind (hround l)
      intro l'
      exact ih l'

/-- The application keys come live, and the client's Finished goes out under the handshake
keys. -/
theorem leads_finishHandshake :
    Leads (Sealable HsLive .handshaking) (Sealable AppLive .handshaking)
      (Sealable HsLive .handshaking) (finishHandshake E : ClientM P W Unit) := by
  have hderive : ∀ (live' : KeySlot → Prop) slot secret, Leads (Sealable live' .handshaking)
      (Sealable (fun slot' => slot' = slot ∨ live' slot') .handshaking)
      (Sealable HsLive .handshaking) (deriveKeys slot secret : ClientM P W Unit) := by
    intro live' slot secret s hs
    apply wp_deriveKeys
    intro keys hkeys
    exact sealable_afterDerive hs slot hkeys
  unfold finishHandshake
  apply leads_bind maintains_getClient
  intro c
  apply leads_bind (maintains_lift (fun _ h => h) _)
  intro schedule
  apply leads_bind (K := Sealable HsLive .handshaking)
  · intro s hs
    rw [wp_modifyClient]
    exact sealable_schedule hs schedule
  intro _
  apply leads_bind (hderive HsLive .clientApp _)
  intro _
  apply leads_bind (hderive _ .serverApp _)
  intro _
  have hQ : ∀ s s' : System P W, Quiet s s' →
      Sealable (fun slot => slot = .serverApp ∨ slot = .clientApp ∨ slot = .clientHs)
        .handshaking s →
      Sealable (fun slot => slot = .serverApp ∨ slot = .clientApp ∨ slot = .clientHs)
        .handshaking s' := fun _ _ => sealable_quiet
  have hJ : ∀ s : System P W,
      Sealable (fun slot => slot = .serverApp ∨ slot = .clientApp ∨ slot = .clientHs)
        .handshaking s → Sealable HsLive .handshaking s :=
    fun _ hs => hs.mono fun slot hslot => Or.inr (Or.inr hslot)
  apply leads_bind maintains_getClient
  intro c
  apply leads_bind (maintains_emit hQ rfl)
  intro _
  apply leads_bind (maintains_lift hJ _)
  intro fin
  apply leads_bind (maintains_mono (keeps_sealable_sendProtected E (by simp) _ _) hJ)
  intro _
  apply leads_bind (maintains_hashMessage (Quiet.still_closed hQ) _)
  intro _ s hs
  rw [wp_emit]
  have happ : Sealable AppLive .handshaking s :=
    hs.mono fun slot hslot => Or.inr (Or.inl hslot)
  exact sealable_quiet (quiet_emit s rfl) happ

/-- From the first hello to live application keys. -/
theorem leads_connectHandshake (fuel : ℕ) (config : ClientConfig) :
    Leads (Sealable NoLive .handshaking) (Sealable AppLive .handshaking) Keyed
      (connectHandshake E fuel config : ClientM P W Unit) := by
  have hQ : ∀ s s' : System P W, Quiet s s' → Sealable NoLive .handshaking s →
      Sealable NoLive .handshaking s' := fun _ _ => sealable_quiet
  unfold connectHandshake
  apply leads_bind (maintains_startHello E keyed_of_wiped (Quiet.helloClosed hQ) config)
  intro h
  apply leads_bind (maintains_helloLoop E keyed_of_wiped (Quiet.helloClosed hQ)
    (Quiet.readHelloRecord E hQ keyed_of_wiped) fuel h)
  intro r
  apply leads_bind (leads_deriveHandshakeKeys E _ _)
  intro _ s hs
  unfold orFail
  rw [wp_onError]
  have hflight : Leads (Sealable HsLive .handshaking) (Sealable AppLive .handshaking)
      (Sealable HsLive .handshaking) (processServerHandshake E fuel : ClientM P W Unit) := by
    unfold processServerHandshake
    apply leads_bind (keeps_sealable_flightLoop E fuel _)
    intro _
    exact leads_finishHandshake E
  refine wp_mono (hflight s hs) ?_
  intro r s' hr
  cases r with
  | ok u => exact hr
  | error e =>
    rw [handledWp_error, wp_failWith_iff]
    exact keyed_wiped (wiped_afterEnd E s') hr

end Handshake

/-! ## The calls -/

/-- The client's application keys are live. -/
theorem appLive_clientApp : AppLive .clientApp := rfl

/-- A connected client whose keys are counted is keyed. -/
theorem keyed_of_sealable {s : System P W} (hs : Sealable AppLive .connected s) : Keyed s :=
  ⟨hs.counted, fun _ => hs.keys .clientApp rfl⟩

/-- The keys of a connected client are counted. -/
theorem sealable_of_keyed {s : System P W} (hs : Keyed s) (hconn : s.client.state = .connected) :
    Sealable AppLive .connected s := by
  refine ⟨hconn, hs.1, ?_⟩
  rintro slot rfl
  exact hs.2 hconn

/-- A method that starts with a test for `CLIENT_CONNECTED`. -/
theorem keyed_of_connected {α : Type} {x : TlsClient P → ClientM P W α}
    (hclosed : ∀ c : TlsClient P, c.state ≠ .connected → Keeps Keyed (x c))
    (hopen : ∀ c : TlsClient P, c.state = .connected →
      Leads (Sealable AppLive .connected) Keyed Keyed (x c)) :
    Keeps Keyed (do let c ← getClient; x c : ClientM P W α) := by
  intro s hs
  rw [wp_bind, wp_getClient, thenWp_ok]
  by_cases hconn : s.client.state = .connected
  · exact hopen s.client hconn s (sealable_of_keyed hs hconn)
  · exact hclosed s.client hconn s hs

/-- `connect` keeps the counts. -/
theorem keeps_keyed_connect (fuel : ℕ) (config : ClientConfig) :
    Keeps Keyed (connect E fuel config : ClientM P W Unit) := by
  intro s hs
  unfold connect
  rw [wp_bind, wp_getClient, thenWp_ok]
  split
  · rw [wp_throw]
    exact hs
  · simp only [wp_bind, wp_modifyClient, thenWp_ok, wp_emit]
    have hstart : Sealable NoLive .handshaking (⟨beginConnect config s.client, s.world,
        s.trace ++ [.connect config]⟩ : System P W) := by
      exact ⟨rfl, allCounted_aloof hs.1 (by simp [aloofEvent]), fun slot h => absurd h id⟩
    refine wp_mono (leads_connectHandshake E fuel config _ hstart) ?_
    intro r s' hr
    cases r with
    | error e => exact hr
    | ok u =>
      rw [thenWp_ok, wp_modifyClient]
      exact ⟨hr.counted, fun _ => hr.keys .clientApp rfl⟩

/-- The loop of `send` takes one nonce for each record. -/
theorem keeps_sealable_sendLoop (padding maxContent fuel : ℕ) (data : Bytes) :
    Leads (Sealable AppLive .connected) (Sealable AppLive .connected) Keyed
      (sendLoop E padding maxContent fuel data : ClientM P W Unit) := by
  induction fuel generalizing data with
  | zero => exact maintains_pure ()
  | succ fuel ih =>
    unfold sendLoop
    split
    · exact maintains_pure ()
    · have hchunk : Keeps (Sealable AppLive .connected) (sendChunk E padding
          (data.take (min data.length maxContent)) : ClientM P W Unit) := by
        unfold sendChunk
        apply maintains_bind (keeps_sealable_protectRecord E appLive_clientApp _ _ _)
        intro record
        apply maintains_bind maintains_getClient
        intro c
        apply maintains_bind (maintains_deref _)
        intro stream
        exact maintains_writeStream E (fun _ _ h => sealable_quiet h.quiet) (fun _ h => h) _ _
      exact leads_bind (maintains_orFail E keyed_of_wiped hchunk) fun _ => ih _

/-- The replies to KeyUpdates are sealed before the keys change. -/
theorem keeps_sealable_drainPostHandshake (fuel : ℕ) :
    Keeps (Sealable AppLive .connected) (drainPostHandshake E fuel : ClientM P W Unit) := by
  have hQ : ∀ s s' : System P W, Quiet s s' → Sealable AppLive .connected s →
      Sealable AppLive .connected s' := fun _ _ => sealable_quiet
  have hJ : ∀ s : System P W, Sealable AppLive .connected s → Sealable AppLive .connected s :=
    fun _ h => h
  have hmessage : ∀ msg, Keeps (Sealable AppLive .connected)
      (handlePostHandshake E msg : ClientM P W Unit) := by
    intro msg
    unfold handlePostHandshake
    split
    · exact maintains_pure ()
    · split
      · unfold handleKeyUpdate
        split
        · exact maintains_throw hJ _
        · apply maintains_bind keeps_sealable_updateServerKeys
          intro _
          apply maintains_bind maintains_getClient
          intro c
          apply maintains_bind (maintains_emit hQ rfl)
          intro _
          split
          · exact maintains_bind (keeps_sealable_sendProtected E appLive_clientApp _ _) fun _ =>
              keeps_sealable_updateClientKeys
          · exact maintains_pure ()
      · exact maintains_throw hJ _
  induction fuel with
  | zero => exact maintains_diverge
  | succ fuel ih =>
    unfold drainPostHandshake
    apply maintains_bind maintains_getClient
    intro c
    split
    · exact maintains_pure ()
    · exact maintains_throw hJ _
    · apply maintains_bind (hmessage _)
      intro _
      apply maintains_bind (maintains_consumeMessage (Quiet.shorten hQ) hJ)
      intro _
      exact maintains_bind (maintains_emit hQ rfl) fun _ => ih

/-- `send` keeps the counts. -/
theorem keeps_keyed_send (null : Bool) (data : Bytes) :
    Keeps Keyed (send E null data : ClientM P W Unit) := by
  unfold send
  apply keyed_of_connected
  · intro c hc
    rw [if_pos hc]
    exact maintains_throw (fun _ h => h) _
  · intro c hc
    rw [if_neg (not_not.mpr hc)]
    split
    · intro s hs
      rw [wp_throw]
      exact keyed_of_sealable hs
    · intro s hs
      refine wp_mono (keeps_sealable_sendLoop E _ _ _ _ s hs) ?_
      intro r s' hr
      cases r with
      | error e => exact hr
      | ok u => exact keyed_of_sealable hr

/-- `key_update` keeps the counts. -/
theorem keeps_keyed_keyUpdate (request : Bool) :
    Keeps Keyed (keyUpdate E request : ClientM P W Unit) := by
  unfold keyUpdate
  apply keyed_of_connected
  · intro c hc
    rw [if_pos hc]
    exact maintains_throw (fun _ h => h) _
  · intro c hc
    rw [if_neg (not_not.mpr hc)]
    apply leads_bind (maintains_orFail E keyed_of_wiped
      (keeps_sealable_sendProtected E appLive_clientApp _ _))
    intro _ s hs
    have hupdate : Maintains (Sealable AppLive .connected) Keyed
        (orFail E updateClientKeys : ClientM P W Unit) :=
      maintains_orFail E keyed_of_wiped keeps_sealable_updateClientKeys
    refine wp_mono (hupdate s hs) ?_
    intro r s' hr
    cases r with
    | error e => exact hr
    | ok u => exact keyed_of_sealable hr

/-- Application data leave the keys alone. -/
theorem keeps_sealable_recvData (content : Bytes) (size : ℕ) :
    Keeps (Sealable AppLive .connected) (recvData E content size : ClientM P W Bytes) := by
  intro s hs
  apply wp_recvData_of
  · intro _
    exact hs.of_eq rfl [.appData _ _, .delivered _] (List.append_assoc _ _ _)
      (by simp [aloofEvent]) fun slot _ => rfl
  · intro _ level description w
    refine hs.of_eq rfl [.appData _ _, .delivered _] (List.append_assoc _ _ _)
      (by simp [aloofEvent]) ?_
    intro slot _
    cases slot <;> rfl

/-- Setting the state to closed ends the use of the keys. -/
theorem keyed_afterEnd {s : System P W} (hs : AllCounted P s.trace) :
    Keyed (afterEnd E .closed s) :=
  keyed_of_counted hs (by simp [afterEnd])

/-- The loop of `recv` keeps the counts. -/
theorem keyed_recvRecords (size fuel : ℕ) :
    Leads (Sealable AppLive .connected) Keyed Keyed
      (recvRecords E size fuel : ClientM P W Bytes) := by
  have hQ : ∀ s s' : System P W, Quiet s s' → Sealable AppLive .connected s →
      Sealable AppLive .connected s' := fun _ _ => sealable_quiet
  have hJ : ∀ s : System P W, Sealable AppLive .connected s → Sealable AppLive .connected s :=
    fun _ h => h
  have hfail : ∀ e, Leads (Sealable AppLive .connected) Keyed Keyed
      (failWith E e : ClientM P W Bytes) := by
    intro e s hs
    rw [wp_failWith_iff]
    exact keyed_wiped (wiped_afterEnd E s) hs
  induction fuel with
  | zero =>
    intro s _
    simp [recvRecords]
  | succ fuel ih =>
    have hT := Quiet.still_closed hQ
    unfold recvRecords
    apply leads_bind (maintains_orFail E keyed_of_wiped (maintains_readRecord E hT hJ _))
    intro record
    apply leads_bind (maintains_orFail E keyed_of_wiped (maintains_lift hJ _))
    intro rh
    split
    · exact leads_bind (maintains_emit hQ rfl) fun _ => ih
    · split
      · exact hfail _
      · apply leads_bind (maintains_orFail E keyed_of_wiped
          (keeps_sealable_unprotectRecord (by simp) record))
        rintro ⟨inner, content⟩
        dsimp only
        split
        · intro s hs
          refine wp_mono (keeps_sealable_recvData E content size s hs) ?_
          intro r s' hr
          cases r <;> exact keyed_of_sealable hr
        · split
          · unfold recvAlert
            apply leads_bind (maintains_mono (maintains_handleAlert hT _)
              fun _ h => keyed_of_sealable h)
            intro ae
            split
            · intro s hs r s' hrun
              rw [recvClosed_apply] at hrun
              cases hrun
              exact keyed_afterEnd E hs.counted
            · exact hfail ae
          · split
            · have hpost : Keeps (Sealable AppLive .connected)
                  (processPostHandshake E content : ClientM P W Unit) := by
                unfold processPostHandshake
                apply maintains_bind (maintains_appendFragment hQ hJ _ _)
                intro _
                apply maintains_bind maintains_getClient
                intro c
                exact keeps_sealable_drainPostHandshake E _
              apply leads_bind (maintains_orFail E keyed_of_wiped hpost)
              intro _
              exact ih
            · exact hfail _

/-- `recv` keeps the counts. -/
theorem keeps_keyed_recv (fuel : ℕ) (receivedNull outNull : Bool) (size : ℕ) :
    Keeps Keyed (recv E fuel receivedNull outNull size : ClientM P W Bytes) := by
  intro s hs
  unfold recv
  rw [wp_bind, wp_getClient, thenWp_ok]
  split
  · rw [wp_throw]
    exact hs
  · split
    · rw [wp_throw]
      exact hs
    · next hconn =>
      have hlive := sealable_of_keyed hs (not_not.mp hconn)
      split
      · apply wp_recvPending_of
        intro bytes _
        apply keyed_of_sealable
        refine hlive.of_eq rfl [.delivered bytes] rfl (by simp [aloofEvent]) ?_
        intro slot _
        cases slot <;> rfl
      · exact keyed_recvRecords E size fuel s hlive

/-- **Every call keeps the keys in step with their use.** -/
theorem keeps_keyed (fuel : ℕ) (call : Call) :
    Keeps Keyed (call.run E fuel : ClientM P W Bytes) := by
  cases call with
  | connect config =>
    exact maintains_bind (keeps_keyed_connect E fuel config) fun _ => maintains_pure []
  | send null data =>
    exact maintains_bind (keeps_keyed_send E null data) fun _ => maintains_pure []
  | recv receivedNull outNull size => exact keeps_keyed_recv E fuel receivedNull outNull size
  | keyUpdate request =>
    exact maintains_bind (keeps_keyed_keyUpdate E request) fun _ => maintains_pure []
  | reset =>
    apply maintains_bind _ fun _ => maintains_pure []
    unfold reset
    apply maintains_bind maintains_getClient
    intro c
    split
    · exact maintains_throw (fun _ h => h) _
    · intro s hs r s' hrun
      simp only [bind_apply, closeStream_apply, modifyClient] at hrun
      cases hrun
      exact keyed_of_counted hs.1 (by simp)
  | close =>
    apply maintains_bind _ fun _ => maintains_pure []
    intro s hs
    unfold close
    rw [wp_bind, wp_getClient, thenWp_ok]
    split
    · rw [wp_pure]
      exact hs
    · have hnotify : wp (sendCloseNotify E s.client : ClientM P W (Except Error Unit))
          (ends (fun s' => AllCounted P s'.trace) Keyed) s := by
        unfold sendCloseNotify
        split
        · next hconn =>
          rw [wp_attempt]
          refine wp_mono (keeps_sealable_sendProtected E appLive_clientApp _ _ s
            (sealable_of_keyed hs hconn)) ?_
          intro r s' hr
          cases r <;> exact hr.counted
        · rw [wp_pure]
          exact hs.1
      rw [wp_bind]
      refine wp_mono hnotify ?_
      intro r s' hr
      cases r with
      | error e => exact hr
      | ok r =>
        rw [thenWp_ok]
        intro r' s'' hrun
        simp only [bind_apply, closeStream_apply, modifyClient] at hrun
        cases hrun
        exact keyed_of_counted hr (by simp)

/-- In every run the sequence numbers go up from zero under every derivation of every slot. -/
theorem counted_of_run {w : W} {log : List (Call × Except Error Bytes)} {s : System P W}
    (hrun : Run E (System.fresh P w) log s) : AllCounted P s.trace := by
  have hinv : Keyed s := by
    refine hrun.invariant (fun call s r s' hs hret => ?_) ?_
    · exact hret.keeps (fun fuel => keeps_keyed E fuel call) hs
    · exact keyed_of_counted allCounted_nil (by simp [System.fresh, TlsClient.initial])
  exact hinv.1

/-- **No nonce comes twice under one derivation of keys**, in every run of calls over every
platform, stream and verifier: every record that is sealed is what a call of `aes128_gcm_encrypt`
gave under the nonce of its entry, and of the calls under one derivation no two have the same
nonce, as long as they are fewer than `2^64`. -/
theorem nonces_nodup_of_run (w : W) (log : List (Call × Except Error Bytes)) (s : System P W)
    (hrun : Run E (System.fresh P w) log s) :
    SealsEncrypted P s.trace ∧ ∀ slot, ∀ nonces ∈ sealedNonces slot s.trace,
      nonces.length < 2 ^ 64 → nonces.Nodup := by
  obtain ⟨hcounted, hencrypted⟩ := counted_of_run E hrun
  refine ⟨hencrypted, fun slot nonces hgroup hlen => ?_⟩
  obtain ⟨iv, hgroup⟩ := hcounted slot nonces hgroup
  exact hgroup.nodup hlen

/-- A group holds no more nonces than records were sealed. -/
theorem length_le_of_mem_sealedNonces {slot : KeySlot} {evs : List Event}
    {nonces : List (FixedBytes 12)} (h : nonces ∈ sealedNonces slot evs) :
    nonces.length ≤ (milestones evs).length := by
  induction evs using List.reverseRecOn generalizing nonces with
  | nil =>
    rw [List.mem_singleton.mp h]
    simp
  | append_singleton evs ev ih =>
    rw [sealedNonces_concat] at h
    rw [milestones_append, List.length_append]
    have hsame : nonces ∈ sealedNonces slot evs →
        nonces.length ≤ (milestones evs).length + (milestones [ev]).length := by
      intro hmem
      have hle := ih hmem
      omega
    cases ev with
    | keysDerived slot' keys =>
      simp only [countSeal] at h
      split at h
      · rcases List.mem_cons.mp h with rfl | h
        · simp
        · exact hsame h
      · exact hsame h
    | «sealed» slot' keys record =>
      simp only [countSeal] at h
      have hone : (milestones [.sealed slot' keys record]).length = 1 := rfl
      rw [hone] at hsame ⊢
      split at h
      · rcases List.mem_cons.mp h with rfl | h
        · cases hgroups : sealedNonces slot evs with
          | nil => simp
          | cons first older =>
            have hfirst : first ∈ sealedNonces slot evs := by
              rw [hgroups]
              exact List.mem_cons_self ..
            have hle := ih hfirst
            rw [List.headD_cons, List.length_append, List.length_singleton]
            omega
        · exact hsame (List.mem_of_mem_tail h)
      · exact hsame h
    | _ => exact hsame h

/-- There is always a current group. -/
theorem sealedNonces_ne_nil (slot : KeySlot) (evs : List Event) : sealedNonces slot evs ≠ [] := by
  induction evs using List.reverseRecOn with
  | nil => simp [sealedNonces]
  | append_singleton evs ev ih =>
    rw [sealedNonces_concat]
    unfold countSeal
    split
    · split <;> simp_all
    · split <;> simp_all
    · exact ih

/-- The nonces under the handshake keys of a client that the script has connected. -/
theorem nonces_nodup_scripted :
    ∃ s : System plainCrypto Bytes, s.client.state = .connected ∧
      SealsEncrypted plainCrypto s.trace ∧
      ∃ nonces ∈ sealedNonces .clientHs s.trace, nonces.length < 2 ^ 64 ∧ nonces.Nodup := by
  obtain ⟨script, keys, th, fin, -, hscript⟩ :=
    scripted_reachable keyAgreementWorks_plainCrypto 0 [] (by decide)
  obtain ⟨s, -, hrun, hbare⟩ := hscript []
  obtain ⟨ch, shared, clientHs, record, th', clientFin, -, -, hmilestones⟩ := hbare.milestones
  obtain ⟨nonces, older, hgroups⟩ :=
    List.exists_cons_of_ne_nil (sealedNonces_ne_nil .clientHs s.trace)
  have hmem : nonces ∈ sealedNonces .clientHs s.trace := by
    rw [hgroups]
    exact List.mem_cons_self ..
  have hlen : nonces.length < 2 ^ 64 := by
    have hle := length_le_of_mem_sealedNonces hmem
    rw [hmilestones] at hle
    simp only [List.length_cons, List.length_nil] at hle
    omega
  obtain ⟨hencrypted, hnodup⟩ := nonces_nodup_of_run scriptEnv _ _ s hrun
  exact ⟨s, hbare.state, hencrypted, nonces, hmem, hlen, hnodup .clientHs nonces hmem hlen⟩

end XboxTls.Analysis
