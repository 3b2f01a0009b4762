import XboxTls.Analysis.NonceUse
import XboxTls.Analysis.SessionRun
import XboxTls.Interface.StreamIntegrity

/-!
# An adversary on the network

Whatever bytes arrive, a connected client with an empty deframer opens the records of its peer
in their order: a tuple of an ideal AEAD fits one place in the stream of the peer only.
-/

set_option autoImplicit false

namespace XboxTls.Analysis

open Programs Programs.Prog XboxTls.Model XboxTls.Interface

variable {P : Crypto} {W : Type}

/-! ## The place of a tuple -/

/-- The secret and the keys agree, whatever the sequence numbers are. -/
structure SameKeys (t t' : Traffic) : Prop where
  secret : t.secret = t'.secret
  key : t.keys.key = t'.keys.key
  iv : t.keys.iv = t'.keys.iv

/-- Keys are the same as themselves. -/
theorem SameKeys.refl (t : Traffic) : SameKeys t t := ⟨rfl, rfl, rfl⟩

/-- The same keys as the same keys. -/
theorem SameKeys.trans {t t' t'' : Traffic} (h : SameKeys t t') (h' : SameKeys t' t'') :
    SameKeys t t'' :=
  ⟨h.secret.trans h'.secret, h.key.trans h'.key, h.iv.trans h'.iv⟩

/-- The same keys stay the same under updates. -/
theorem sameKeys_iterate (n : ℕ) {t t' : Traffic} (h : SameKeys t t') :
    SameKeys ((Traffic.update P)^[n] t) ((Traffic.update P)^[n] t') := by
  induction n generalizing t t' with
  | zero => exact h
  | succ n ih =>
    rw [Function.iterate_succ_apply, Function.iterate_succ_apply]
    refine ih ?_
    have hsame := updateTrafficSecretSha256_eq P t'
    rw [← h.secret, updateTrafficSecretSha256_eq P t] at hsame
    obtain ⟨hsecret, hkeys⟩ := Prod.mk.inj (Except.ok.inj hsame)
    exact ⟨hsecret, by rw [hkeys], by rw [hkeys]⟩

/-- The keys behind records are those of their epoch. -/
theorem sameKeys_trafficAfter (t : Traffic) (records : List PeerRecord) :
    SameKeys (trafficAfter P t records) ((Traffic.update P)^[keyUpdatesOf records] t) := by
  induction records generalizing t with
  | nil => exact SameKeys.refl t
  | cons r records ih =>
    rw [trafficAfter, List.foldl_cons, keyUpdatesOf, Function.iterate_add_apply]
    refine (ih (r.next P t)).trans (sameKeys_iterate _ ?_)
    exact sameKeys_iterate _ ⟨rfl, rfl, rfl⟩

/-- Without a KeyUpdate the sequence number counts the records. -/
theorem sequenceNumber_trafficAfter (t : Traffic) {records : List PeerRecord}
    (h : keyUpdatesOf records = 0) :
    (trafficAfter P t records).keys.sequenceNumber =
      t.keys.sequenceNumber + UInt64.ofNat records.length := by
  induction records generalizing t with
  | nil => simp [trafficAfter]
  | cons r records ih =>
    obtain ⟨hrest, hfirst⟩ : keyUpdatesOf records = 0 ∧ r.content.keyUpdates = 0 := by
      rw [keyUpdatesOf] at h
      omega
    rw [trafficAfter, List.foldl_cons]
    refine (ih (r.next P t) hrest).trans ?_
    have hnext : (r.next P t).keys.sequenceNumber = t.keys.sequenceNumber + 1 := by
      unfold PeerRecord.next
      rw [hfirst]
      rfl
    rw [hnext, List.length_cons, Nat.add_comm, UInt64.ofNat_add, ← UInt64.add_assoc]
    rfl

variable {t₀ : Traffic} {records : List PeerRecord} {others : Set AeadTuple}

/-- The first records have no more KeyUpdates than all. -/
theorem keyUpdatesOf_le {a : List PeerRecord} (h : a <+: records) :
    keyUpdatesOf a ≤ keyUpdatesOf records := by
  obtain ⟨rest, rfl⟩ := h
  rw [keyUpdatesOf_append]
  exact Nat.le_add_right _ _

/-- Keys and nonces tell how many records there were. -/
theorem place_of_longer (hshort : SequenceFits records) (hkeys : DistinctKeys P t₀ records others)
    {a b : List PeerRecord} (hab : a <+: b) (hb : b <+: records)
    (hkey : (trafficAfter P t₀ a).keys.key = (trafficAfter P t₀ b).keys.key)
    (hnonce : (trafficAfter P t₀ a).keys.nonce = (trafficAfter P t₀ b).keys.nonce) : a = b := by
  obtain ⟨part, rfl⟩ := hab
  have hbound := keyUpdatesOf_le hb
  have hsame := sameKeys_trafficAfter (P := P) t₀ a
  have hsame' := sameKeys_trafficAfter (P := P) t₀ (a ++ part)
  rw [keyUpdatesOf_append] at hbound hsame'
  -- both places are in one epoch
  have hepoch : keyUpdatesOf part = 0 := by
    by_contra hne
    refine hkeys.epochs (keyUpdatesOf a) (keyUpdatesOf a + keyUpdatesOf part) (by omega) hbound ?_
    rw [← hsame.key, ← hsame'.key, hkey]
  rw [hepoch, Nat.add_zero] at hsame'
  have hiv : (trafficAfter P t₀ a).keys.iv = (trafficAfter P t₀ (a ++ part)).keys.iv :=
    hsame.iv.trans hsame'.iv.symm
  unfold TrafficKeys.nonce at hnonce
  rw [hiv] at hnonce
  have hseq := makeRecordNonce_injective _ hnonce
  rw [trafficAfter_append, sequenceNumber_trafficAfter _ hepoch] at hseq
  -- the number of records between them is no multiple of 2^64 but zero
  have hlength := hshort part (List.IsInfix.trans ⟨a, [], by simp⟩ hb.isInfix) hepoch
  have hzero : UInt64.ofNat part.length = 0 := UInt64.left_eq_add.mp hseq
  have hnat := congrArg UInt64.toNat hzero
  rw [UInt64.toNat_ofNat', Nat.mod_eq_of_lt hlength] at hnat
  rw [List.length_eq_zero_iff.mp hnat, List.append_nil]

/-- **A tuple has one place**: keys and nonces are those of one record only. -/
theorem place_unique (hshort : SequenceFits records) (hkeys : DistinctKeys P t₀ records others)
    {a b : List PeerRecord} (ha : a <+: records) (hb : b <+: records)
    (hkey : (trafficAfter P t₀ a).keys.key = (trafficAfter P t₀ b).keys.key)
    (hnonce : (trafficAfter P t₀ a).keys.nonce = (trafficAfter P t₀ b).keys.nonce) : a = b := by
  rcases List.prefix_or_prefix_of_prefix ha hb with hab | hba
  · exact place_of_longer hshort hkeys hab hb hkey hnonce
  · exact (place_of_longer hshort hkeys hba ha hkey.symm hnonce.symm).symm

/-- A tuple belongs to a record at its place in the stream. -/
theorem mem_sealTuples {t : Traffic} {o : AeadTuple} (h : o ∈ sealTuples P t records) :
    ∃ before r after, records = before ++ r :: after ∧
      o = sealTuple P (trafficAfter P t before) r := by
  induction records generalizing t with
  | nil => cases h
  | cons r records ih =>
    rcases List.mem_cons.mp h with rfl | hrest
    · exact ⟨[], r, records, rfl, rfl⟩
    · obtain ⟨before, r', after, rfl, rfl⟩ := ih hrest
      exact ⟨r :: before, r', after, rfl, rfl⟩

/-- What was decrypted is a plaintext of this tuple. -/
theorem decrypt_of_openTuple {keys : TrafficKeys} {record plaintext : Bytes} {capacity : ℕ}
    (h : decryptRecord P keys record capacity = .ok plaintext) :
    P.aes128GcmDecrypt (openTuple keys record).key (openTuple keys record).nonce
      (openTuple keys record).aad (openTuple keys record).ciphertext (openTuple keys record).tag =
        .ok plaintext := by
  unfold decryptRecord parseRecordHeader at h
  split at h
  · cases h
  split at h
  · cases h
  rw [except_ok_bind] at h
  dsimp only at h
  split at h
  · cases h
  split at h
  · cases h
  split at h
  · cases h
  exact h

/-- What was opened is what the peer sealed into this tuple. -/
theorem opened_of_tuple {keys : TrafficKeys} {record content : Bytes} {t : UInt8} {r : PeerRecord}
    {traffic : Traffic}
    (h : unprotectRecordAes128Gcm P keys record 16640 = .ok ⟨t, content, keys.advance⟩)
    (htuple : openTuple keys record = sealTuple P traffic r) :
    t = r.content.innerType ∧ content = r.content.bytes := by
  unfold unprotectRecordAes128Gcm at h
  cases hdecrypt : decryptRecord P keys record 16640 with
  | error e =>
    rw [hdecrypt] at h
    cases h
  | ok plaintext =>
    have hplain := decrypt_of_openTuple hdecrypt
    rw [htuple] at hplain
    have hsealed : plaintext = innerPlaintext r.content.innerType r.content.bytes r.padding := by
      refine Except.ok.inj (hplain.symm.trans ?_)
      exact P.decrypt_encrypt _ _ _ _
    obtain ⟨hlo, hhi⟩ := innerType_bounds r.content
    rw [hdecrypt, except_ok_bind, hsealed, splitInner_innerPlaintext _ hlo hhi, except_ok_bind] at h
    cases h
    exact ⟨rfl, rfl⟩

/-! ## The trace grows -/

section Grows

variable (E : Env W) (start : List Event)

/-- The trace goes on from `start`. -/
def Onward (s : System P W) : Prop := start <+: s.trace

variable {start}

/-- A steady change goes on with the trace. -/
theorem onward_steady {s s' : System P W} (h : Steady s s') (hs : Onward start s) :
    Onward start s' := by
  obtain ⟨evs, htrace, -⟩ := h.trace
  unfold Onward
  rw [htrace]
  exact hs.trans (List.prefix_append _ _)

/-- Wiping the secrets leaves the trace. -/
theorem onward_wiped {s s' : System P W} (h : Wiped s s') (hs : Onward start s) :
    Onward start s' := by
  unfold Onward
  rw [h.trace]
  exact hs

/-- Returning data goes on with the trace. -/
theorem onward_recvData (content : Bytes) (size : ℕ) :
    Keeps (Onward start) (recvData E content size : ClientM P W Bytes) := by
  intro s hs
  apply wp_recvData_of
  · intro _
    rw [List.append_assoc]
    exact hs.trans (List.prefix_append _ _)
  · intro _ level description w
    unfold Onward
    dsimp only
    rw [List.append_assoc]
    exact hs.trans (List.prefix_append _ _)

/-- An alert goes on with the trace. -/
theorem onward_recvAlert (content : Bytes) :
    Keeps (Onward start) (recvAlert E content : ClientM P W Bytes) := by
  unfold recvAlert
  apply maintains_bind (maintains_handleAlert (Steady.still_closed fun _ _ => onward_steady) _)
  intro ae
  split
  · intro s hs
    exact wp_of_run (recvClosed_apply E s) hs
  · exact maintains_failWith E (fun _ _ => onward_wiped) _

/-- The messages of a record go on with the trace. -/
theorem onward_processPostHandshake (content : Bytes) :
    Keeps (Onward start) (orFail E (processPostHandshake E content) : ClientM P W Unit) :=
  maintains_orFail E (fun _ _ => onward_wiped)
    (steady_processPostHandshake E (fun _ _ => onward_steady) (fun _ h => h) content)

/-- The loop of `recv` goes on with the trace. -/
theorem onward_recvRecords (size fuel : ℕ) :
    Keeps (Onward start) (recvRecords E size fuel : ClientM P W Bytes) :=
  steady_recvRecords E (fun _ _ => onward_steady) (fun _ _ => onward_wiped) size
    (fun s record content hs _ => onward_recvData E content size _
      (onward_steady (firm_afterOpen s .serverApp record).steady hs))
    (onward_recvAlert E) fuel

/-- What is behind an opened record. -/
theorem onward_opened (size fuel : ℕ) (t : UInt8) (content : Bytes) :
    Keeps (Onward start) (if t = contentApplicationData then recvData E content size
      else if t = contentAlert then recvAlert E content
      else if t = contentHandshake then do
        orFail E (processPostHandshake E content)
        recvRecords E size fuel
      else failWith E .badRecord : ClientM P W Bytes) := by
  split
  · exact onward_recvData E content size
  split
  · exact onward_recvAlert E content
  split
  · exact maintains_bind (onward_processPostHandshake E content)
      fun _ => onward_recvRecords E size fuel
  · exact maintains_failWith E (fun _ _ => onward_wiped) _

end Grows

/-! ## Reading -/

/-- A connected client between records, whose direction from the peer is `t`. -/
structure Reading (t : Traffic) (s : System P W) : Prop where
  state : s.client.state = .connected
  empty : s.client.deframer.buffer = []
  stored : Stored s.client
  within : PendingWithin s.client
  read : readTraffic s.client = t

/-- The client has handed out `got`, and what it handed out and keeps are the first bytes and
those of some records that the peer sealed first. -/
def Upto (P : Crypto) (t₀ : Traffic) (records : List PeerRecord) (first got : Bytes)
    (s : System P W) : Prop :=
  ∃ consumed, consumed <+: records ∧ Reading (trafficAfter P t₀ consumed) s ∧
    got ++ pendingBytes s.client = first ++ appBytes consumed

/-- How a call of `recv` ends if the AEAD is ideal. -/
def Given (P : Crypto) (t₀ : Traffic) (records : List PeerRecord) (others : Set AeadTuple)
    (first got : Bytes) (r : Except Error Bytes) (s' : System P W) : Prop :=
  IdealFor P t₀ records others s'.trace →
    match r with
    | .ok chunk => Upto P t₀ records first (got ++ chunk) s'
    | .error _ => s'.client.state ≠ .connected

/-- What was ideal for a longer trace was so before. -/
theorem idealFor_of_onward {start evs : List Event} (h : start <+: evs)
    (hideal : IdealFor P t₀ records others evs) : IdealFor P t₀ records others start := by
  obtain ⟨more, rfl⟩ := h
  intro entry hentry
  refine hideal entry ?_
  rw [openedRecords_append]
  exact List.mem_append_left _ hentry

/-- A still change leaves what the client reads under. -/
theorem reading_still {t : Traffic} {s s' : System P W} (h : Still s s') (hs : Reading t s) :
    Reading t s' := by
  have hkeys : s'.client.serverAppKeys = s.client.serverAppKeys := congrFun h.keys .serverApp
  refine ⟨h.state.trans hs.state, ?_, ?_, ?_, ?_⟩
  · rw [h.deframer, hs.empty]
  · exact stored_same (by rw [h.deframer]) h.pendingApp h.pendingAppOffset h.pendingAppLength
      hs.stored
  · exact pendingWithin_same h.pendingAppOffset h.pendingAppLength hs.within
  · rw [← hs.read]
    unfold readTraffic
    rw [h.schedule, hkeys]

/-- **What an ideal AEAD opens is the next record of the peer.** -/
theorem next_of_ideal (hshort : SequenceFits records) (hkeys : DistinctKeys P t₀ records others)
    {consumed : List PeerRecord} (hconsumed : consumed <+: records) {keys : TrafficKeys}
    (hcurrent : (trafficAfter P t₀ consumed).keys = keys) {record : Bytes}
    (hideal : openTuple keys record ∈ sealTuples P t₀ records ∨ openTuple keys record ∈ others) :
    ∃ r, consumed ++ [r] <+: records ∧
      openTuple keys record = sealTuple P (trafficAfter P t₀ consumed) r := by
  subst hcurrent
  rcases hideal with hpeer | hother
  · obtain ⟨before, r, after, hrecords, htuple⟩ := mem_sealTuples hpeer
    have hbefore : before <+: records := ⟨r :: after, hrecords.symm⟩
    have hsame : consumed = before := place_unique hshort hkeys hconsumed hbefore
      (congrArg AeadTuple.key htuple) (congrArg AeadTuple.nonce htuple)
    subst hsame
    exact ⟨r, ⟨after, by rw [hrecords]; simp⟩, htuple⟩
  · refine absurd ?_ (hkeys.others _ hother (keyUpdatesOf consumed) (keyUpdatesOf_le hconsumed))
    exact (sameKeys_trafficAfter (P := P) t₀ consumed).key

/-! ## Writing -/

section Writing

variable (E : Env W)

/-- Whatever the stream does, a record that was written was sealed first. -/
theorem sends_writeStream (stream : ℕ) (record : Bytes) (s : System P W) (w : W) :
    wp (writeStream E stream record)
      (fun r s' => r = .ok () → ∃ w', s' = afterSend s record w')
      (afterSeal s .clientApp w record) := by
  unfold writeStream
  rw [wp_bind, wp_callWorld]
  intro r w' _
  cases r with
  | error e => exact fun h => by cases h
  | ok u =>
    rw [thenWp_ok, wp_emit]
    refine fun _ => ⟨w', ?_⟩
    simp only [afterSeal, afterSend, List.append_assoc]
    rfl

/-- A protected record that was sent is a step of writing. -/
theorem sends_sendProtected (t : UInt8) (payload : Bytes) {s : System P W}
    (hstate : s.client.state = .connected) :
    wp (sendProtected E t payload)
      (fun r s' => r = .ok () → ∃ record w, s' = afterSend s record w) s := by
  unfold sendProtected
  rw [wp_bind, wp_getClient, thenWp_ok]
  dsimp only
  rw [if_pos hstate, wp_bind]
  apply wp_protectRecord
  · exact fun e w h => by cases h
  · intro w _
    rw [thenWp_ok, wp_bind]
    cases s.client.config.stream with
    | none => exact wp_diverge _ _
    | some stream =>
      refine wp_of_run rfl ?_
      rw [thenWp_ok]
      refine wp_mono (sends_writeStream E stream _ s w) fun r s' hr hok => ?_
      obtain ⟨w', hw'⟩ := hr hok
      exact ⟨_, w', hw'⟩

/-- A chunk that was sent is a step of writing. -/
theorem sends_sendChunk (padding : ℕ) (content : Bytes) (s : System P W) :
    wp (sendChunk E padding content)
      (fun r s' => r = .ok () → ∃ record w, s' = afterSend s record w) s := by
  unfold sendChunk
  rw [wp_bind]
  apply wp_protectRecord
  · exact fun e w h => by cases h
  · intro w _
    rw [thenWp_ok, wp_bind, wp_getClient, thenWp_ok, wp_bind]
    cases hstream : s.client.config.stream with
    | none =>
      intro r s' hrun
      rw [show (afterSeal s .clientApp w _).client.config.stream = none from hstream] at hrun
      cases hrun
    | some stream =>
      rw [show (afterSeal s .clientApp w _).client.config.stream = some stream from hstream]
      refine wp_of_run rfl ?_
      rw [thenWp_ok]
      refine wp_mono (sends_writeStream E stream _ s w) fun r s' hr hok => ?_
      obtain ⟨w', hw'⟩ := hr hok
      exact ⟨_, w', hw'⟩

/-- An answer that is given is only written. -/
theorem answered_answer {s : System P W} (hstate : s.client.state = .connected) :
    wp (answer E) (Answered (fun _ => True) (fun _ _ => True) s) s := by
  unfold answer
  rw [wp_bind]
  refine wp_mono (sends_sendProtected E _ _ hstate) ?_
  intro r s' hr
  cases r with
  | error e => trivial
  | ok u =>
    obtain ⟨record, w, rfl⟩ := hr rfl
    rw [thenWp_ok]
    exact wp_of_run (updateClientKeys_run _) ⟨writeStep_answered s record w, trivial⟩

end Writing

/-! ## Records from the network -/

section Records

variable (E : Env W) {first got : Bytes}

/-- One more record adds its bytes. -/
theorem appBytes_concat (consumed : List PeerRecord) (r : PeerRecord) :
    appBytes (consumed ++ [r]) = appBytes consumed ++ r.content.appBytes := by
  unfold appBytes
  rw [List.flatMap_append, List.flatMap_singleton]

/-- A failed client is not connected. -/
theorem afterEnd_ne (s : System P W) : (afterEnd E .failed s).client.state ≠ .connected := by
  intro h
  cases h

/-- A call that fails ends the connection. -/
theorem given_failWith (e : Error) (s : System P W) :
    wp (failWith E e) (Given P t₀ records others first got) s := by
  rw [wp_failWith_iff]
  exact fun _ => afterEnd_ne E s

/-- A part whose errors end the call, and what follows it. -/
theorem given_orFail {α : Type} {x : ClientM P W α} {f : α → ClientM P W Bytes} {s : System P W}
    {I : System P W → Prop} (hx : Maintains I (fun _ => True) x) (hs : I s)
    (hf : ∀ a s', I s' → wp (f a) (Given P t₀ records others first got) s') :
    wp (orFail E x >>= f) (Given P t₀ records others first got) s := by
  rw [wp_bind]
  apply wp_orFail
  refine wp_mono (hx s hs) ?_
  intro r s' hr
  cases r with
  | error e => exact fun _ => afterEnd_ne E s'
  | ok a => exact hf a s' hr

/-- Application data of the next record is handed out. -/
theorem given_recvData {consumed : List PeerRecord} {bytes record : Bytes} {padding : ℕ}
    {s : System P W} (hnext : consumed ++ [⟨.data bytes, padding⟩] <+: records)
    (hbytes : bytes.length ≤ 16384) (hs : Reading (trafficAfter P t₀ consumed) s)
    (hnone : s.client.pendingAppLength = 0)
    (hgot : got = first ++ appBytes consumed) (size : ℕ) :
    wp (recvData E bytes size) (Given P t₀ records others first got)
      (afterOpen s .serverApp record) := by
  obtain ⟨pendingApp, pendingAppOffset, pendingAppLength, hrun, hstored, hwithin, hkept⟩ :=
    recvData_run E bytes size (afterOpen s .serverApp record)
      (hbytes.trans (Nat.le_add_right _ _))
  refine wp_of_run hrun fun _ => ⟨_, hnext, ⟨hs.state, hs.empty, ?_, hwithin hs.within, ?_⟩, ?_⟩
  · exact ⟨hs.stored.capacity, hstored ⟨hs.stored.capacity, hs.stored.pending⟩⟩
  · rw [trafficAfter_concat, ← hs.read]
    rfl
  · rw [appBytes_concat, hgot, List.append_assoc, List.append_assoc]
    show first ++ (_ ++ (_ ++ slice pendingApp pendingAppOffset pendingAppLength)) = _
    rw [hkept hnone, List.take_append_drop]
    rfl

/-- The messages of the next record are processed. -/
theorem reading_messages {consumed : List PeerRecord} {messages : List PostMessage}
    {record : Bytes} {padding : ℕ} {s s' : System P W}
    (hs : Reading (trafficAfter P t₀ consumed) s)
    (htook : Took messages (afterOpen s .serverApp record) s')
    (hempty : s'.client.deframer.buffer = []) :
    Reading (trafficAfter P t₀ (consumed ++ [⟨.handshake messages, padding⟩])) s' := by
  refine ⟨htook.state.trans hs.state, hempty, ?_, ?_, ?_⟩
  · exact stored_same htook.capacity htook.pendingApp htook.pendingAppOffset
      htook.pendingAppLength ⟨hs.stored.capacity, hs.stored.pending⟩
  · exact pendingWithin_same htook.pendingAppOffset htook.pendingAppLength hs.within
  · rw [htook.read, trafficAfter_concat, ← hs.read]
    rfl

variable (hshort : SequenceFits records) (hkeys : DistinctKeys P t₀ records others)
variable (hfits : ∀ r ∈ records, r.Fits)

include hshort hkeys hfits in
/-- **The loop of `recv`, whatever arrives.** -/
theorem given_recvRecords (size fuel : ℕ) {consumed : List PeerRecord} {s : System P W}
    (hconsumed : consumed <+: records) (hs : Reading (trafficAfter P t₀ consumed) s)
    (hnone : s.client.pendingAppLength = 0) (hgot : got = first ++ appBytes consumed) :
    wp (recvRecords E size fuel) (Given P t₀ records others first got) s := by
  induction fuel generalizing consumed s with
  | zero => exact wp_diverge _ _
  | succ fuel ih =>
    let I : System P W → Prop := fun s =>
      Reading (trafficAfter P t₀ consumed) s ∧ s.client.pendingAppLength = 0
    have hstill : ∀ s s' : System P W, Still s s' → I s → I s' :=
      fun s s' h hI => ⟨reading_still h hI.1, h.pendingAppLength.trans hI.2⟩
    unfold recvRecords
    refine given_orFail E (maintains_readRecord E hstill (fun _ _ => trivial) _) ⟨hs, hnone⟩ ?_
    rintro record s ⟨hs, hnone⟩
    refine given_orFail E (I := I) (maintains_lift (fun _ _ => trivial) _) ⟨hs, hnone⟩ ?_
    rintro rh s ⟨hs, hnone⟩
    split
    · rw [wp_bind, wp_emit, thenWp_ok]
      exact ih hconsumed ⟨hs.state, hs.empty, hs.stored, hs.within, hs.read⟩ hnone hgot
    split
    · exact given_failWith E _ s
    rw [wp_bind]
    apply wp_orFail
    apply wp_unprotectRecord
    · exact fun e _ => afterEnd_ne E s
    · exact fun e plaintext _ _ => afterEnd_ne E _
    intro t content hopen
    rw [failing, thenWp_ok]
    dsimp only
    by_cases hideal : openTuple s.client.serverAppKeys record ∈ sealTuples P t₀ records ∨
        openTuple s.client.serverAppKeys record ∈ others
    · obtain ⟨r, hnext, htuple⟩ := next_of_ideal hshort hkeys hconsumed
        (congrArg Traffic.keys hs.read.symm) hideal
      obtain ⟨rfl, rfl⟩ := opened_of_tuple hopen htuple
      have hfit := hfits r (hnext.subset (List.mem_append_right _ (List.mem_singleton_self r)))
      obtain ⟨c, padding⟩ := r
      dsimp only
      cases c with
      | data bytes =>
        rw [if_pos (show (Content.data bytes).innerType = contentApplicationData from rfl)]
        exact given_recvData E hnext hfit.content hs hnone hgot size
      | handshake messages =>
        rw [show (Content.handshake messages).innerType = contentHandshake from rfl,
          if_neg (by decide), if_neg (by decide), if_pos rfl, wp_bind]
        apply wp_orFail
        refine wp_mono (drained_processPostHandshake E (fun _ _ _ _ _ => trivial)
          (fun s hstate _ => answered_answer E hstate) messages trivial hs.state hs.empty
          hs.stored.capacity hfit.content) ?_
        intro r s' hr
        cases r with
        | error e => exact fun _ => afterEnd_ne E s'
        | ok u =>
          obtain ⟨-, htook, hempty, -⟩ := hr
          refine ih hnext (reading_messages hs htook hempty) ?_ ?_
          · exact htook.pendingAppLength.trans hnone
          · rw [hgot, appBytes_concat]
            exact congrArg (first ++ ·) (List.append_nil _).symm
    · -- what was opened is nobody's, and stays in the trace
      have hstart : Onward (afterOpen s .serverApp record).trace (afterOpen s .serverApp record) :=
        List.prefix_rfl
      have hmem : (s.client.serverAppKeys, record) ∈
          openedRecords .serverApp (afterOpen s .serverApp record).trace := by
        show _ ∈ openedRecords .serverApp (s.trace ++ [_])
        rw [openedRecords_append]
        exact List.mem_append_right _ (List.mem_singleton_self _)
      refine wp_mono (onward_opened E size fuel t content _ hstart) ?_
      intro r s' honward hall
      have honward : Onward (afterOpen s .serverApp record).trace s' := by
        cases r <;> exact honward
      exact absurd (idealFor_of_onward honward hall _ hmem) hideal

end Records

/-! ## Calls -/

section Calls

variable (E : Env W) {first got : Bytes}

/-- Nothing was written. -/
theorem writeStep_refl (s : System P W) : WriteStep s s :=
  ⟨Untouched.refl s, rfl, rfl, [], (List.append_nil _).symm, by simp⟩

/-- One step of writing after the other. -/
theorem WriteStep.trans {s s' s'' : System P W} (h : WriteStep s s') (h' : WriteStep s' s'') :
    WriteStep s s'' := by
  obtain ⟨evs, htrace, hevs⟩ := h.trace
  obtain ⟨evs', htrace', hevs'⟩ := h'.trace
  refine ⟨h.toUntouched.trans h'.toUntouched, h'.deframer.trans h.deframer, h'.read.trans h.read,
    evs ++ evs', by rw [htrace', htrace, List.append_assoc], ?_⟩
  intro ev hev
  rcases List.mem_append.mp hev with hold | hnew
  · exact hevs ev hold
  · exact hevs' ev hnew

/-- A client that is still connected has only written. -/
def Aside (s s' : System P W) : Prop := s'.client.state = .connected → WriteStep s s'

/-- The loop of `send` leaves what is read. -/
theorem aside_sendLoop (padding maxContent fuel : ℕ) (data : Bytes) (s : System P W) :
    wp (sendLoop E padding maxContent fuel data) (fun _ s' => Aside s s') s := by
  induction fuel generalizing data s with
  | zero => exact wp_of_run rfl fun _ => writeStep_refl s
  | succ fuel ih =>
    unfold sendLoop
    split
    · exact wp_of_run rfl fun _ => writeStep_refl s
    dsimp only
    rw [wp_bind]
    apply wp_orFail
    refine wp_mono (sends_sendChunk E padding _ s) ?_
    intro r s' hr
    cases r with
    | error e => exact fun h => absurd h (afterEnd_ne E s')
    | ok u =>
      obtain ⟨record, w, rfl⟩ := hr rfl
      refine wp_mono (ih _ _) fun r s' hs' hstate => ?_
      exact (writeStep_sent s record w).trans (hs' hstate)

/-- `send` leaves what is read. -/
theorem aside_send (null : Bool) (data : Bytes) (s : System P W) :
    wp (send E null data) (fun _ s' => Aside s s') s := by
  unfold send
  rw [wp_bind, wp_getClient, thenWp_ok]
  split
  · exact wp_of_run rfl fun _ => writeStep_refl s
  split
  · exact wp_of_run rfl fun _ => writeStep_refl s
  exact aside_sendLoop E _ _ _ _ s

/-- `key_update` leaves what is read. -/
theorem aside_keyUpdate (requestPeerUpdate : Bool) (s : System P W) :
    wp (keyUpdate E requestPeerUpdate) (fun _ s' => Aside s s') s := by
  unfold keyUpdate
  rw [wp_bind, wp_getClient, thenWp_ok]
  split
  · exact wp_of_run rfl fun _ => writeStep_refl s
  next hstate =>
  rw [wp_bind]
  apply wp_orFail
  refine wp_mono (sends_sendProtected E _ _ (not_not.mp hstate)) ?_
  intro r s' hr
  cases r with
  | error e => exact fun h => absurd h (afterEnd_ne E s')
  | ok u =>
    obtain ⟨record, w, rfl⟩ := hr rfl
    rw [failing, thenWp_ok]
    refine wp_of_run (orFail_of_ok E (updateClientKeys_run _)) fun _ => ?_
    exact writeStep_answered s record w

/-- `reset` ends the connection. -/
theorem aside_reset (s : System P W) : wp (reset E) (fun _ s' => Aside s s') s := by
  unfold reset
  rw [wp_bind, wp_getClient, thenWp_ok]
  split
  · exact wp_of_run rfl fun _ => writeStep_refl s
  rw [wp_bind]
  refine wp_of_run (closeStream_apply E s) ?_
  rw [thenWp_ok, wp_modifyClient]
  exact fun h => by cases h

/-- `close` ends the connection. -/
theorem aside_close (s : System P W) : wp (close E) (fun _ s' => Aside s s') s := by
  unfold close
  rw [wp_bind, wp_getClient, thenWp_ok]
  split
  · exact wp_of_run rfl fun _ => writeStep_refl s
  -- whatever became of the alert, the client is closed
  have hlast : ∀ s₁ : System P W, wp (do
      closeStream E
      modifyClient fun c => { c.wipeSecrets with state := .closed } : ClientM P W Unit)
      (fun _ s' => Aside s s') s₁ := by
    intro s₁
    rw [wp_bind]
    refine wp_of_run (closeStream_apply E s₁) ?_
    rw [thenWp_ok, wp_modifyClient]
    exact fun h => by cases h
  rw [wp_bind]
  unfold sendCloseNotify
  split
  · rw [wp_attempt]
    exact fun r s₁ _ => hlast s₁
  · exact wp_of_run rfl (hlast s)

/-- A call of `recv` on a connected client. -/
theorem given_recv (hshort : SequenceFits records) (hkeys : DistinctKeys P t₀ records others)
    (hfits : ∀ r ∈ records, r.Fits) (fuel : ℕ) (receivedNull outNull : Bool) (size : ℕ)
    {s : System P W} (hs : Upto P t₀ records first got s) :
    wp (recv E fuel receivedNull outNull size) (fun r s' =>
      Given P t₀ records others first got r s' ∨ (s' = s ∧ ∃ e, r = .error e)) s := by
  obtain ⟨consumed, hconsumed, hreading, hgot⟩ := hs
  unfold recv
  rw [wp_bind, wp_getClient, thenWp_ok]
  split
  · exact wp_of_run rfl (Or.inr ⟨rfl, _, rfl⟩)
  split
  · exact wp_of_run rfl (Or.inr ⟨rfl, _, rfl⟩)
  split
  · obtain ⟨pendingAppOffset, pendingAppLength, hrun, hstored, hwithin, hkept⟩ :=
      recvPending_run E size s hreading.within
    refine wp_of_run hrun (Or.inl fun _ => ⟨consumed, hconsumed, ?_, ?_⟩)
    · exact ⟨hreading.state, hreading.empty,
        ⟨hreading.stored.capacity, hstored hreading.stored⟩, hwithin, hreading.read⟩
    · rw [← hgot, List.append_assoc]
      show got ++ (_ ++ slice s.client.pendingApp pendingAppOffset pendingAppLength) = _
      rw [hkept, List.take_append_drop]
  · next hpending =>
    have hnone : s.client.pendingAppLength = 0 := not_not.mp hpending
    have hnil : pendingBytes s.client = [] := by
      unfold pendingBytes slice
      rw [hnone, List.take_zero]
    rw [hnil, List.append_nil] at hgot
    exact wp_mono (given_recvRecords E hshort hkeys hfits size fuel hconsumed hreading hnone hgot)
      fun _ _ h => Or.inl h

/-- A step of writing leaves what was received. -/
theorem upto_of_writeStep {s s' : System P W} (h : WriteStep s s')
    (hs : Upto P t₀ records first got s) : Upto P t₀ records first got s' := by
  obtain ⟨consumed, hconsumed, hreading, hgot⟩ := hs
  refine ⟨consumed, hconsumed,
    ⟨h.state.trans hreading.state, ?_, ?_, ?_, h.read.trans hreading.read⟩, ?_⟩
  · rw [h.deframer, hreading.empty]
  · exact stored_same (by rw [h.deframer]) h.pendingApp h.pendingAppOffset h.pendingAppLength
      hreading.stored
  · exact pendingWithin_same h.pendingAppOffset h.pendingAppLength hreading.within
  · rw [← hgot]
    unfold pendingBytes
    rw [h.pendingApp, h.pendingAppOffset, h.pendingAppLength]

/-- The trace only grows. -/
theorem onward_of_returns {call : Call} {s s' : System P W} {r : Except Error Bytes}
    (hcall : ¬ IsConnect call) (hret : Returns E call s r s') : Onward s.trace s' := by
  obtain ⟨fuel, hrun⟩ := hret
  have hfirm : ∀ s₁ s₂ : System P W, Firm s₁ s₂ → Onward s.trace s₁ → Onward s.trace s₂ :=
    fun _ _ h => onward_steady h.steady
  refine Keeps.run (keeps_call E hfirm ?_ (fun _ _ => onward_wiped) fuel call ?_ ?_ ?_)
    (List.prefix_rfl : Onward s.trace s) hrun
  · intro s₁ s₂ h hs₁
    unfold Onward
    rw [h.trace]
    exact hs₁
  · rintro config rfl
    exact absurd trivial hcall
  · intro null data _
    exact firm_send E hfirm (fun _ h => h) (fun _ _ => onward_wiped) null data
      fun _ _ _ h => h.trans (List.prefix_append _ _)
  · intro receivedNull outNull size _
    unfold recv
    apply maintains_bind maintains_getClient
    intro c
    split
    · exact maintains_throw (fun _ h => h) _
    split
    · exact maintains_throw (fun _ h => h) _
    split
    · intro s₁ hs₁
      apply wp_recvPending_of
      exact fun _ _ => hs₁.trans (List.prefix_append _ _)
    · exact onward_recvRecords E size fuel

/-- The calls that do not receive only write, and hand out nothing. -/
theorem aside_of_returns {call : Call} {s s' : System P W} {r : Except Error Bytes}
    (hcall : ¬ IsConnect call)
    (hrecv : ∀ receivedNull outNull size, call ≠ .recv receivedNull outNull size)
    (hret : Returns E call s r s') : Aside s s' ∧ ∀ bytes, r = .ok bytes → bytes = [] := by
  obtain ⟨fuel, hrun⟩ := hret
  cases call with
  | connect config => exact absurd trivial hcall
  | send null data => exact wp_elim (wp_noBytes (aside_send E null data s)) hrun
  | recv receivedNull outNull size => exact absurd rfl (hrecv receivedNull outNull size)
  | keyUpdate requestPeerUpdate =>
    exact wp_elim (wp_noBytes (aside_keyUpdate E requestPeerUpdate s)) hrun
  | reset => exact wp_elim (wp_noBytes (aside_reset E s)) hrun
  | close => exact wp_elim (wp_noBytes (aside_close E s)) hrun

/-- A client that is not connected refuses to receive. -/
theorem recv_unconnected (fuel : ℕ) (receivedNull outNull : Bool) (size : ℕ) {s : System P W}
    (hstate : s.client.state ≠ .connected) :
    wp (recv E fuel receivedNull outNull size) (fun r s' => s' = s ∧ ∃ e, r = .error e) s := by
  unfold recv
  rw [wp_bind, wp_getClient, thenWp_ok]
  split
  · exact wp_of_run rfl ⟨rfl, _, rfl⟩
  · exact wp_of_run rfl ⟨rfl, _, rfl⟩

end Calls

/-! ## Runs -/

section Runs

variable (E : Env W) {first : Bytes}

/-- What was handed out so far comes first, and the client can go on. -/
structure Intact (P : Crypto) (t₀ : Traffic) (records : List PeerRecord) (first : Bytes)
    (log : List (Call × Except Error Bytes)) (s : System P W) : Prop where
  received : receivedBytes log <+: first ++ appBytes records
  upto : s.client.state = .connected → Upto P t₀ records first (receivedBytes log) s

/-- What was received is a prefix of what was sent. -/
theorem intact_of_upto {log : List (Call × Except Error Bytes)} {s : System P W}
    (h : Upto P t₀ records first (receivedBytes log) s) : Intact P t₀ records first log s := by
  refine ⟨?_, fun _ => h⟩
  obtain ⟨consumed, ⟨rest, rfl⟩, -, hgot⟩ := h
  refine ⟨pendingBytes s.client ++ appBytes rest, ?_⟩
  unfold appBytes at hgot ⊢
  rw [List.flatMap_append, ← List.append_assoc, ← List.append_assoc, hgot]

/-- A call that hands out nothing. -/
theorem receivedBytes_none {log : List (Call × Except Error Bytes)} {call : Call}
    {r : Except Error Bytes} (h : ∀ bytes, r = .ok bytes → bytes = []) :
    receivedBytes (log ++ [(call, r)]) = receivedBytes log := by
  rw [receivedBytes_append]
  cases r with
  | error e => exact List.append_nil _
  | ok bytes =>
    rw [h bytes rfl]
    exact List.append_nil _

/-- One more call adds what it returned. -/
theorem receivedBytes_chunk (log : List (Call × Except Error Bytes)) (call : Call)
    (chunk : Bytes) :
    receivedBytes (log ++ [(call, .ok chunk)]) = receivedBytes log ++ chunk := by
  rw [receivedBytes_append]
  exact congrArg (receivedBytes log ++ ·) (List.append_nil chunk)

/-- **One call, whatever arrives.** -/
theorem intact_step (hshort : SequenceFits records) (hkeys : DistinctKeys P t₀ records others)
    (hfits : ∀ r ∈ records, r.Fits) {log : List (Call × Except Error Bytes)} {call : Call}
    {s s' : System P W} {r : Except Error Bytes} (hcall : ¬ IsConnect call)
    (hret : Returns E call s r s') (hideal : IdealFor P t₀ records others s'.trace)
    (hs : Intact P t₀ records first log s) :
    Intact P t₀ records first (log ++ [(call, r)]) s' := by
  by_cases hrecv : ∃ receivedNull outNull size, call = .recv receivedNull outNull size
  · obtain ⟨receivedNull, outNull, size, rfl⟩ := hrecv
    obtain ⟨fuel, hrun⟩ := hret
    have hnone : ∀ e, receivedBytes (log ++ [(.recv receivedNull outNull size, .error e)]) =
        receivedBytes log := fun e => receivedBytes_none fun _ h => by cases h
    have hsame : ∀ e, r = .error e → s' = s →
        Intact P t₀ records first (log ++ [(.recv receivedNull outNull size, r)]) s' := by
      rintro e rfl rfl
      exact ⟨hnone e ▸ hs.received, hnone e ▸ hs.upto⟩
    by_cases hstate : s.client.state = .connected
    · rcases wp_elim (given_recv E hshort hkeys hfits fuel receivedNull outNull size
        (hs.upto hstate)) hrun with hgiven | ⟨hsys, e, he⟩
      · have hend := hgiven hideal
        cases r with
        | error e =>
          exact ⟨hnone e ▸ hs.received, fun hconn => absurd hconn hend⟩
        | ok chunk =>
          refine intact_of_upto ?_
          rw [receivedBytes_chunk]
          exact hend
      · exact hsame e he hsys
    · obtain ⟨hsys, e, he⟩ := wp_elim (recv_unconnected E fuel receivedNull outNull size hstate)
        hrun
      exact hsame e he hsys
  · obtain ⟨haside, hnone⟩ := aside_of_returns E hcall
      (fun a b c h => hrecv ⟨a, b, c, h⟩) hret
    have hlog : receivedBytes (log ++ [(call, _)]) = receivedBytes log := receivedBytes_none hnone
    refine ⟨hlog ▸ hs.received, fun hconn => ?_⟩
    have hstep := haside hconn
    rw [hlog]
    exact upto_of_writeStep hstep (hs.upto (hstep.state.symm.trans hconn))

/-- **The stream arrives intact**, when the deframer of the connected client is empty as it starts,
what an earlier `recv` kept lies within the pending buffer and the sequence number of the peer does
not come round: against every adversary on the network,
in every run of calls, what `recv` returned is a prefix of the pending bytes and the application
bytes that the peer sealed. -/
theorem streamIntact_of_run {c : TlsClient P} (hreach : ReachableClient c)
    (hconn : c.state = .connected) (hempty : c.deframer.buffer = []) (hwithin : PendingWithin c)
    (hfits : ∀ r ∈ records, r.Fits) (hshort : SequenceFits records)
    (hkeys : DistinctKeys P (readTraffic c) records others) {w : W} {s : System P W}
    {log : List (Call × Except Error Bytes)} (hrun : Run E ⟨c, w, []⟩ log s)
    (hcalls : ∀ entry ∈ log, ¬ IsConnect entry.1)
    (hideal : IdealFor P (readTraffic c) records others s.trace) :
    receivedBytes log <+: pendingBytes c ++ appBytes records := by
  have hstart : Intact P (readTraffic c) records (pendingBytes c) [] (⟨c, w, []⟩ : System P W) :=
    intact_of_upto ⟨[], List.nil_prefix,
      ⟨hconn, hempty, stored_of_reachable hreach, hwithin, rfl⟩, (List.append_nil _).symm⟩
  suffices hend : Intact P (readTraffic c) records (pendingBytes c) log s from hend.received
  induction hrun with
  | nil => exact hstart
  | snoc _ hret ih =>
    have hcall := hcalls _ (List.mem_append_right _ (List.mem_singleton_self _))
    refine intact_step E hshort hkeys hfits hcall hret hideal ?_
    exact ih (fun entry hentry => hcalls entry (List.mem_append_left _ hentry))
      (idealFor_of_onward (onward_of_returns E hcall hret) hideal)

end Runs

/-! ## Two adversaries -/

/-- The server's Finished in the handshake of `scriptConfig`, with the checksum for a hash. -/
def plainFinished : Bytes :=
  [20, 0, 0, 32, 26, 221, 217, 228, 224, 48, 77, 176] ++ List.replicate 24 0

/-- A ticket, a byte, a KeyUpdate, and another byte. -/
def plainRecords : List PeerRecord :=
  [⟨.handshake [.newSessionTicket [0]], 0⟩, ⟨.data [1], 0⟩, ⟨.handshake [.keyUpdate false], 0⟩,
    ⟨.data [2], 0⟩]

/-- The records of the test fit. -/
theorem fits_plainRecords : ∀ r ∈ plainRecords, r.Fits := by
  intro r hr
  simp only [plainRecords, List.mem_cons, List.not_mem_nil, or_false] at hr
  rcases hr with rfl | rfl | rfl | rfl <;> exact ⟨by decide, by decide⟩

/-- The records of the test are few. -/
theorem sequenceFits_plainRecords : SequenceFits plainRecords := by
  intro part hpart _
  have hlength := hpart.length_le
  exact Nat.lt_of_le_of_lt hlength (by decide)

/-- What the client itself seals. -/
def ownTuples (c : TlsClient plainCrypto) : Set AeadTuple :=
  { o | o.key = (writeTraffic c).keys.key }

/-- A change_cipher_spec, the records of the peer, and an alert that is not protected. -/
def injected (t : Traffic) : Bytes :=
  plainRecord 20 [1] ++ wire plainCrypto t plainRecords ++ plainRecord 21 [1, 0]

/-- The first record of the peer, and the one behind its KeyUpdate. -/
def skipped (t : Traffic) : Bytes :=
  PeerRecord.seal plainCrypto t ⟨.handshake [.newSessionTicket [0]], 0⟩ ++
    PeerRecord.seal plainCrypto (t.update plainCrypto) ⟨.data [2], 0⟩

/-- The keys of the first two epochs of the peer and those of the client. -/
def threeKeys (c : TlsClient plainCrypto) : List (FixedBytes 16) :=
  [(readTraffic c).keys.key, ((readTraffic c).update plainCrypto).keys.key,
    (writeTraffic c).keys.key]

/-- A client that is connected with these messages in its deframer, nothing pending and distinct
keys. -/
def StartsWith (messages : Bytes) (c : TlsClient plainCrypto) : Prop :=
  c.state = .connected ∧ c.deframer.buffer = messages ∧
    (pendingBytes c = [] ∧ PendingWithin c) ∧ (threeKeys c).Nodup

/-- The peer sealed all that was opened. -/
def AllSealed (t : Traffic) (evs : List Event) : Prop :=
  ∀ entry ∈ openedRecords .serverApp evs,
    openTuple entry.1 entry.2 ∈ sealTuples plainCrypto t plainRecords

instance (messages : Bytes) (c : TlsClient plainCrypto) : Decidable (StartsWith messages c) :=
  inferInstanceAs (Decidable (_ ∧ _ ∧ (_ ∧ _) ∧ _))

instance (t : Traffic) (evs : List Event) : Decidable (AllSealed t evs) :=
  List.decidableBAll _ _

/-- What calls of `recv` return behind a handshake that leaves these messages behind the server's
Finished, while this arrives; first whether the client starts with them, and whether the peer
sealed all that was opened. -/
def adversaryCalls (messages : Bytes) (arrives : Traffic → Bytes) (calls : List Call) :
    Option ((Bool × Bool) × List (Option Bytes)) := do
  let (_, s) ← runTls scriptEnv 9 [.connect (scriptConfig 0)]
    (System.fresh plainCrypto (blankHandshake (plainFinished ++ messages)))
  let (log, s') ← runTls scriptEnv 9 calls ⟨s.client, arrives (readTraffic s.client), []⟩
  pure ((StartsWith messages s.client, AllSealed (readTraffic s.client) s'.trace),
    log.map fun entry => entry.2.toOption)

/-- Evaluated calls under an adversary are a run. -/
theorem runs_of_adversaryCalls {messages : Bytes} {arrives : Traffic → Bytes} {calls : List Call}
    {results : List (Option Bytes)}
    (h : adversaryCalls messages arrives calls = some ((true, true), results)) :
    ∃ (c : TlsClient plainCrypto) (s : System plainCrypto Bytes)
      (log : List (Call × Except Error Bytes)), ReachableClient c ∧ StartsWith messages c ∧
      Run scriptEnv ⟨c, arrives (readTraffic c), []⟩ log s ∧ log.map Prod.fst = calls ∧
      log.map (fun entry => entry.2.toOption) = results ∧
      IdealFor plainCrypto (readTraffic c) plainRecords (ownTuples c) s.trace := by
  unfold adversaryCalls at h
  simp only [Option.bind_eq_bind, Option.bind_eq_some_iff, Prod.exists] at h
  obtain ⟨log₁, s₁, hconnect, log, s, hrun, hresult⟩ := h
  obtain ⟨hchecks, hresults⟩ := Prod.mk.inj (Option.some.inj hresult)
  obtain ⟨hstart, hsealed⟩ := Prod.mk.inj hchecks
  refine ⟨s₁.client, s, log, ⟨_, _, _, _, s₁, run_of_runTls hconnect, rfl⟩,
    of_decide_eq_true hstart, run_of_runTls hrun, calls_of_runTls hrun, hresults, ?_⟩
  exact fun entry hentry => Or.inl (of_decide_eq_true hsealed entry hentry)

/-- The keys of the test are distinct. -/
theorem distinctKeys_plainRecords {messages : Bytes} {c : TlsClient plainCrypto}
    (h : StartsWith messages c) :
    DistinctKeys plainCrypto (readTraffic c) plainRecords (ownTuples c) := by
  obtain ⟨-, -, -, hkeys⟩ := h
  simp only [threeKeys, List.nodup_cons, List.mem_cons, List.not_mem_nil, or_false, not_or,
    not_false_eq_true, List.nodup_nil, and_true] at hkeys
  obtain ⟨⟨hepochs, hfirst⟩, hsecond⟩ := hkeys
  have hone : keyUpdatesOf plainRecords = 1 := rfl
  refine ⟨fun m n hlt hle => ?_, fun o ho n hle => ?_⟩
  · obtain ⟨rfl, rfl⟩ : m = 0 ∧ n = 1 := by omega
    exact hepochs
  · rw [show o.key = (writeTraffic c).keys.key from ho]
    rcases (by omega : n = 0 ∨ n = 1) with rfl | rfl
    · exact fun heq => hfirst heq.symm
    · exact fun heq => hsecond heq.symm

/-- The bytes received are those of the results. -/
theorem receivedBytes_results (log : List (Call × Except Error Bytes)) :
    receivedBytes log = (log.map fun entry => entry.2.toOption).flatMap fun b => b.getD [] := by
  unfold receivedBytes
  rw [List.flatMap_map]
  refine List.flatMap_congr fun entry _ => ?_
  obtain ⟨call, r⟩ := entry
  cases r <;> rfl

/-- A log without `connect` calls. -/
theorem notConnect_of_recv {log : List (Call × Except Error Bytes)} {calls : List Call}
    (h : log.map Prod.fst = calls) (hcalls : ∀ call ∈ calls, ¬ IsConnect call) :
    ∀ entry ∈ log, ¬ IsConnect entry.1 := by
  subst h
  exact fun entry hentry => hcalls _ (List.mem_map_of_mem hentry)

/-- An adversary that puts records of its own before and behind those of the peer. -/
theorem streamIntact_of_injected : ∃ (c : TlsClient plainCrypto) (s : System plainCrypto Bytes)
    (log : List (Call × Except Error Bytes)), ReachableClient c ∧ c.state = .connected ∧
    Run scriptEnv ⟨c, injected (readTraffic c), []⟩ log s ∧
    log.map (fun entry => entry.2.toOption) = [some [1], some [2], none] ∧
    receivedBytes log <+: pendingBytes c ++ appBytes plainRecords := by
  have hresult : adversaryCalls [] injected
      [.recv false false 5, .recv false false 5, .recv false false 5] =
      some ((true, true), [some [1], some [2], none]) := by
    decide +kernel
  obtain ⟨c, s, log, hreach, hstart, hrun, hcalls, hresults, hideal⟩ :=
    runs_of_adversaryCalls hresult
  refine ⟨c, s, log, hreach, hstart.1, hrun, hresults, ?_⟩
  exact streamIntact_of_run scriptEnv hreach hstart.1 hstart.2.1 hstart.2.2.1.2
    fits_plainRecords sequenceFits_plainRecords (distinctKeys_plainRecords hstart) hrun
    (notConnect_of_recv hcalls (by simp [IsConnect])) hideal

/-- **Data is skipped behind a KeyUpdate in the deframer**: the client takes it together with the
first record of the peer, so that an adversary can leave out everything up to the KeyUpdate of
the peer. -/
theorem data_skipped : ∃ (c : TlsClient plainCrypto) (s : System plainCrypto Bytes)
    (log : List (Call × Except Error Bytes)), ReachableClient c ∧ c.state = .connected ∧
    (∀ r ∈ plainRecords, r.Fits) ∧ SequenceFits plainRecords ∧
    DistinctKeys plainCrypto (readTraffic c) plainRecords (ownTuples c) ∧
    Run scriptEnv ⟨c, skipped (readTraffic c), []⟩ log s ∧ (∀ entry ∈ log, ¬ IsConnect entry.1) ∧
    IdealFor plainCrypto (readTraffic c) plainRecords (ownTuples c) s.trace ∧
    ¬ receivedBytes log <+: pendingBytes c ++ appBytes plainRecords := by
  have hresult : adversaryCalls [24, 0, 0, 1, 0] skipped [.recv false false 5] =
      some ((true, true), [some [2]]) := by
    decide +kernel
  obtain ⟨c, s, log, hreach, hstart, hrun, hcalls, hresults, hideal⟩ :=
    runs_of_adversaryCalls hresult
  refine ⟨c, s, log, hreach, hstart.1, fits_plainRecords, sequenceFits_plainRecords,
    distinctKeys_plainRecords hstart, hrun, notConnect_of_recv hcalls (by simp [IsConnect]),
    hideal, ?_⟩
  rw [receivedBytes_results, hresults, hstart.2.2.1.1]
  decide

end XboxTls.Analysis
