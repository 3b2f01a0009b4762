import XboxTls.Analysis.Connected
import XboxTls.Analysis.PeerTraffic
import XboxTls.Interface.BlankServer
import XboxTls.Interface.Delivery

/-!
# What `recv` delivers

Over a stream that delivers, the calls of `recv` return the application bytes of the server's
records in order, whatever is between them and whatever the capacities are, if the deframer of
the client is empty when the records start.
-/

set_option autoImplicit false

namespace XboxTls.Analysis

open Programs Programs.Prog XboxTls.Model XboxTls.Interface

variable {P : Crypto} {W : Type} {E : Env W} {inbox : W → Bytes}

/-! ## Reading -/

/-- The loop of `read_record` collects what is missing, in pieces of any size. -/
theorem recvLoop_delivers (hE : Delivers E inbox) (stream fuel total : ℕ)
    (have_ missing rest : Bytes) (s : System P W) (hlength : have_.length + missing.length = total)
    (hfuel : missing.length ≤ fuel) (hinbox : inbox s.world = missing ++ rest) :
    ∃ w, recvLoop E stream fuel total have_ s =
      some (.ok (have_ ++ missing), { s with world := w }) ∧ inbox w = rest := by
  induction fuel generalizing have_ missing s with
  | zero =>
    obtain rfl : missing = [] := List.eq_nil_of_length_eq_zero (by omega)
    exact ⟨s.world, by rw [List.append_nil]; rfl, hinbox⟩
  | succ fuel ih =>
    by_cases hmissing : missing = []
    · subst hmissing
      refine ⟨s.world, ?_, hinbox⟩
      unfold recvLoop
      rw [if_neg (by rw [← hlength, List.length_nil]; omega), List.append_nil]
      rfl
    · have hpos : 0 < missing.length := List.length_pos_iff.mpr hmissing
      have hcount : total - have_.length = missing.length := by omega
      obtain ⟨b, w', hrecv, hb, hsplit⟩ := hE.recvSome stream missing.length s.world hpos (by
        rw [hinbox]
        exact fun h => hmissing (List.append_eq_nil_iff.mp h).1)
      have hle : b.val.length ≤ missing.length := b.property
      have hbpos : 0 < b.val.length := List.length_pos_iff.mpr hb
      have htake : missing.take b.val.length = b.val := by
        have h := congrArg (List.take b.val.length) (hinbox.symm.trans hsplit)
        rwa [List.take_append_of_le_length hle, List.take_left] at h
      have hdrop : inbox w' = missing.drop b.val.length ++ rest := by
        have h := congrArg (List.drop b.val.length) (hinbox.symm.trans hsplit)
        rw [List.drop_append_of_le_length hle, List.drop_left] at h
        exact h.symm
      obtain ⟨w, hrun, hrest⟩ := ih (have_ ++ b.val) (missing.drop b.val.length)
        { s with world := w' }
        (by rw [List.length_append, List.length_drop]; omega)
        (by rw [List.length_drop]; omega) hdrop
      refine ⟨w, ?_, hrest⟩
      have hall : have_ ++ b.val ++ missing.drop b.val.length = have_ ++ missing := by
        rw [List.append_assoc]
        congr 1
        conv_rhs => rw [← List.take_append_drop b.val.length missing, htake]
      rw [hall] at hrun
      unfold recvLoop
      rw [if_pos (by omega), hcount, bind_of_ok (t := { s with world := w' }) (a := b)]
      · rw [if_neg (show ¬ b.val.length = 0 by omega)]
        exact hrun
      · simp only [callWorld, hrecv]

/-- `read_record` takes the record at the front of the stream. -/
theorem readRecord_delivers (hE : Delivers E inbox) {stream : ℕ} (t : UInt8) (body rest : Bytes)
    (s : System P W) (hstream : s.client.config.stream = some stream)
    (hbody : body.length ≤ 16640)
    (hinbox : inbox s.world = [t, 3, 3] ++ storeBe16 body.length ++ body ++ rest) :
    ∃ w, readRecord E 16645 s =
      some (.ok ([t, 3, 3] ++ storeBe16 body.length ++ body), { s with world := w }) ∧
      inbox w = rest := by
  have hheader : ([t, 3, 3] ++ storeBe16 body.length).length = 5 := rfl
  obtain ⟨w₁, hfirst, hinbox₁⟩ := recvLoop_delivers hE stream 5 5 []
    ([t, 3, 3] ++ storeBe16 body.length) (body ++ rest) s (by rw [hheader]; rfl)
    (by rw [hheader]) (by rw [hinbox, List.append_assoc _ body rest])
  obtain ⟨w₂, hsecond, hinbox₂⟩ := recvLoop_delivers hE stream body.length (5 + body.length)
    ([t, 3, 3] ++ storeBe16 body.length) body rest { s with world := w₁ }
    (by rw [hheader]) (le_refl _) hinbox₁
  have hparse := parseRecordHeader_header t body.length hbody []
  rw [List.append_nil] at hparse
  refine ⟨w₂, ?_, hinbox₂⟩
  unfold readRecord
  rw [bind_of_ok rfl, hstream]
  dsimp only
  rw [if_neg (by omega), bind_of_ok hfirst, List.nil_append, bind_of_ok (lift_of_ok hparse _),
    if_neg (by dsimp only; omega)]
  exact hsecond

/-- A sealed record at the front of the stream is read. -/
theorem readRecord_sealed (hE : Delivers E inbox) {stream : ℕ} {keys : TrafficKeys} {t : UInt8}
    {content rest : Bytes} {padding : ℕ} (s : System P W)
    (hstream : s.client.config.stream = some stream)
    (hfrag : content.length + 1 + padding + 16 ≤ 16640)
    (hinbox : inbox s.world = sealedRecord P keys t content padding ++ rest) :
    ∃ w, readRecord E 16645 s =
      some (.ok (sealedRecord P keys t content padding), { s with world := w }) ∧
      inbox w = rest := by
  obtain ⟨body, hbody, hrecord⟩ := sealedRecord_frame (P := P) keys t content padding
  rw [hrecord] at hinbox ⊢
  exact readRecord_delivers hE contentApplicationData body rest s hstream
    (by unfold fragLength at hbody; omega) hinbox

/-! ## Answering -/

/-- The answer to a KeyUpdate is written. -/
theorem answer_delivers (hE : Delivers E inbox) {stream : ℕ} (s : System P W)
    (hstate : s.client.state = .connected) (hstream : s.client.config.stream = some stream) :
    ∃ s', answer E s = some (.ok (), s') ∧ WriteStep s s' ∧
      inbox s'.world = inbox s.world := by
  have hmalloc := hE.malloc ((keyUpdateMessage false).length + 1 + 0) s.world
  obtain ⟨w, hwrite, hinbox⟩ := hE.sendAll stream
    (sealedRecord P s.client.clientAppKeys contentHandshake (keyUpdateMessage false) 0)
    (E.malloc ((keyUpdateMessage false).length + 1 + 0) s.world).2
  have hsend := sendProtected_run s hstate hstream (by decide) hmalloc.1 hwrite
  generalize sealedRecord P s.client.clientAppKeys contentHandshake (keyUpdateMessage false) 0 =
    record at hsend
  refine ⟨afterWriteUpdate (afterSend s record w), ?_, writeStep_answered s record w,
    hinbox.trans hmalloc.2⟩
  unfold answer
  rw [bind_of_ok hsend]
  exact updateClientKeys_run _

/-! ## The two ways out of `recv` -/

/-- What lies within the pending buffer stays there while its place stays the same. -/
theorem pendingWithin_same {c c' : TlsClient P} (hoffset : c'.pendingAppOffset = c.pendingAppOffset)
    (hlength : c'.pendingAppLength = c.pendingAppLength) (h : PendingWithin c) :
    PendingWithin c' := by
  unfold PendingWithin
  rw [hoffset, hlength]
  exact h

/-- `recv` hands out application data as far as it fits, and keeps the rest in the buffer. -/
theorem recvData_run (E : Env W) (content : Bytes) (size : ℕ) (s : System P W)
    (hfits : content.length ≤ pendingSize + size) :
    ∃ pendingApp pendingAppOffset pendingAppLength,
      recvData E content size s = some (.ok (content.take size), { s with
        client := { s.client with
          pendingApp := pendingApp
          pendingAppOffset := pendingAppOffset
          pendingAppLength := pendingAppLength }
        trace := s.trace ++ ([.appData content size] ++ [.delivered (content.take size)]) }) ∧
      (Stored s.client →
        pendingAppLength = 0 ∨ pendingAppOffset + pendingAppLength ≤ pendingApp.length) ∧
      (PendingWithin s.client → pendingAppOffset + pendingAppLength ≤ pendingSize) ∧
      (s.client.pendingAppLength = 0 →
        slice pendingApp pendingAppOffset pendingAppLength = content.drop size) := by
  unfold pendingSize at hfits ⊢
  by_cases hlong : size < content.length
  · have hdrop : (content.drop size).length = content.length - size := List.length_drop
    refine ⟨content.drop size, 0, content.length - size, ?_, fun _ => Or.inr ?_, fun _ => ?_,
      fun _ => ?_⟩
    · unfold recvData keepRest
      dsimp only
      rw [min_eq_right (by omega), if_pos hlong, bind_of_ok rfl,
        bind_of_ok (copyToPending_run E _ (by omega)), hdrop, ← List.append_assoc]
      rfl
    · omega
    · omega
    · unfold slice
      rw [List.drop_zero, List.take_of_length_le hdrop.le]
  · refine ⟨s.client.pendingApp, s.client.pendingAppOffset, s.client.pendingAppLength, ?_,
      fun hs => hs.pending, fun hs => hs, fun hnone => ?_⟩
    · unfold recvData keepRest
      dsimp only
      rw [min_eq_left (by omega), if_neg (by omega), List.take_length,
        List.take_of_length_le (by omega), ← List.append_assoc]
      rfl
    · unfold slice
      rw [hnone, List.take_zero, List.drop_eq_nil_of_le (by omega)]

/-- `recv` hands out pending bytes as far as they fit, and leaves the rest. -/
theorem recvPending_run (E : Env W) (size : ℕ) (s : System P W) (hwithin : PendingWithin s.client) :
    ∃ pendingAppOffset pendingAppLength,
      recvPending E size s =
        some (.ok ((pendingBytes s.client).take size), { s with
          client := { s.client with
            pendingAppOffset := pendingAppOffset
            pendingAppLength := pendingAppLength }
          trace := s.trace ++ [.delivered ((pendingBytes s.client).take size)] }) ∧
      (Stored s.client → pendingAppLength = 0 ∨
        pendingAppOffset + pendingAppLength ≤ s.client.pendingApp.length) ∧
      pendingAppOffset + pendingAppLength ≤ pendingSize ∧
      slice s.client.pendingApp pendingAppOffset pendingAppLength =
        (pendingBytes s.client).drop size := by
  have hchunk : slice s.client.pendingApp s.client.pendingAppOffset
      (min s.client.pendingAppLength size) = (pendingBytes s.client).take size := by
    unfold pendingBytes slice
    rw [List.take_take, Nat.min_comm]
  unfold PendingWithin pendingSize at hwithin
  refine ⟨if s.client.pendingAppLength - min s.client.pendingAppLength size = 0
    then 0 else s.client.pendingAppOffset + min s.client.pendingAppLength size,
    s.client.pendingAppLength - min s.client.pendingAppLength size, ?_, fun hs => ?_, ?_, ?_⟩
  · rw [← hchunk]
    unfold recvPending
    rw [bind_of_ok rfl, bind_of_ok (readPending_run E s (by omega))]
    rfl
  · have hstored := hs.pending
    split <;> omega
  · unfold pendingSize
    split <;> omega
  · by_cases hall : s.client.pendingAppLength ≤ size
    · have hdrop : (pendingBytes s.client).drop size = [] := by
        apply List.drop_eq_nil_of_le
        exact (slice_length_le _ _ _).trans hall
      rw [min_eq_left hall, Nat.sub_self, hdrop]
      unfold slice
      rw [List.take_zero]
    · rw [min_eq_right (by omega), if_neg (by omega)]
      unfold pendingBytes slice
      rw [List.drop_take, List.drop_drop]

/-! ## One call -/

/-- A connected client, between calls, whose stream still holds these records and then a
close_notify. -/
structure Awaiting (inbox : W → Bytes) (level : UInt8) (padding : ℕ) (rest : Bytes)
    (records : List PeerRecord) (s : System P W) : Prop where
  state : s.client.state = .connected
  stream : ∃ stream, s.client.config.stream = some stream
  empty : s.client.deframer.buffer = []
  stored : Stored s.client
  within : PendingWithin s.client
  fits : ∀ r ∈ records, r.Fits
  inbox : inbox s.world = wire P (readTraffic s.client) records ++
    (closeNotify P (trafficAfter P (readTraffic s.client) records) level padding ++ rest)

variable {level : UInt8} {padding : ℕ} {rest : Bytes} {records : List PeerRecord}

/-- The next record is read. -/
theorem Awaiting.read {s : System P W} {r : PeerRecord} (hE : Delivers E inbox)
    (hs : Awaiting inbox level padding rest (r :: records) s) (size fuel : ℕ) :
    ∃ w, recvRecords E size (fuel + 1) s =
        handleRecord E size fuel (r.seal P (readTraffic s.client)) { s with world := w } ∧
      inbox w = wire P (r.next P (readTraffic s.client)) records ++
        (closeNotify P (trafficAfter P (r.next P (readTraffic s.client)) records) level padding ++
          rest) := by
  obtain ⟨stream, hstream⟩ := hs.stream
  have hfits := hs.fits r List.mem_cons_self
  have hinbox := hs.inbox
  rw [wire, List.append_assoc] at hinbox
  obtain ⟨w, hread, hw⟩ := readRecord_sealed hE s hstream hfits.fragment hinbox
  refine ⟨w, ?_, hw⟩
  rw [recvRecords_succ]
  exact bind_of_ok (orFail_of_ok _ hread)

/-- Messages are processed, and the loop goes on with what follows. -/
theorem Awaiting.messages {s : System P W} {messages : List PostMessage} {pad : ℕ}
    (hE : Delivers E inbox)
    (hs : Awaiting inbox level padding rest (⟨.handshake messages, pad⟩ :: records) s)
    (size fuel : ℕ) :
    ∃ s', recvRecords E size (fuel + 1) s = recvRecords E size fuel s' ∧
      Awaiting inbox level padding rest records s' ∧
      s'.client.pendingAppLength = s.client.pendingAppLength := by
  obtain ⟨stream, hstream⟩ := hs.stream
  obtain ⟨w, hrecv, hw⟩ := hs.read hE size fuel
  have hfits := hs.fits ⟨.handshake messages, pad⟩ List.mem_cons_self
  generalize hrecord : PeerRecord.seal P (readTraffic s.client) ⟨.handshake messages, pad⟩ = record
    at hrecv
  have hhandle := handleRecord_sealed E { s with world := w } size fuel (t := contentHandshake)
    (by decide) (by decide) hfits.fragment
  rw [show sealedRecord P s.client.serverAppKeys contentHandshake
    (Content.handshake messages).bytes pad = record from hrecord] at hhandle
  let opened := afterOpen { s with world := w } .serverApp record
  let K : System P W → Prop := fun s' =>
    s'.client.config.stream = some stream ∧ inbox s'.world = inbox w
  have hread : ∀ s₁ s₂, ReadStep s₁ s₂ → K s₁ → K s₂ := by
    intro s₁ s₂ h hK
    exact ⟨by rw [h.config]; exact hK.1, by rw [h.world]; exact hK.2⟩
  have hanswer : ∀ s₁, s₁.client.state = .connected → K s₁ →
      ∃ s₂, answer E s₁ = some (.ok (), s₂) ∧ WriteStep s₁ s₂ ∧ K s₂ := by
    intro s₁ hstate hK
    obtain ⟨s₂, hrun, hwrite, hinbox⟩ := answer_delivers hE s₁ hstate hK.1
    exact ⟨s₂, hrun, hwrite, by rw [hwrite.config]; exact hK.1, hinbox.trans hK.2⟩
  obtain ⟨s', hprocess, hK, hprocessed, hempty⟩ := processPostHandshake_run E hread hanswer messages
    (s := opened) ⟨hstream, rfl⟩ hs.state hs.empty hs.stored.capacity hfits.content
  have htraffic : readTraffic s'.client =
      PeerRecord.next P (readTraffic s.client) ⟨.handshake messages, pad⟩ := hprocessed.read
  refine ⟨s', ?_, ⟨?_, ?_, hempty, ?_, ?_, ?_, ?_⟩, hprocessed.pendingAppLength⟩
  · rw [hrecv, hhandle, if_neg (by decide), if_neg (by decide), if_pos rfl]
    exact bind_of_ok (orFail_of_ok _ hprocess)
  · exact hprocessed.state.trans hs.state
  · exact ⟨stream, hK.1⟩
  · have hopened : Stored opened.client := ⟨hs.stored.capacity, hs.stored.pending⟩
    exact stored_same hprocessed.capacity hprocessed.pendingApp hprocessed.pendingAppOffset
      hprocessed.pendingAppLength hopened
  · exact pendingWithin_same hprocessed.pendingAppOffset hprocessed.pendingAppLength hs.within
  · intro r hr
    exact hs.fits r (List.mem_cons_of_mem _ hr)
  · rw [htraffic, hK.2]
    exact hw

/-- Application data is returned as far as it fits; the rest is kept. -/
theorem Awaiting.data {s : System P W} {bytes : Bytes} {pad : ℕ} (hE : Delivers E inbox)
    (hs : Awaiting inbox level padding rest (⟨.data bytes, pad⟩ :: records) s) (size fuel : ℕ)
    (hnone : s.client.pendingAppLength = 0) :
    ∃ s', recvRecords E size (fuel + 1) s = some (.ok (bytes.take size), s') ∧
      Awaiting inbox level padding rest records s' ∧ pendingBytes s'.client = bytes.drop size := by
  obtain ⟨w, hrecv, hw⟩ := hs.read hE size fuel
  have hfits := hs.fits ⟨.data bytes, pad⟩ List.mem_cons_self
  generalize hrecord : PeerRecord.seal P (readTraffic s.client) ⟨.data bytes, pad⟩ = record at hrecv
  have hhandle := handleRecord_sealed E { s with world := w } size fuel
    (t := contentApplicationData) (by decide) (by decide) hfits.fragment
  rw [show sealedRecord P s.client.serverAppKeys contentApplicationData
    (Content.data bytes).bytes pad = record from hrecord, if_pos rfl] at hhandle
  rw [hhandle] at hrecv
  obtain ⟨pendingApp, pendingAppOffset, pendingAppLength, hrun, hstored, hwithin, hkept⟩ :=
    recvData_run E bytes size (afterOpen { s with world := w } .serverApp record)
      (hfits.content.trans (Nat.le_add_right _ _))
  refine ⟨_, hrecv.trans hrun, ⟨hs.state, hs.stream, hs.empty, ⟨hs.stored.capacity, ?_⟩,
    hwithin hs.within, ?_, hw⟩, hkept hnone⟩
  · exact hstored ⟨hs.stored.capacity, hs.stored.pending⟩
  · exact fun r hr => hs.fits r (List.mem_cons_of_mem _ hr)

/-- A close_notify closes the client, whatever its level. -/
theorem recvAlert_closeNotify (E : Env W) (level : UInt8) (s : System P W) :
    ∃ s', recvAlert E [level, 0] s = some (.error .closed, s') ∧ s'.client.state = .closed := by
  let alerted : System P W := { s with
    client := { s.client with lastAlertLevel := level, lastAlertDescription := 0 } }
  have halert : handleAlert [level, 0] s = some (.ok .closed, alerted) := rfl
  refine ⟨afterEnd E .closed alerted, ?_, rfl⟩
  unfold recvAlert
  rw [bind_of_ok halert, if_pos rfl]
  exact recvClosed_apply E alerted

/-- A close_notify closes the client. -/
theorem Awaiting.close {s : System P W} (hE : Delivers E inbox) (hpad : padding ≤ 16621)
    (hs : Awaiting inbox level padding rest [] s) (size fuel : ℕ) :
    ∃ s', recvRecords E size (fuel + 1) s = some (.error .closed, s') ∧
      s'.client.state = .closed := by
  obtain ⟨stream, hstream⟩ := hs.stream
  have hinbox := hs.inbox
  rw [wire, List.nil_append] at hinbox
  have hfrag : ([level, 0] : Bytes).length + 1 + padding + 16 ≤ 16640 := by
    show 2 + 1 + padding + 16 ≤ 16640
    omega
  obtain ⟨w, hread, hw⟩ := readRecord_sealed hE s hstream hfrag hinbox
  have hhandle := handleRecord_sealed E { s with world := w } size fuel (t := contentAlert)
    (by decide) (by decide) hfrag
  obtain ⟨s', halert, hstate⟩ := recvAlert_closeNotify E level (afterOpen { s with world := w }
    .serverApp (sealedRecord P s.client.serverAppKeys contentAlert [level, 0] padding))
  refine ⟨s', ?_, hstate⟩
  rw [recvRecords_succ, bind_of_ok (orFail_of_ok _ hread)]
  refine hhandle.trans ?_
  rw [if_neg (by decide), if_pos rfl]
  exact halert

/-- There are as many pending bytes as the client counts. -/
theorem pendingBytes_length {c : TlsClient P} (hc : Stored c) :
    (pendingBytes c).length = c.pendingAppLength := by
  have hpending := hc.pending
  unfold pendingBytes slice
  rw [List.length_take, List.length_drop]
  omega

/-- Pending bytes are returned as far as they fit; the rest stays. -/
theorem Awaiting.pending (E : Env W) {s : System P W}
    (hs : Awaiting inbox level padding rest records s) (size : ℕ) :
    ∃ s', recvPending E size s =
        some (.ok ((pendingBytes s.client).take size), s') ∧
      Awaiting inbox level padding rest records s' ∧
      pendingBytes s'.client = (pendingBytes s.client).drop size := by
  obtain ⟨pendingAppOffset, pendingAppLength, hrun, hstored, hwithin, hkept⟩ :=
    recvPending_run E size s hs.within
  exact ⟨_, hrun, ⟨hs.state, hs.stream, hs.empty, ⟨hs.stored.capacity, hstored hs.stored⟩, hwithin,
    hs.fits, hs.inbox⟩, hkept⟩

/-- What one call gives when these bytes are still to be delivered: a chunk of them, or the
close when there are none.  With room, a call leaves less than `m` to do. -/
def Gives (inbox : W → Bytes) (level : UInt8) (padding : ℕ) (rest bytes : Bytes) (size m : ℕ)
    (r : Except Error Bytes) (s' : System P W) : Prop :=
  (∃ chunk records, r = .ok chunk ∧ chunk.length ≤ size ∧
    Awaiting inbox level padding rest records s' ∧
    bytes = chunk ++ (pendingBytes s'.client ++ appBytes records) ∧
    (0 < size → (pendingBytes s'.client ++ appBytes records).length + records.length < m)) ∨
  (r = .error .closed ∧ s'.client.state = .closed ∧ bytes = [])

/-- **The loop over the records**, by induction on those that are still to come. -/
theorem recvRecords_gives (hE : Delivers E inbox) (hpad : padding ≤ 16621) (size fuel m : ℕ)
    {s : System P W} (hs : Awaiting inbox level padding rest records s)
    (hnone : s.client.pendingAppLength = 0) (hm : (appBytes records).length + records.length ≤ m) :
    (∀ r s', recvRecords E size fuel s = some (r, s') →
      Gives inbox level padding rest (appBytes records) size m r s') ∧
    (records.length < fuel → ∃ r s', recvRecords E size fuel s = some (r, s')) := by
  induction records generalizing fuel s with
  | nil =>
    cases fuel with
    | zero => exact ⟨fun r s' h => (by cases h), fun h => absurd h (Nat.not_lt_zero _)⟩
    | succ fuel =>
      obtain ⟨s', hrun, hstate⟩ := hs.close hE hpad size fuel
      refine ⟨?_, fun _ => ⟨_, s', hrun⟩⟩
      intro r s'' h
      rw [hrun] at h
      cases h
      exact Or.inr ⟨rfl, hstate, rfl⟩
  | cons record records ih =>
    cases fuel with
    | zero => exact ⟨fun r s' h => (by cases h), fun h => absurd h (Nat.not_lt_zero _)⟩
    | succ fuel =>
      obtain ⟨content, pad⟩ := record
      rw [appBytes_cons, List.length_append, List.length_cons] at hm
      cases content with
      | handshake messages =>
        obtain ⟨s₁, hrun, hs₁, hnone₁⟩ := hs.messages hE size fuel
        have hrest := ih fuel hs₁ (hnone₁.trans hnone) (by omega)
        rw [hrun, appBytes_cons]
        refine ⟨hrest.1, fun hfuel => hrest.2 ?_⟩
        rw [List.length_cons] at hfuel
        omega
      | data bytes =>
        obtain ⟨s₁, hrun, hs₁, hpending⟩ := hs.data hE size fuel hnone
        refine ⟨?_, fun _ => ⟨_, s₁, hrun⟩⟩
        intro r s' h
        rw [hrun] at h
        cases h
        refine Or.inl ⟨bytes.take size, records, rfl, List.length_take_le _ _, hs₁, ?_, ?_⟩
        · rw [hpending, ← List.append_assoc, List.take_append_drop]
          rfl
        · intro _
          have hlength : (⟨.data bytes, pad⟩ : PeerRecord).content.appBytes.length =
            bytes.length := rfl
          rw [hpending, List.length_append, List.length_drop]
          omega

/-- **One call of `recv`.** -/
theorem recv_gives (hE : Delivers E inbox) (hpad : padding ≤ 16621) {outNull : Bool} {size m : ℕ}
    (hnull : outNull = true → size = 0) {s : System P W}
    (hs : Awaiting inbox level padding rest records s)
    (hm : (pendingBytes s.client ++ appBytes records).length + records.length ≤ m) :
    (∀ fuel r s', recv E fuel false outNull size s = some (r, s') →
      Gives inbox level padding rest (pendingBytes s.client ++ appBytes records) size m r s') ∧
    ∃ fuel r s', recv E fuel false outNull size s = some (r, s') := by
  have hargs : ¬ (false = true ∨ (outNull = true ∧ size ≠ 0)) := by
    rintro (h | ⟨hout, hsize⟩)
    · cases h
    · exact hsize (hnull hout)
  by_cases hnone : s.client.pendingAppLength = 0
  · have hempty : pendingBytes s.client = [] := by
      unfold pendingBytes slice
      rw [hnone, List.take_zero]
    have hrecv : ∀ fuel, recv E fuel false outNull size s = recvRecords E size fuel s := by
      intro fuel
      unfold recv
      rw [bind_of_ok rfl, if_neg hargs, if_neg (by rw [hs.state]; decide),
        if_neg (by rw [hnone]; decide)]
    rw [hempty, List.nil_append] at hm ⊢
    constructor
    · intro fuel r s' h
      rw [hrecv] at h
      exact (recvRecords_gives hE hpad size fuel m hs hnone hm).1 r s' h
    · refine ⟨records.length + 1, ?_⟩
      rw [hrecv]
      exact (recvRecords_gives hE hpad size _ m hs hnone hm).2 (Nat.lt_succ_self _)
  · have hlength := pendingBytes_length hs.stored
    obtain ⟨s', hpending, hs', hleft⟩ := hs.pending E size
    have hrecv : ∀ fuel, recv E fuel false outNull size s =
        some (.ok ((pendingBytes s.client).take size), s') := by
      intro fuel
      unfold recv
      rw [bind_of_ok rfl, if_neg hargs, if_neg (by rw [hs.state]; decide), if_pos hnone]
      exact hpending
    refine ⟨?_, 0, _, s', hrecv 0⟩
    intro fuel r s'' h
    rw [hrecv] at h
    cases h
    refine Or.inl ⟨(pendingBytes s.client).take size, records, rfl, List.length_take_le _ _, hs',
      ?_, ?_⟩
    · rw [hleft, ← List.append_assoc, List.take_append_drop]
    · intro hsize
      rw [List.length_append] at hm ⊢
      rw [hleft, List.length_drop]
      omega

/-! ## Runs -/

/-- The bytes of a longer log are those of its parts. -/
theorem receivedBytes_append (a b : List (Call × Except Error Bytes)) :
    receivedBytes (a ++ b) = receivedBytes a ++ receivedBytes b :=
  List.flatMap_append

/-- The calls so far returned what they had to.  Either the client is closed and they returned
everything, or all of them returned chunks and the rest is still to come; `m` bounds what was to
do at the start. -/
structure Delivering (inbox : W → Bytes) (level : UInt8) (padding : ℕ) (rest bytes : Bytes)
    (m : ℕ) (log : List (Call × Except Error Bytes)) (s : System P W) : Prop where
  exactly : DeliversExactly bytes log
  now : (s.client.state = .closed ∧ receivedBytes log = bytes ∧
      ∃ call, (call, .error .closed) ∈ log) ∨
    ∃ records, Awaiting inbox level padding rest records s ∧
      bytes = receivedBytes log ++ (pendingBytes s.client ++ appBytes records) ∧
      ((∀ entry ∈ log, 0 < capacityOf entry.1) →
        log.length + ((pendingBytes s.client ++ appBytes records).length + records.length) ≤ m)

/-- A call that returned a chunk. -/
theorem deliversExactly_chunk {bytes chunk rest : Bytes} {call : Call}
    {log : List (Call × Except Error Bytes)} (h : DeliversExactly bytes log)
    (hbytes : bytes = receivedBytes log ++ (chunk ++ rest))
    (hcapacity : chunk.length ≤ capacityOf call) :
    DeliversExactly bytes (log ++ [(call, .ok chunk)]) := by
  refine ⟨?_, ?_, ?_, ?_⟩
  · rw [receivedBytes_append, hbytes, ← List.append_assoc]
    exact ⟨rest, by simp [receivedBytes]⟩
  · intro call' chunk' hmem
    rcases List.mem_append.mp hmem with hold | hnew
    · exact h.capacity call' chunk' hold
    · cases List.mem_singleton.mp hnew
      exact hcapacity
  · intro before call' after hsplit
    rcases split_concat hsplit with ⟨after', hold⟩ | ⟨-, hnew, -⟩
    · exact h.closed before call' after' hold
    · cases hnew
  · intro call' e hmem
    rcases List.mem_append.mp hmem with hold | hnew
    · exact h.noOther call' e hold
    · cases List.mem_singleton.mp hnew

/-- A call that returned the close when everything was delivered. -/
theorem deliversExactly_closed {bytes : Bytes} {call : Call}
    {log : List (Call × Except Error Bytes)} (h : DeliversExactly bytes log)
    (hbytes : receivedBytes log = bytes) :
    DeliversExactly bytes (log ++ [(call, .error .closed)]) := by
  refine ⟨?_, ?_, ?_, ?_⟩
  · rw [receivedBytes_append, hbytes]
    exact ⟨[], by simp [receivedBytes]⟩
  · intro call' chunk' hmem
    rcases List.mem_append.mp hmem with hold | hnew
    · exact h.capacity call' chunk' hold
    · cases List.mem_singleton.mp hnew
  · intro before call' after hsplit
    rcases split_concat hsplit with ⟨after', hold⟩ | ⟨hbefore, -, -⟩
    · exact h.closed before call' after' hold
    · rw [hbefore, hbytes]
  · intro call' e hmem
    rcases List.mem_append.mp hmem with hold | hnew
    · exact h.noOther call' e hold
    · cases List.mem_singleton.mp hnew
      rfl

/-- **One more call.** -/
theorem delivering_step (hE : Delivers E inbox) (hpad : padding ≤ 16621) {bytes : Bytes} {m : ℕ}
    {log : List (Call × Except Error Bytes)} {s s' : System P W} {call : Call}
    {r : Except Error Bytes} (hs : Delivering inbox level padding rest bytes m log s)
    (hcall : IsRecv call) (hret : Returns E call s r s') :
    Delivering inbox level padding rest bytes m (log ++ [(call, r)]) s' := by
  obtain ⟨outNull, size, rfl, hnull⟩ := hcall
  obtain ⟨fuel, hrun⟩ := hret
  rcases hs.now with ⟨hstate, hall, hsome⟩ | ⟨records, hawaiting, hbytes, hm⟩
  · -- a closed client says so, and changes nothing
    have hclosed : recv E fuel false outNull size s = some (.error .closed, s) := by
      unfold recv
      rw [bind_of_ok rfl, if_neg, if_pos (by rw [hstate]; decide)]
      · rfl
      · rintro (h | ⟨hout, hsize⟩)
        · cases h
        · exact hsize (hnull hout)
    cases hclosed.symm.trans hrun
    refine ⟨deliversExactly_closed hs.exactly hall, Or.inl ⟨hstate, ?_, ?_⟩⟩
    · rw [receivedBytes_append, hall]
      exact List.append_nil _
    · exact ⟨_, List.mem_append_right _ (List.mem_singleton_self _)⟩
  · have hgives := (recv_gives hE hpad hnull hawaiting (le_refl _)).1 fuel r s' hrun
    rcases hgives with
      ⟨chunk, records', rfl, hchunk, hawaiting', hsplit, hless⟩ | ⟨rfl, hstate, hnil⟩
    · rw [hsplit] at hbytes
      refine ⟨deliversExactly_chunk hs.exactly hbytes hchunk, Or.inr ⟨records', hawaiting', ?_, ?_⟩⟩
      · rw [hbytes, receivedBytes_append, List.append_assoc]
        congr 1
        rw [← List.append_assoc]
        simp [receivedBytes]
      · intro hroom
        have hold := hm fun entry hentry => hroom entry (List.mem_append_left _ hentry)
        have hnew := hless (hroom _ (List.mem_append_right _ (List.mem_singleton_self _)))
        rw [List.length_append, List.length_singleton]
        omega
    · have hall : receivedBytes log = bytes := by
        rw [hbytes, hnil, List.append_nil]
      refine ⟨deliversExactly_closed hs.exactly hall, Or.inl ⟨hstate, ?_, ?_⟩⟩
      · rw [receivedBytes_append, hall]
        exact List.append_nil _
      · exact ⟨_, List.mem_append_right _ (List.mem_singleton_self _)⟩

/-- **Exact delivery**, when the deframer of the connected client is empty as the records start
and what an earlier `recv` kept lies within the pending buffer: in every run of calls of `recv` they
return the pending bytes and the application bytes of the records, in order, each no more than its
capacity, and the close only after all of them.  Every further call returns, and calls with room
get to the close. -/
theorem deliversExactly_of_run (hE : Delivers E inbox) {c : TlsClient P}
    (hreach : ReachableClient c)
    (hconn : c.state = .connected) (hempty : c.deframer.buffer = []) (hwithin : PendingWithin c)
    (hfits : ∀ r ∈ records, r.Fits) (hpad : padding ≤ 16621) {w : W} {trace : List Event}
    (hinbox : inbox w = wire P (readTraffic c) records ++
      (closeNotify P (trafficAfter P (readTraffic c) records) level padding ++ rest))
    {log : List (Call × Except Error Bytes)} {s : System P W}
    (hrun : Run E ⟨c, w, trace⟩ log s) (hlog : ∀ entry ∈ log, IsRecv entry.1) :
    DeliversExactly (pendingBytes c ++ appBytes records) log ∧
    (∀ call, IsRecv call → ∃ r s', Returns E call s r s') ∧
    ((∀ entry ∈ log, 0 < capacityOf entry.1) →
      (pendingBytes c ++ appBytes records).length + records.length < log.length →
      ∃ call, (call, .error .closed) ∈ log) := by
  have hstart : Delivering inbox level padding rest (pendingBytes c ++ appBytes records)
      ((pendingBytes c ++ appBytes records).length + records.length) []
      (⟨c, w, trace⟩ : System P W) := by
    refine ⟨⟨List.nil_prefix, by simp, by simp, by simp⟩, Or.inr ⟨records, ?_, rfl, ?_⟩⟩
    · exact ⟨hconn, stream_of_reachable hreach hconn, hempty, stored_of_reachable hreach, hwithin,
        hfits, hinbox⟩
    · intro _
      rw [List.length_nil, Nat.zero_add]
  have hend : Delivering inbox level padding rest (pendingBytes c ++ appBytes records)
      ((pendingBytes c ++ appBytes records).length + records.length) log s := by
    clear hinbox
    induction hrun with
    | nil => exact hstart
    | snoc _ hret ih =>
      have hold := ih fun entry hentry => hlog entry (List.mem_append_left _ hentry)
      exact delivering_step hE hpad hold
        (hlog _ (List.mem_append_right _ (List.mem_singleton_self _))) hret
  refine ⟨hend.exactly, ?_, ?_⟩
  · rintro call ⟨outNull, size, rfl, hnull⟩
    rcases hend.now with ⟨hstate, -, -⟩ | ⟨records', hawaiting, -, -⟩
    · refine ⟨.error .closed, s, 0, ?_⟩
      show recv E 0 false outNull size s = _
      unfold recv
      rw [bind_of_ok rfl, if_neg, if_pos (by rw [hstate]; decide)]
      · rfl
      · rintro (h | ⟨hout, hsize⟩)
        · cases h
        · exact hsize (hnull hout)
    · obtain ⟨fuel, r, s', h⟩ := (recv_gives hE hpad hnull hawaiting (le_refl _)).2
      exact ⟨r, s', fuel, h⟩
  · intro hroom hlong
    rcases hend.now with ⟨-, -, hsome⟩ | ⟨records', -, -, hm⟩
    · exact hsome
    · have hle := hm hroom
      omega

/-! ## Two servers -/

/-- The script hands out its bytes one after the other. -/
theorem delivers_scriptEnv : Delivers scriptEnv fun w => w where
  recvSome stream n w hn hw := by
    refine ⟨⟨w.take n, List.length_take_le n w⟩, w.drop n, rfl, ?_, ?_⟩
    · intro h
      rcases List.take_eq_nil_iff.mp h with h0 | hnil
      · omega
      · exact hw hnil
    · exact (List.take_append_drop n w).symm
  sendAll stream bytes w := ⟨w, rfl, rfl⟩
  malloc n w := ⟨rfl, rfl⟩

/-- A ticket, a byte of application data and a KeyUpdate that requests another, then another
two bytes. -/
def sentRecords : List PeerRecord :=
  [⟨.handshake [.newSessionTicket [0]], 0⟩, ⟨.data [1], 0⟩,
    ⟨.handshake [.keyUpdate true], 0⟩, ⟨.data [2, 3], 0⟩]

/-- The records of the test fit. -/
theorem fits_sentRecords : ∀ r ∈ sentRecords, r.Fits := by
  intro r hr
  simp only [sentRecords, List.mem_cons, List.not_mem_nil, or_false] at hr
  rcases hr with rfl | rfl | rfl | rfl <;> exact ⟨by decide, by decide⟩

/-- What a server sends that puts these messages into the record of its Finished. -/
def sentBytes (messages : Bytes) : Bytes :=
  blankHandshake messages ++ (blankRecord 22 [4, 0, 0, 1, 0] ++ blankRecord 23 [1] ++
    blankRecord 22 [24, 0, 0, 1, 1] ++ blankRecord 23 [2, 3]) ++ blankRecord 21 [1, 0]

/-- What is left of them after the handshake. -/
def sentRest : Bytes :=
  blankRecord 22 [4, 0, 0, 1, 0] ++ blankRecord 23 [1] ++ blankRecord 22 [24, 0, 0, 1, 1] ++
    blankRecord 23 [2, 3] ++ blankRecord 21 [1, 0]

/-- What these calls return after a `connect`, and how the `connect` left the client: whether it is
connected and its pending bytes lie in the buffer, the bytes in its deframer, its pending bytes and
what the stream still holds. -/
def afterFinished (messages : Bytes) (calls : List Call) :
    Option ((Bool × Bytes × Bytes × Bytes) × List (Option Bytes)) := do
  let (_, s) ← runTls scriptEnv 9 [.connect (scriptConfig 0)]
    (System.fresh blankCrypto (sentBytes messages))
  let (log, _) ← runTls scriptEnv 9 calls s
  pure ((s.client.state = .connected ∧ PendingWithin s.client, s.client.deframer.buffer,
      pendingBytes s.client, s.world),
    log.map fun entry => entry.2.toOption)

/-- An evaluated connection with the calls behind it is a run. -/
theorem runs_of_afterFinished {messages buffer pending world : Bytes} {calls : List Call}
    {results : List (Option Bytes)}
    (h : afterFinished messages calls = some ((true, buffer, pending, world), results)) :
    ∃ (s₁ s : System blankCrypto Bytes) (log : List (Call × Except Error Bytes)),
      ReachableClient s₁.client ∧ (s₁.client.state = .connected ∧ PendingWithin s₁.client) ∧
      s₁.client.deframer.buffer = buffer ∧ pendingBytes s₁.client = pending ∧
      s₁.world = world ∧ Run scriptEnv s₁ log s ∧ log.map Prod.fst = calls ∧
      log.map (fun entry => entry.2.toOption) = results := by
  unfold afterFinished at h
  simp only [Option.bind_eq_bind, Option.bind_eq_some_iff, Prod.exists] at h
  obtain ⟨log₁, s₁, hconnect, log, s, hcalls, hresult⟩ := h
  have hpure := Option.some.inj hresult
  obtain ⟨hstate, hresults⟩ := Prod.mk.inj hpure
  obtain ⟨hconn, hstate⟩ := Prod.mk.inj hstate
  obtain ⟨hbuffer, hstate⟩ := Prod.mk.inj hstate
  obtain ⟨hpending, hworld⟩ := Prod.mk.inj hstate
  refine ⟨s₁, s, log, ⟨_, _, _, _, s₁, run_of_runTls hconnect, rfl⟩, of_decide_eq_true hconn,
    hbuffer, hpending, hworld, run_of_runTls hcalls, calls_of_runTls hcalls, hresults⟩

/-- Calls with room for five bytes, for none, for one, and for five again. -/
def sentCalls : List Call :=
  [.recv false false 5, .recv false true 0, .recv false false 1, .recv false false 5,
    .recv false false 5]

/-- The records that arrive after a Finished that ends its record. -/
theorem deliversExactly_of_sent : ∃ (s₁ s : System blankCrypto Bytes)
    (log : List (Call × Except Error Bytes)), ReachableClient s₁.client ∧
    s₁.client.state = .connected ∧ Run scriptEnv s₁ log s ∧
    log.map (fun entry => entry.2.toOption) = [some [1], some [], some [2], some [3], none] ∧
    DeliversExactly [1, 2, 3] log := by
  have hresult : afterFinished blankFinished sentCalls =
      some ((true, [], [], sentRest), [some [1], some [], some [2], some [3], none]) := by
    decide +kernel
  obtain ⟨s₁, s, log, hreach, ⟨hconn, hwithin⟩, hbuffer, hpending, hworld, hrun, hcalls,
    hresults⟩ := runs_of_afterFinished hresult
  refine ⟨s₁, s, log, hreach, hconn, hrun, hresults, ?_⟩
  have hlog : ∀ entry ∈ log, IsRecv entry.1 := by
    intro entry hentry
    have hcall := List.mem_map_of_mem (f := Prod.fst) hentry
    rw [hcalls] at hcall
    simp only [sentCalls, List.mem_cons, List.not_mem_nil, or_false] at hcall
    rcases hcall with h | h | h | h | h <;> exact ⟨_, _, h, by decide⟩
  have hinbox : s₁.world = wire blankCrypto (readTraffic s₁.client) sentRecords ++
      (closeNotify blankCrypto (trafficAfter blankCrypto (readTraffic s₁.client) sentRecords) 1 0 ++
        []) := by
    rw [hworld]
    rfl
  have hexact := (deliversExactly_of_run delivers_scriptEnv hreach hconn hbuffer hwithin
    fits_sentRecords (by decide) hinbox hrun hlog).1
  rw [hpending] at hexact
  exact hexact

/-- **Bytes behind the server's Finished are taken for the start of its next message**: the client
is connected, and a ticket that is complete makes `recv` fail before anything is delivered. -/
theorem bytes_behind_finished : ∃ (s₁ s : System blankCrypto Bytes)
    (log : List (Call × Except Error Bytes)), ReachableClient s₁.client ∧
    s₁.client.state = .connected ∧
    s₁.world = wire blankCrypto (readTraffic s₁.client) sentRecords ++ closeNotify blankCrypto
      (trafficAfter blankCrypto (readTraffic s₁.client) sentRecords) 1 0 ∧
    Run scriptEnv s₁ log s ∧ (∀ entry ∈ log, IsRecv entry.1) ∧
    pendingBytes s₁.client ++ appBytes sentRecords = [1, 2, 3] ∧
    ¬ DeliversExactly [1, 2, 3] log := by
  have hresult : afterFinished (blankFinished ++ [9, 0, 0]) [.recv false false 5] =
      some ((true, [9, 0, 0], [], sentRest), [none]) := by
    decide +kernel
  obtain ⟨s₁, s, log, hreach, ⟨hconn, -⟩, -, hpending, hworld, hrun, hcalls, hresults⟩ :=
    runs_of_afterFinished hresult
  obtain ⟨⟨call, r⟩, rfl⟩ : ∃ entry, log = [entry] := by
    apply List.length_eq_one_iff.mp
    have hlength := congrArg List.length hcalls
    rwa [List.length_map] at hlength
  obtain ⟨rfl⟩ : call = .recv false false 5 := (List.cons.inj hcalls).1
  refine ⟨s₁, s, _, hreach, hconn, by rw [hworld]; rfl, hrun, ?_, by rw [hpending]; rfl, ?_⟩
  · intro entry hentry
    rw [List.mem_singleton.mp hentry]
    exact ⟨false, 5, rfl, by decide⟩
  · intro hexact
    cases r with
    | ok chunk => cases (List.cons.inj hresults).1
    | error e =>
      have hclosed := hexact.noOther _ e (List.mem_singleton_self _)
      subst hclosed
      have hnone := hexact.closed [] _ [] rfl
      cases hnone

end XboxTls.Analysis
