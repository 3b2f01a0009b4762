import XboxTls.Analysis.PeerTraffic
import XboxTls.Interface.PeerLink

/-!
# The link between a client and its peer

Whatever the peer does, the link holds what it held before and what the peer sent since, and
the peer opens the records of the client with the keys that they were sealed with.
-/

set_option autoImplicit false

namespace XboxTls.Analysis

open Programs Programs.Prog XboxTls.Model XboxTls.Interface

variable {P : Crypto} {W : Type}

/-! ## Records in a row -/

/-- The keys behind more records are those behind both parts. -/
theorem trafficAfter_append (t : Traffic) (a b : List PeerRecord) :
    trafficAfter P t (a ++ b) = trafficAfter P (trafficAfter P t a) b :=
  List.foldl_append

/-- One more record moves the keys on. -/
theorem trafficAfter_concat (t : Traffic) (a : List PeerRecord) (r : PeerRecord) :
    trafficAfter P t (a ++ [r]) = r.next P (trafficAfter P t a) :=
  trafficAfter_append t a [r]

/-- The sealings of more records are those of both parts. -/
theorem sealings_append (t : Traffic) (a b : List PeerRecord) :
    sealings P t (a ++ b) = sealings P t a ++ sealings P (trafficAfter P t a) b := by
  induction a generalizing t with
  | nil => rfl
  | cons r a ih => exact congrArg ((t.keys, r.seal P t) :: ·) (ih (r.next P t))

/-- One more record is sealed under the keys behind the others. -/
theorem sealings_concat (t : Traffic) (a : List PeerRecord) (r : PeerRecord) :
    sealings P t (a ++ [r]) =
      sealings P t a ++ [((trafficAfter P t a).keys, r.seal P (trafficAfter P t a))] :=
  sealings_append t a [r]

/-- The wire carries the records and nothing else. -/
theorem wire_eq_sealings (t : Traffic) (records : List PeerRecord) :
    wire P t records = (sealings P t records).flatMap Prod.snd := by
  induction records generalizing t with
  | nil => rfl
  | cons r records ih =>
    rw [wire, sealings, List.flatMap_cons, ih]

/-- The bytes of more records are those of both parts. -/
theorem wire_append (t : Traffic) (a b : List PeerRecord) :
    wire P t (a ++ b) = wire P t a ++ wire P (trafficAfter P t a) b := by
  rw [wire_eq_sealings, wire_eq_sealings, wire_eq_sealings, sealings_append, List.flatMap_append]

/-- One more record adds its bytes. -/
theorem wire_concat (t : Traffic) (a : List PeerRecord) (r : PeerRecord) :
    wire P t (a ++ [r]) = wire P t a ++ r.seal P (trafficAfter P t a) := by
  rw [wire_append]
  simp [wire]

/-- The frame of a record that fits. -/
theorem seal_frame (t : Traffic) {r : PeerRecord} (hfits : r.Fits) :
    ∃ body, body.length ≤ 16640 ∧
      r.seal P t = [contentApplicationData, 3, 3] ++ storeBe16 body.length ++ body := by
  obtain ⟨body, hbody, hrecord⟩ := sealedRecord_frame (P := P) t.keys r.content.innerType
    r.content.bytes r.padding
  have hfragment := hfits.fragment
  exact ⟨body, by unfold fragLength at hbody; omega, hrecord⟩

/-- The inner type passes the check of the record layer. -/
theorem innerType_bounds (content : Content) :
    20 ≤ content.innerType ∧ content.innerType ≤ 23 := by
  cases content with
  | data _ =>
    show 20 ≤ contentApplicationData ∧ contentApplicationData ≤ 23
    decide
  | handshake _ =>
    show 20 ≤ contentHandshake ∧ contentHandshake ≤ 23
    decide

/-- Opening a record with the keys that it was sealed with. -/
theorem unprotect_seal (t : Traffic) {r : PeerRecord} (hfits : r.Fits) :
    unprotectRecordAes128Gcm P t.keys (r.seal P t) 16640 =
      .ok ⟨r.content.innerType, r.content.bytes, t.keys.advance⟩ := by
  have htype := innerType_bounds r.content
  exact unprotect_sealedRecord t.keys _ htype.1 htype.2 _ _ hfits.fragment

/-! ## What the peer does to the link -/

/-- What the client writes: application data, and KeyUpdates in records of their own. -/
def IsClientRecord (r : PeerRecord) : Prop :=
  r.Fits ∧ ((∃ bytes, r.content = .data bytes) ∨
    ∃ requestUpdate, r.content = .handshake [.keyUpdate requestUpdate])

/-- The peer took the first of these records off its channel, and the others are on it. -/
def Reads (P : Crypto) (up : Traffic) (written : List PeerRecord) (l : Link) : Prop :=
  ∃ received rest, written = received ++ rest ∧ l.read = trafficAfter P up received ∧
    l.opened = sealings P up received ∧ l.toPeer = wire P l.read rest

/-- The link when the peer has sent `sent`, of which the client took the first `taken` bytes,
and the client has written `written`; `down` and `up` are the directions at the start. -/
structure Serves (P : Crypto) (down up : Traffic) (sent written : List PeerRecord) (taken : ℕ)
    (l : Link) : Prop where
  write : l.write = trafficAfter P down sent
  sealed : l.sealed = sealings P down sent
  fits : ∀ r ∈ sent, r.Fits
  taken_le : taken ≤ (wire P down sent).length
  toClient : l.toClient = (wire P down sent).drop taken
  reads : Reads P up written l
  written : ∀ r ∈ written, IsClientRecord r
  understands : l.failed = false

variable {down up : Traffic} {sent written : List PeerRecord} {taken : ℕ} {l : Link}

/-- A record that the peer sends is served. -/
theorem serves_send {r : PeerRecord} (h : Serves P down up sent written taken l) (hfits : r.Fits) :
    Serves P down up (sent ++ [r]) written taken (l.send P r) where
  write := by
    rw [trafficAfter_concat, ← h.write]
    rfl
  sealed := by
    rw [sealings_concat, ← h.write, ← h.sealed]
    rfl
  fits := by
    intro r' hr'
    rcases List.mem_append.mp hr' with hold | hnew
    · exact h.fits r' hold
    · rw [List.mem_singleton.mp hnew]
      exact hfits
  taken_le := by
    have hle := h.taken_le
    rw [wire_concat, List.length_append]
    omega
  toClient := by
    rw [wire_concat, List.drop_append_of_le_length h.taken_le, ← h.toClient, ← h.write]
    rfl
  reads := h.reads
  written := h.written
  understands := h.understands

/-- A KeyUpdate takes effect behind its record. -/
theorem next_keyUpdate (t : Traffic) (requestUpdate : Bool) (padding : ℕ) :
    PeerRecord.next P t ⟨.handshake [.keyUpdate requestUpdate], padding⟩ = t.advance.update P := by
  cases requestUpdate <;> rfl

/-- A KeyUpdate moves the peer's read keys, and is answered if it asks for it. -/
theorem accept_keyUpdate (l : Link) (requestUpdate : Bool) :
    l.accept P contentHandshake (Content.handshake [.keyUpdate requestUpdate]).bytes =
      if requestUpdate then (l.updateRead P).send P ⟨.handshake [.keyUpdate false], 0⟩
      else l.updateRead P := by
  have hbytes : (Content.handshake [.keyUpdate requestUpdate]).bytes =
      keyUpdateMessage requestUpdate := List.append_nil _
  unfold Link.accept
  rw [hbytes, if_neg (by decide)]
  cases requestUpdate with
  | false =>
    rw [if_pos ⟨rfl, rfl⟩]
    simp
  | true =>
    rw [if_neg (by decide), if_pos ⟨rfl, rfl⟩]
    simp

/-- What the peer makes of a record of the client, once it is opened. -/
theorem serves_accept {received rest : List PeerRecord} {r : PeerRecord}
    (h : Serves P down up sent (received ++ r :: rest) taken l) {l' : Link}
    (hl' : l' = { l with
      read := (trafficAfter P up received).advance
      toPeer := wire P (r.next P (trafficAfter P up received)) rest
      opened := sealings P up (received ++ [r]) }) :
    ∃ more, Serves P down up (sent ++ more) (received ++ r :: rest) taken
      (l'.accept P r.content.innerType r.content.bytes) := by
  have hclient := (h.written r (List.mem_append_right _ List.mem_cons_self)).2
  have hnext := trafficAfter_concat (P := P) up received r
  have hsplit : received ++ r :: rest = (received ++ [r]) ++ rest := by simp
  obtain ⟨content, padding⟩ := r
  rcases hclient with ⟨bytes, rfl⟩ | ⟨requestUpdate, rfl⟩
  · refine ⟨[], ?_⟩
    rw [List.append_nil]
    subst hl'
    exact ⟨h.write, h.sealed, h.fits, h.taken_le, h.toClient,
      ⟨received ++ [_], rest, hsplit, hnext.symm, rfl, rfl⟩, h.written, h.understands⟩
  · rw [next_keyUpdate] at hnext hl'
    -- the read keys are replaced, and nothing else
    have hupdated : Serves P down up sent (received ++ ⟨.handshake [.keyUpdate requestUpdate],
        padding⟩ :: rest) taken (l'.updateRead P) := by
      subst hl'
      exact ⟨h.write, h.sealed, h.fits, h.taken_le, h.toClient,
        ⟨received ++ [_], rest, hsplit, hnext.symm, rfl, rfl⟩, h.written, h.understands⟩
    rw [show Content.innerType (.handshake [.keyUpdate requestUpdate]) = contentHandshake from rfl,
      accept_keyUpdate]
    cases requestUpdate with
    | false =>
      refine ⟨[], ?_⟩
      rw [List.append_nil]
      exact hupdated
    | true => exact ⟨[_], serves_send hupdated ⟨by decide, by decide⟩⟩

/-- The record at the front of a channel is the first that was sealed. -/
theorem seal_of_split {t : Traffic} {records : List PeerRecord} (hfits : ∀ r ∈ records, r.Fits)
    {h : RecordHeader} {record rest : Bytes}
    (hheader : parseRecordHeader (wire P t records) = .ok h)
    (hlength : record.length = 5 + h.length) (hsplit : wire P t records = record ++ rest) :
    ∃ r records', records = r :: records' ∧ record = r.seal P t ∧
      rest = wire P (r.next P t) records' := by
  cases records with
  | nil => cases hheader
  | cons r records =>
    obtain ⟨body, hbody, hseal⟩ := seal_frame (P := P) t (hfits r List.mem_cons_self)
    have hparse := parseRecordHeader_header contentApplicationData body.length hbody
      (body ++ wire P (r.next P t) records)
    have hwire : wire P t (r :: records) =
        [contentApplicationData, 3, 3] ++ storeBe16 body.length ++
          (body ++ wire P (r.next P t) records) := by
      rw [wire, hseal, List.append_assoc]
    rw [hwire, hparse] at hheader
    cases hheader
    have hsame : r.seal P t ++ wire P (r.next P t) records = record ++ rest := hsplit
    have hlen : (r.seal P t).length = record.length := by
      rw [hlength, hseal, List.length_append]
      rfl
    obtain ⟨hrecord, hrest⟩ := List.append_inj hsame hlen
    exact ⟨r, records, rfl, hrecord.symm, hrest.symm⟩

/-- Records that fit have headers that can be read. -/
theorem parseRecordHeader_wire (t : Traffic) {records : List PeerRecord}
    (hfits : ∀ r ∈ records, r.Fits) :
    parseRecordHeader (wire P t records) ≠ .error .badRecord := by
  cases records with
  | nil =>
    show parseRecordHeader [] ≠ .error .badRecord
    decide
  | cons r records =>
    obtain ⟨body, hbody, hseal⟩ := seal_frame (P := P) t (hfits r List.mem_cons_self)
    rw [wire, hseal, List.append_assoc, parseRecordHeader_header _ _ hbody]
    simp

/-- **One step of the peer**: the peer opens what it takes, and what it sent only grows. -/
theorem serves_step {l' : Link} (h : Serves P down up sent written taken l)
    (hstep : PeerStep P l l') : ∃ more, Serves P down up (sent ++ more) written taken l' := by
  obtain ⟨received, rest, rfl, hread, hopened, htoPeer⟩ := h.reads
  have hfits : ∀ r ∈ rest, r.Fits := fun r hr => (h.written r (List.mem_append_right _ hr)).1
  cases hstep with
  | send r hfits => exact ⟨[r], serves_send h hfits⟩
  | receive header record rest' hheader hlength hsplit =>
    rw [htoPeer] at hheader hsplit
    obtain ⟨r, rest, rfl, rfl, rfl⟩ := seal_of_split hfits hheader hlength hsplit
    unfold Link.receive
    rw [unprotect_seal l.read (hfits r List.mem_cons_self)]
    apply serves_accept h
    rw [sealings_concat, ← hread, ← hopened]
    rfl
  | reject hheader =>
    rw [htoPeer] at hheader
    exact absurd hheader (parseRecordHeader_wire l.read hfits)

/-- What the peer does keeps the link served. -/
theorem serves_steps {l' : Link} (h : Serves P down up sent written taken l)
    (hsteps : PeerSteps P l l') : ∃ more, Serves P down up (sent ++ more) written taken l' := by
  induction hsteps with
  | refl => exact ⟨[], by rwa [List.append_nil]⟩
  | tail _ hstep ih =>
    obtain ⟨more, hmore⟩ := ih
    obtain ⟨more', hmore'⟩ := serves_step hmore hstep
    exact ⟨more ++ more', by rwa [← List.append_assoc]⟩

/-! ## What the client does to the link -/

/-- The client takes bytes off its channel. -/
theorem serves_take {piece rest : Bytes} (h : Serves P down up sent written taken l)
    (hsplit : l.toClient = piece ++ rest) :
    piece <+: (wire P down sent).drop taken ∧
      Serves P down up sent written (taken + piece.length) { l with toClient := rest } := by
  have hwire := h.toClient.symm.trans hsplit
  have hlength := congrArg List.length hwire
  rw [List.length_drop, List.length_append] at hlength
  have hle := h.taken_le
  refine ⟨⟨rest, hwire.symm⟩, h.write, h.sealed, h.fits, by omega, ?_, h.reads, h.written,
    h.understands⟩
  show rest = _
  rw [← List.drop_drop, hwire, List.drop_left]

/-- The client puts a record on the other channel. -/
theorem serves_write {r : PeerRecord} (h : Serves P down up sent written taken l)
    (hr : IsClientRecord r) :
    Serves P down up sent (written ++ [r]) taken
      { l with toPeer := l.toPeer ++ r.seal P (trafficAfter P up written) } := by
  obtain ⟨received, rest, rfl, hread, hopened, htoPeer⟩ := h.reads
  refine ⟨h.write, h.sealed, h.fits, h.taken_le, h.toClient, ?_, ?_, h.understands⟩
  · refine ⟨received, rest ++ [r], List.append_assoc _ _ _, hread, hopened, ?_⟩
    show l.toPeer ++ _ = _
    rw [wire_concat, ← htoPeer, trafficAfter_append, ← hread]
  · intro r' hr'
    rcases List.mem_append.mp hr' with hold | hnew
    · exact h.written r' hold
    · rw [List.mem_singleton.mp hnew]
      exact hr

/-! ## What the client reads -/

/-- The peer has sent `consumed` and possibly more. -/
def Served (P : Crypto) (down up : Traffic) (view : W → Link) (consumed written : List PeerRecord)
    (taken : ℕ) (w : W) : Prop :=
  ∃ more, Serves P down up (consumed ++ more) written taken (view w)

variable {view : W → Link} {E : Env W} {consumed : List PeerRecord}

/-- What the peer does keeps the world served. -/
theorem served_steps {w w' : W} (h : Served P down up view consumed written taken w)
    (hsteps : PeerSteps P (view w) (view w')) :
    Served P down up view consumed written taken w' := by
  obtain ⟨more, hmore⟩ := h
  obtain ⟨more', hmore'⟩ := serves_steps hmore hsteps
  exact ⟨more ++ more', by rwa [← List.append_assoc]⟩

/-- Fewer records are known to be sent. -/
theorem served_of_append {more : List PeerRecord} {w : W}
    (h : Served P down up view (consumed ++ more) written taken w) :
    Served P down up view consumed written taken w := by
  obtain ⟨more', hmore'⟩ := h
  exact ⟨more ++ more', by rwa [← List.append_assoc]⟩

/-- A piece, and the one behind it. -/
theorem prefix_drop_append {l a b : Bytes} {n : ℕ} (ha : a <+: l.drop n)
    (hb : b <+: l.drop (n + a.length)) : a ++ b <+: l.drop n := by
  obtain ⟨x, hx⟩ := ha
  obtain ⟨y, hy⟩ := hb
  refine ⟨y, ?_⟩
  rw [List.append_assoc, hy, ← List.drop_drop, ← hx, List.drop_left]

/-- What was on the wire stays there. -/
theorem prefix_wire_append {piece : Bytes} (more : List PeerRecord)
    (htaken : taken ≤ (wire P down sent).length) (h : piece <+: (wire P down sent).drop taken) :
    piece <+: (wire P down (sent ++ more)).drop taken := by
  rw [wire_append, List.drop_append_of_le_length htaken]
  exact h.trans (List.prefix_append _ _)

/-- What the loop of `read_record` leaves behind. -/
def Collected (P : Crypto) (down up : Traffic) (view : W → Link)
    (consumed written : List PeerRecord) (taken total : ℕ) (have_ : Bytes) (s : System P W)
    (r : Except Error Bytes) (s' : System P W) : Prop :=
  ∃ w, s' = { s with world := w } ∧
    match r with
    | .ok bytes => ∃ piece more, bytes = have_ ++ piece ∧ bytes.length = total ∧
        piece <+: (wire P down (consumed ++ more)).drop taken ∧
        Serves P down up (consumed ++ more) written (taken + piece.length) (view w)
    | .error e => (e = .closed ∨ e = .io) ∧
        ∃ taken', Served P down up view consumed written taken' w

/-- The loop of `read_record` takes what is next on the wire, while the peer goes on. -/
theorem recvLoop_joins (hE : Joins P E view) (stream fuel total : ℕ) (have_ : Bytes)
    {s : System P W} (hs : Served P down up view consumed written taken s.world)
    (hle : have_.length ≤ total) (hfuel : total ≤ have_.length + fuel) :
    wp (recvLoop E stream fuel total have_)
      (Collected P down up view consumed written taken total have_ s) s := by
  induction fuel generalizing have_ consumed taken s with
  | zero =>
    obtain ⟨more, hmore⟩ := hs
    unfold recvLoop
    rw [wp_pure]
    exact ⟨s.world, rfl, [], more, by rw [List.append_nil], by omega, List.nil_prefix, hmore⟩
  | succ fuel ih =>
    unfold recvLoop
    by_cases hmissing : have_.length < total
    swap
    · obtain ⟨more, hmore⟩ := hs
      rw [if_neg hmissing, wp_pure]
      exact ⟨s.world, rfl, [], more, by rw [List.append_nil], by omega, List.nil_prefix, hmore⟩
    rw [if_pos hmissing, wp_bind, wp_callWorld]
    intro r w hrecv
    cases r with
    | error e =>
      obtain ⟨rfl, hsteps⟩ := hE.recvStopped _ _ _ _ _ hrecv
      exact ⟨w, rfl, Or.inr rfl, taken, served_steps hs hsteps⟩
    | ok b =>
      obtain ⟨l, rest, hbefore, hsplit, hafter⟩ := hE.recvSome _ _ _ _ _ hrecv
      obtain ⟨more, hmore⟩ := hs
      obtain ⟨more₁, hserves₁⟩ := serves_steps hmore hbefore
      obtain ⟨hpiece, htaken⟩ := serves_take hserves₁ hsplit
      obtain ⟨more₂, hserves₂⟩ := serves_steps htaken hafter
      have hbound : b.val.length ≤ total - have_.length := b.property
      rw [thenWp_ok]
      split
      · rw [wp_throw]
        refine ⟨w, rfl, Or.inl rfl, taken + b.val.length, more ++ more₁ ++ more₂, ?_⟩
        simpa only [List.append_assoc] using hserves₂
      · have hstart : Served P down up view (consumed ++ more ++ more₁) written
            (taken + b.val.length) w := ⟨more₂, hserves₂⟩
        refine wp_mono (ih (have_ ++ b.val) (s := { s with world := w }) hstart
          (by rw [List.length_append]; omega) (by rw [List.length_append]; omega)) ?_
        rintro r s' ⟨w', rfl, hr⟩
        refine ⟨w', rfl, ?_⟩
        cases r with
        | error e =>
          obtain ⟨he, taken', hserved⟩ := hr
          exact ⟨he, taken', served_of_append (served_of_append hserved)⟩
        | ok bytes =>
          obtain ⟨piece, more₃, hbytes, hlength, hprefix, hserves⟩ := hr
          refine ⟨b.val ++ piece, more ++ more₁ ++ more₃, ?_, hlength, ?_, ?_⟩
          · rw [hbytes, List.append_assoc]
          · have hfirst := prefix_wire_append more₃ hserves₁.taken_le hpiece
            simpa only [List.append_assoc] using prefix_drop_append hfirst hprefix
          · simpa only [List.append_assoc, List.length_append, Nat.add_assoc] using hserves

/-- What `read_record` leaves behind. -/
def RecordRead (P : Crypto) (down up : Traffic) (view : W → Link)
    (consumed written : List PeerRecord) (s : System P W) (r : Except Error Bytes)
    (s' : System P W) : Prop :=
  ∃ w, s' = { s with world := w } ∧
    match r with
    | .ok record => ∃ r : PeerRecord, r.Fits ∧ record = r.seal P (trafficAfter P down consumed) ∧
        Served P down up view (consumed ++ [r]) written (wire P down (consumed ++ [r])).length w
    | .error e => (e = .closed ∨ e = .io) ∧
        ∃ taken', Served P down up view consumed written taken' w

/-- **`read_record` takes the next record that the peer sealed.** -/
theorem readRecord_joins (hE : Joins P E view) {stream : ℕ} {s : System P W}
    (hstream : s.client.config.stream = some stream)
    (hs : Served P down up view consumed written (wire P down consumed).length s.world) :
    wp (readRecord E 16645) (RecordRead P down up view consumed written s) s := by
  unfold readRecord
  rw [wp_bind, wp_getClient, thenWp_ok, hstream]
  dsimp only
  rw [if_neg (by omega), wp_bind]
  refine wp_mono (recvLoop_joins hE stream 5 5 [] hs (by simp) (by simp)) ?_
  rintro r s' ⟨w, rfl, hr⟩
  cases r with
  | error e => exact ⟨w, rfl, hr⟩
  | ok header =>
    obtain ⟨piece, more, hpiece, hlength, hprefix, hserves⟩ := hr
    rw [List.nil_append] at hpiece
    subst hpiece
    rw [wire_append, List.drop_left] at hprefix
    cases more with
    | nil =>
      rw [List.prefix_nil.mp hprefix] at hlength
      cases hlength
    | cons r more =>
      have hfits : r.Fits := hserves.fits r (by simp)
      obtain ⟨body, hbody, hseal⟩ := seal_frame (P := P) (trafficAfter P down consumed) hfits
      -- the five bytes are the header of the next record
      obtain ⟨x, hx⟩ := hprefix
      rw [wire, hseal, List.append_assoc _ body] at hx
      obtain ⟨rfl, -⟩ := List.append_inj hx (by rw [hlength]; rfl)
      have hparse := parseRecordHeader_header contentApplicationData body.length hbody []
      rw [List.append_nil] at hparse
      rw [thenWp_ok, wp_bind, wp_lift, hparse, thenWp_ok, if_neg (by dsimp only; omega)]
      dsimp only at hlength ⊢
      have hnext : Served P down up view (consumed ++ [r]) written
          ((wire P down consumed).length + 5) w := by
        refine ⟨more, ?_⟩
        rw [List.append_assoc, List.singleton_append, ← hlength]
        exact hserves
      refine wp_mono (recvLoop_joins hE stream body.length (5 + body.length) _
        (s := { s with world := w }) hnext (by rw [hlength]; omega) (by rw [hlength])) ?_
      rintro r' s' ⟨w', rfl, hr'⟩
      refine ⟨w', rfl, ?_⟩
      cases r' with
      | error e =>
        obtain ⟨he, taken', hserved⟩ := hr'
        exact ⟨he, taken', served_of_append hserved⟩
      | ok record =>
        obtain ⟨piece', more', rfl, hlength', ⟨y, hy⟩, hserves'⟩ := hr'
        rw [List.length_append, hlength] at hlength'
        -- the rest of the record is its body
        have hwire : (wire P down (consumed ++ [r] ++ more')).drop
            ((wire P down consumed).length + 5) =
              body ++ wire P (trafficAfter P down (consumed ++ [r])) more' := by
          rw [wire_append, wire_concat, hseal, List.append_assoc, List.append_assoc,
            ← List.drop_drop, List.drop_left, ← hlength, List.drop_left]
        rw [hwire] at hy
        obtain ⟨rfl, -⟩ := List.append_inj hy (by omega)
        refine ⟨r, hfits, hseal.symm, more', ?_⟩
        rw [wire_concat, hseal, List.length_append, List.length_append, hlength, ← Nat.add_assoc]
        exact hserves'

end XboxTls.Analysis
