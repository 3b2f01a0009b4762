import XboxTls.Analysis.Delivery
import XboxTls.Analysis.PeerSession

/-!
# Sessions of the client and its peer

A connected client with an empty deframer stays in step with its peer in every session: what
holds between two calls, and what each call makes of it.
-/

set_option autoImplicit false

namespace XboxTls.Analysis

open Programs Programs.Prog XboxTls.Model XboxTls.Interface

variable {P : Crypto} {W : Type}

/-- A connected client that took these records and nothing else. -/
structure Consumed (down : Traffic) (consumed : List PeerRecord) (s : System P W) : Prop where
  state : s.client.state = .connected
  empty : s.client.deframer.buffer = []
  capacity : s.client.deframer.capacity = 32768
  read : readTraffic s.client = trafficAfter P down consumed
  updates : keyUpdatesTaken s.trace = keyUpdatesOf consumed
  epoch : epoch .serverApp s.trace = keyUpdatesOf consumed

/-- It is on its link, and has taken the bytes of these records from it. -/
structure Together (down up : Traffic) (view : W → Link) (consumed : List PeerRecord)
    (s : System P W) : Prop extends Consumed down consumed s where
  linked : Linked down up view consumed (wire P down consumed).length s

/-- What holds between two calls. -/
structure Apace (down up : Traffic) (view : W → Link) (s : System P W) : Prop where
  parted : Parted down up view s
  together : s.client.state = .connected → ∃ consumed, Together down up view consumed s

variable {down up : Traffic} {view : W → Link} {consumed written : List PeerRecord} {taken : ℕ}
variable {E : Env W}

/-- What was consumed does not depend on the world. -/
theorem Consumed.world {s : System P W} (h : Consumed down consumed s) (w : W) :
    Consumed down consumed { s with world := w } :=
  ⟨h.state, h.empty, h.capacity, h.read, h.updates, h.epoch⟩

/-- A client and a peer that are together keep pace. -/
theorem Together.apace {s : System P W} (h : Together down up view consumed s) :
    Apace down up view s :=
  ⟨h.linked.parted, fun _ => ⟨consumed, h⟩⟩

/-- A client that failed keeps pace no longer. -/
theorem apace_afterEnd (hE : Joins P E view) {s : System P W} (h : Parted down up view s) :
    Apace down up view (afterEnd E .failed s) :=
  ⟨parted_afterEnd hE .failed h, fun hstate => by cases hstate⟩

/-- The peer goes on. -/
theorem Apace.steps {s : System P W} {w : W} (h : Apace down up view s)
    (hsteps : PeerSteps P (view s.world) (view w)) : Apace down up view { s with world := w } := by
  refine ⟨parted_steps h.parted hsteps, fun hstate => ?_⟩
  obtain ⟨consumed, htogether⟩ := h.together hstate
  exact ⟨consumed, htogether.toConsumed.world w, htogether.linked.steps hsteps⟩

/-- How a call ends: it fails only with these errors. -/
def CallEnds (E : Env W) (down up : Traffic) (view : W → Link) {α : Type} (r : Except Error α)
    (s' : System P W) : Prop :=
  Apace down up view s' ∧ ∀ e, r = .error e → HasMemory E → e = .closed ∨ e = .io

/-! ## Reading -/

/-- The KeyUpdates taken in a longer trace are those of its parts. -/
theorem keyUpdatesTaken_append (a b : List Event) :
    keyUpdatesTaken (a ++ b) = keyUpdatesTaken a + keyUpdatesTaken b := by
  unfold keyUpdatesTaken
  rw [postMessages_append, List.countP_append]

/-- The KeyUpdates among messages that were processed. -/
theorem countP_messages (messages : List PostMessage) :
    (messages.map PostMessage.message).countP (fun msg => msg.type = hsKeyUpdate) =
      (Content.handshake messages).keyUpdates := by
  rw [List.countP_map]
  refine List.countP_congr fun m _ => ?_
  cases m with
  | newSessionTicket _ => simp [PostMessage.isKeyUpdate, hsNewSessionTicket, hsKeyUpdate]
  | keyUpdate _ => simp [PostMessage.isKeyUpdate]

/-- Reading leaves the link as it is. -/
theorem linked_of_readStep {s s' : System P W} (hstep : ReadStep s s')
    (hopened : openedRecords .serverApp s'.trace = openedRecords .serverApp s.trace)
    (h : Linked down up view consumed taken s) : Linked down up view consumed taken s' := by
  obtain ⟨written, hwrote, hserved⟩ := h.link
  obtain ⟨hsealed, hepoch⟩ := hstep.sealed
  refine ⟨?_, hopened.trans h.opened, written, ?_, ?_⟩
  · rw [hstep.config]
    exact h.stream
  · exact ⟨hstep.write.trans hwrote.traffic, hsealed.trans hwrote.sealed,
      hepoch.trans hwrote.epoch⟩
  · rw [hstep.world]
    exact hserved

/-- The next record was opened. -/
theorem linked_afterOpen {s : System P W} {r : PeerRecord} {w : W}
    (h : Together down up view consumed s)
    (hwrote : Wrote up written s)
    (hserved : Served P down up view (consumed ++ [r]) written taken w) :
    Linked down up view (consumed ++ [r]) taken (afterOpen { s with world := w } .serverApp
      (r.seal P (trafficAfter P down consumed))) where
  stream := h.linked.stream
  opened := by
    show openedRecords .serverApp (s.trace ++ [_]) = _
    rw [openedRecords_append, h.linked.opened, sealings_concat, ← h.read]
    rfl
  link := by
    refine ⟨written, ⟨hwrote.traffic, ?_, ?_⟩, hserved⟩
    · show sealedRecords .clientApp (s.trace ++ [_]) = _
      rw [sealedRecords_append, hwrote.sealed]
      exact List.append_nil _
    · show epoch .clientApp (s.trace ++ [_]) = _
      rw [epoch_append, hwrote.epoch]
      rfl

/-- Bytes are handed out. -/
theorem Together.deliver {s : System P W} (h : Together down up view consumed s)
    (pendingApp : Bytes) (pendingAppOffset pendingAppLength : ℕ) {evs : List Event}
    (hopened : openedRecords .serverApp evs = []) (hsealed : sealedRecords .clientApp evs = [])
    (hupdates : keyUpdatesTaken evs = 0) (hread : Interface.epoch .serverApp evs = 0)
    (hwrite : Interface.epoch .clientApp evs = 0) :
    Together down up view consumed { s with
      client := { s.client with
        pendingApp := pendingApp
        pendingAppOffset := pendingAppOffset
        pendingAppLength := pendingAppLength }
      trace := s.trace ++ evs } := by
  obtain ⟨written, hwrote, hserved⟩ := h.linked.link
  refine ⟨⟨h.state, h.empty, h.capacity, h.read, ?_, ?_⟩, h.linked.stream, ?_, written,
    ⟨hwrote.traffic, ?_, ?_⟩, hserved⟩
  · rw [keyUpdatesTaken_append, hupdates, h.updates, Nat.add_zero]
  · rw [epoch_append, hread, h.epoch, Nat.add_zero]
  · rw [openedRecords_append, hopened, h.linked.opened, List.append_nil]
  · rw [sealedRecords_append, hsealed, hwrote.sealed, List.append_nil]
  · rw [epoch_append, hwrite, hwrote.epoch, Nat.add_zero]

/-- Opening a record is no KeyUpdate. -/
theorem opened_afterOpen (record : Bytes) (s : System P W) :
    keyUpdatesTaken (afterOpen s .serverApp record).trace = keyUpdatesTaken s.trace ∧
      epoch .serverApp (afterOpen s .serverApp record).trace = epoch .serverApp s.trace := by
  constructor
  · exact keyUpdatesTaken_append s.trace _
  · exact epoch_append .serverApp s.trace _

/-- A record of application data was taken. -/
theorem consumed_data {s : System P W} (h : Consumed down consumed s) (bytes record : Bytes)
    (padding : ℕ) :
    Consumed down (consumed ++ [⟨.data bytes, padding⟩]) (afterOpen s .serverApp record) := by
  obtain ⟨hupdates, hepoch⟩ := opened_afterOpen record s
  refine ⟨h.state, h.empty, h.capacity, ?_, ?_, ?_⟩
  · rw [trafficAfter_concat, ← h.read]
    rfl
  · rw [hupdates, h.updates, keyUpdatesOf_concat]
    rfl
  · rw [hepoch, h.epoch, keyUpdatesOf_concat]
    rfl

/-- A record of messages was taken. -/
theorem consumed_messages {s s' : System P W} {messages : List PostMessage} {record : Bytes}
    (h : Consumed down consumed s) (padding : ℕ)
    (htook : Took messages (afterOpen s .serverApp record) s')
    (hempty : s'.client.deframer.buffer = [])
    (hpost : postMessages s'.trace = postMessages (afterOpen s .serverApp record).trace ++
      messages.map PostMessage.message) :
    Consumed down (consumed ++ [⟨.handshake messages, padding⟩]) s' := by
  obtain ⟨hupdates, hepoch⟩ := opened_afterOpen record s
  refine ⟨htook.state.trans h.state, hempty, htook.capacity.trans h.capacity, ?_, ?_, ?_⟩
  · rw [htook.read, trafficAfter_concat, ← h.read]
    rfl
  · rw [keyUpdatesOf_concat, ← h.updates, ← hupdates, ← countP_messages]
    unfold keyUpdatesTaken
    rw [hpost, List.countP_append]
  · rw [htook.epoch, hepoch, h.epoch, keyUpdatesOf_concat]

/-- **The loop of `recv`**, while the peer goes on. -/
theorem wp_recvRecords (hE : Joins P E view) (size fuel : ℕ) {s : System P W}
    (h : Together down up view consumed s) :
    wp (recvRecords E size fuel) (CallEnds E down up view) s := by
  induction fuel generalizing consumed s with
  | zero => exact wp_diverge _ _
  | succ fuel ih =>
    obtain ⟨stream, hstream⟩ := h.linked.stream
    obtain ⟨written, hwrote, hserved⟩ := h.linked.link
    rw [recvRecords_succ, wp_bind]
    apply wp_orFail
    refine wp_mono (readRecord_joins hE hstream hserved) ?_
    rintro r s' ⟨w, rfl, hr⟩
    cases r with
    | error e =>
      obtain ⟨he, taken', hserved'⟩ := hr
      refine ⟨apace_afterEnd hE ⟨consumed, written, taken', hserved', h.linked.opened,
        hwrote.sealed ▸ List.prefix_rfl⟩, ?_⟩
      · rintro e' he' -
        cases he'
        exact he
    | ok record =>
      obtain ⟨r, hfits, rfl, hserved'⟩ := hr
      have hlinked := linked_afterOpen h hwrote hserved'
      have hsame := h.toConsumed.world w
      rw [failing, thenWp_ok]
      rw [← h.read] at hlinked ⊢
      obtain ⟨content, padding⟩ := r
      cases content with
      | data bytes =>
        refine wp_congr (handleRecord_sealed E (t := contentApplicationData)
          { s with world := w } size fuel (by decide) (by decide) hfits.fragment) ?_
        rw [if_pos rfl]
        obtain ⟨pendingApp, pendingAppOffset, pendingAppLength, hrun, -⟩ :=
          recvData_run E bytes size (afterOpen { s with world := w } .serverApp
            (sealedRecord P s.client.serverAppKeys contentApplicationData bytes padding))
            (hfits.content.trans (Nat.le_add_right _ _))
        refine wp_of_run hrun ⟨?_, fun e he => by cases he⟩
        exact (Together.deliver ⟨consumed_data hsame bytes _ padding, hlinked⟩ pendingApp
          pendingAppOffset pendingAppLength rfl rfl rfl rfl rfl).apace
      | handshake messages =>
        refine wp_congr (handleRecord_sealed E (t := contentHandshake)
          { s with world := w } size fuel (by decide) (by decide) hfits.fragment) ?_
        rw [if_neg (by decide), if_neg (by decide), if_pos rfl, wp_bind]
        apply wp_orFail
        refine wp_mono (drained_processPostHandshake E
          (fun s s' hstep hopened => linked_of_readStep hstep hopened)
          (fun s hstate hs => wp_answer hE hstate hs) messages hlinked hsame.state hsame.empty
          hsame.capacity hfits.content) ?_
        intro r s' hr
        cases r with
        | error e =>
          obtain ⟨hparted, he⟩ := hr
          refine ⟨apace_afterEnd hE hparted, ?_⟩
          rintro e' he' hmemory
          cases he'
          exact Or.inr (he hmemory)
        | ok u =>
          obtain ⟨hs', htook, hempty, hpost⟩ := hr
          exact ih ⟨consumed_messages hsame padding htook hempty hpost, hs'⟩

/-- `recv` of a connected client. -/
theorem wp_recv (hE : Joins P E view) (fuel : ℕ) (receivedNull outNull : Bool) (size : ℕ)
    {s : System P W} (h : Apace down up view s) :
    wp (recv E fuel receivedNull outNull size) (fun r s' => Apace down up view s' ∧
      ∀ e, r = .error e → HasMemory E → e = .invalidArgument ∨ e = .closed ∨ e = .io) s := by
  unfold recv
  rw [wp_bind, wp_getClient, thenWp_ok]
  split
  · rw [wp_throw]
    refine ⟨h, fun e he _ => ?_⟩
    cases he
    exact Or.inl rfl
  split
  · rw [wp_throw]
    refine ⟨h, fun e he _ => ?_⟩
    cases he
    exact Or.inr (Or.inl rfl)
  next hstate =>
  obtain ⟨consumed, htogether⟩ := h.together (not_not.mp hstate)
  split
  · apply wp_recvPending_of
    intro bytes _
    refine ⟨?_, fun e he => by cases he⟩
    exact (htogether.deliver _ _ _ rfl rfl rfl rfl rfl).apace
  · refine wp_mono (wp_recvRecords hE size fuel htogether) ?_
    rintro r s' ⟨hs', he⟩
    exact ⟨hs', fun e hr hmemory => Or.inr (he e hr hmemory)⟩

/-! ## Writing -/

/-- A record that was sent is a step of writing. -/
theorem writeStep_sent (s : System P W) (record : Bytes) (w : W) :
    WriteStep s (afterSend s record w) :=
  ⟨⟨rfl, rfl, rfl, rfl, rfl⟩, rfl, rfl, [.sealed .clientApp s.client.clientAppKeys record,
    .wrote record], rfl, by simp [writeEvent]⟩

/-- Writing does not count for what was taken. -/
theorem together_of_writeStep {s s' : System P W} (hstep : WriteStep s s')
    (h : Together down up view consumed s) (hwrote : Wrote up written s')
    (hserved : Served P down up view consumed written (wire P down consumed).length s'.world) :
    Together down up view consumed s' := by
  obtain ⟨hopened, hpost, hepoch⟩ := hstep.opened
  refine ⟨⟨hstep.state.trans h.state, ?_, ?_, hstep.read.trans h.read, ?_, hepoch.trans h.epoch⟩,
    ?_, hopened.trans h.linked.opened, written, hwrote, hserved⟩
  · rw [hstep.deframer, h.empty]
  · rw [hstep.deframer, h.capacity]
  · unfold keyUpdatesTaken
    rw [hpost]
    exact h.updates
  · rw [hstep.config]
    exact h.linked.stream

/-- **The loop of `send`.** -/
theorem wp_sendLoop (hE : Joins P E view) (padding maxContent fuel : ℕ) (data : Bytes)
    {s : System P W} (h : Together down up view consumed s) :
    wp (sendLoop E padding maxContent fuel data) (fun _ s' => Apace down up view s') s := by
  induction fuel generalizing data s with
  | zero => exact wp_of_run rfl h.apace
  | succ fuel ih =>
    unfold sendLoop
    split
    · exact wp_of_run rfl h.apace
    obtain ⟨written, hwrote, hserved⟩ := h.linked.link
    dsimp only
    rw [wp_bind]
    apply wp_orFail
    refine wp_mono (wp_sendChunk hE padding _ h.linked hwrote hserved) ?_
    intro r s' hr
    cases r with
    | error e => exact apace_afterEnd hE hr.1
    | ok u =>
      obtain ⟨w, rfl, hw⟩ := hr
      exact ih _ (together_of_writeStep (writeStep_sent s _ w) h (wrote_data hwrote _ padding w) hw)

/-- `send`. -/
theorem wp_send (hE : Joins P E view) (null : Bool) (data : Bytes) {s : System P W}
    (h : Apace down up view s) : wp (send E null data) (fun _ s' => Apace down up view s') s := by
  unfold send
  rw [wp_bind, wp_getClient, thenWp_ok]
  split
  · exact wp_of_run rfl h
  next hstate =>
  split
  · exact wp_of_run rfl h
  obtain ⟨consumed, htogether⟩ := h.together (not_not.mp hstate)
  exact wp_sendLoop hE _ _ _ _ htogether

/-- `key_update`. -/
theorem wp_keyUpdate (hE : Joins P E view) (requestPeerUpdate : Bool) {s : System P W}
    (h : Apace down up view s) :
    wp (keyUpdate E requestPeerUpdate) (fun _ s' => Apace down up view s') s := by
  unfold keyUpdate
  rw [wp_bind, wp_getClient, thenWp_ok]
  split
  · exact wp_of_run rfl h
  next hstate =>
  obtain ⟨consumed, htogether⟩ := h.together (not_not.mp hstate)
  obtain ⟨written, hwrote, hserved⟩ := htogether.linked.link
  rw [wp_bind]
  apply wp_orFail
  refine wp_mono (wp_sendKeyUpdate hE requestPeerUpdate htogether.state htogether.linked hwrote
    hserved) ?_
  intro r s' hr
  cases r with
  | error e => exact apace_afterEnd hE hr.1
  | ok u =>
    obtain ⟨w, rfl, hw⟩ := hr
    rw [failing, thenWp_ok]
    refine wp_of_run (orFail_of_ok E (updateClientKeys_run _)) ?_
    exact (together_of_writeStep (writeStep_answered s _ w) htogether
      (wrote_keyUpdate hwrote requestPeerUpdate w) hw).apace

/-! ## Sessions -/

/-- A call that hands out no bytes. -/
theorem wp_noBytes {x : ClientM P W Unit} {K : System P W → Prop} {s : System P W}
    (h : wp x (fun _ s' => K s') s) :
    wp (do x; pure [] : ClientM P W Bytes)
      (fun r s' => K s' ∧ ∀ bytes, r = .ok bytes → bytes = []) s := by
  rw [wp_bind]
  refine wp_mono h ?_
  intro r s' hs'
  cases r with
  | error e => exact ⟨hs', fun _ he => by cases he⟩
  | ok u =>
    refine wp_of_run rfl ⟨hs', fun bytes hbytes => ?_⟩
    cases hbytes
    rfl

/-- One call. -/
theorem apace_call (hE : Joins P E view) {call : Call} (hcall : IsTraffic call) {s s' : System P W}
    {r : Except Error Bytes} (h : Apace down up view s) (hret : Returns E call s r s') :
    Apace down up view s' ∧ (HasMemory E → NoneUnopened [(call, r)]) := by
  obtain ⟨fuel, hrun⟩ := hret
  cases call with
  | send null data =>
    refine ⟨(wp_elim (wp_noBytes (wp_send hE null data h)) hrun).1, ?_⟩
    intro _ receivedNull outNull size e hmem
    cases List.mem_singleton.mp hmem
  | recv receivedNull outNull size =>
    obtain ⟨hs', he⟩ := wp_elim (wp_recv hE fuel receivedNull outNull size h) hrun
    refine ⟨hs', fun hmemory receivedNull' outNull' size' e hmem => ?_⟩
    cases List.mem_singleton.mp hmem
    exact he e rfl hmemory
  | keyUpdate requestPeerUpdate =>
    refine ⟨(wp_elim (wp_noBytes (wp_keyUpdate hE requestPeerUpdate h)) hrun).1, ?_⟩
    intro _ receivedNull outNull size e hmem
    cases List.mem_singleton.mp hmem
  | connect _ => cases hcall
  | reset => cases hcall
  | close => cases hcall

/-- **Every session keeps it.** -/
theorem apace_of_session (hE : Joins P E view) {s s' : System P W}
    {log : List (Call × Except Error Bytes)} (hrun : Session E view s log s')
    (hs : Apace down up view s) :
    Apace down up view s' ∧ (HasMemory E → NoneUnopened log) := by
  induction hrun with
  | start => exact ⟨hs, fun _ _ _ _ _ hmem => by cases hmem⟩
  | call _ hcall hret ih =>
    obtain ⟨hold, hnone⟩ := ih
    obtain ⟨hnew, hlast⟩ := apace_call hE hcall hold hret
    refine ⟨hnew, fun hmemory receivedNull outNull size e hmem => ?_⟩
    rcases List.mem_append.mp hmem with hbefore | hafter
    · exact hnone hmemory _ _ _ e hbefore
    · exact hlast hmemory _ _ _ e hafter
  | peer _ hsteps ih =>
    obtain ⟨hold, hnone⟩ := ih
    exact ⟨hold.steps hsteps, hnone⟩

/-! ## In step -/

/-- An update depends on the secret only. -/
theorem update_of_secret {t t' : Traffic} (h : t.secret = t'.secret) :
    (t.update P).secret = (t'.update P).secret := by
  have hsame := updateTrafficSecretSha256_eq P t'
  rw [← h, updateTrafficSecretSha256_eq P t] at hsame
  exact congrArg Prod.fst (Except.ok.inj hsame)

/-- Equal secrets stay equal under updates. -/
theorem iterate_update_of_secret (n : ℕ) {t t' : Traffic} (h : t.secret = t'.secret) :
    ((Traffic.update P)^[n] t).secret = ((Traffic.update P)^[n] t').secret := by
  induction n generalizing t t' with
  | zero => exact h
  | succ n ih =>
    rw [Function.iterate_succ_apply, Function.iterate_succ_apply]
    exact ih (update_of_secret h)

/-- The secret behind records is updated once for each KeyUpdate. -/
theorem trafficAfter_secret (t : Traffic) (records : List PeerRecord) :
    (trafficAfter P t records).secret =
      ((Traffic.update P)^[keyUpdatesOf records] t).secret := by
  induction records generalizing t with
  | nil => rfl
  | cons r records ih =>
    rw [trafficAfter, List.foldl_cons, keyUpdatesOf, Function.iterate_add_apply]
    refine (ih (r.next P t)).trans (iterate_update_of_secret _ ?_)
    exact iterate_update_of_secret _ rfl

/-- A record of the client holds a KeyUpdate if it counts as one. -/
theorem holdsKeyUpdate_seal (t : Traffic) {r : PeerRecord} (hr : IsClientRecord r) :
    (if holdsKeyUpdate P (t.keys, r.seal P t) then 1 else 0) = r.content.keyUpdates := by
  obtain ⟨hfits, hcontent⟩ := hr
  unfold holdsKeyUpdate
  rw [unprotect_seal t hfits]
  obtain ⟨content, padding⟩ := r
  rcases hcontent with ⟨bytes, rfl⟩ | ⟨requestUpdate, rfl⟩
  · rfl
  · cases requestUpdate <;> rfl

/-- The KeyUpdates of a client's records are found among the sealings. -/
theorem countP_sealings {written : List PeerRecord} (hwritten : ∀ r ∈ written, IsClientRecord r)
    (t : Traffic) : (sealings P t written).countP (holdsKeyUpdate P) = keyUpdatesOf written := by
  induction written generalizing t with
  | nil => rfl
  | cons r written ih =>
    have hrest := ih (fun r' hr' => hwritten r' (List.mem_cons_of_mem _ hr')) (r.next P t)
    rw [sealings, List.countP_cons, hrest, holdsKeyUpdate_seal t (hwritten r List.mem_cons_self),
      keyUpdatesOf]

/-- What the client sealed is what the peer opened, and what is on its way. -/
theorem reads_flatMap {l : Link} (h : Reads P up written l) :
    (sealings P up written).flatMap Prod.snd = l.opened.flatMap Prod.snd ++ l.toPeer := by
  obtain ⟨received, rest, rfl, hread, hopened, htoPeer⟩ := h
  rw [← wire_eq_sealings, wire_append, hopened, ← wire_eq_sealings, htoPeer, hread]

/-- Between two calls the sides are in step. -/
theorem Apace.inStep {s : System P W} (h : Apace down up view s) :
    InStep down up s.client s.trace (view s.world) := by
  obtain ⟨consumed, written, taken, ⟨more, hserves⟩, hopened, hsealed⟩ := h.parted
  refine ⟨?_, ?_, hserves.understands, ?_, ?_, ?_, ?_⟩
  · rw [hopened, hserves.sealed, sealings_append]
    exact List.prefix_append _ _
  · obtain ⟨received, rest, rfl, -, hreceived, -⟩ := hserves.reads
    rw [sealings_append, ← hreceived] at hsealed
    exact (List.prefix_append _ _).trans hsealed
  all_goals
    intro hstate
    obtain ⟨consumed, htogether⟩ := h.together hstate
    obtain ⟨written, hwrote, more, hserves⟩ := htogether.linked.link
  · rw [hserves.sealed, htogether.linked.opened, hserves.toClient, ← wire_eq_sealings,
      ← wire_eq_sealings, wire_append, List.drop_left]
  · rw [hwrote.sealed]
    exact reads_flatMap hserves.reads
  · refine ⟨?_, ?_⟩
    · rw [keyUpdatesSent, hwrote.sealed, countP_sealings hserves.written, hwrote.epoch]
    · rw [hwrote.traffic, hwrote.epoch, trafficAfter_secret]
  · refine ⟨htogether.epoch.trans htogether.updates.symm, ?_⟩
    rw [htogether.read, htogether.epoch, trafficAfter_secret]

/-- **In step**, when the deframer of the connected client is empty as the session starts: in
every session each side opens the records of the other with the keys and the sequence numbers
that they were sealed with, the peer understands all it gets, and the epochs of the client are
the numbers of KeyUpdates that it sent and took.  No call of `recv` fails because of a record. -/
theorem inStep_of_session {E : Env W} {view : W → Link} (hE : Joins P E view) {c : TlsClient P}
    (hreach : ReachableClient c) (hconn : c.state = .connected)
    (hempty : c.deframer.buffer = []) {w : W}
    (hfresh : view w = .fresh (readTraffic c) (writeTraffic c)) {s : System P W}
    {log : List (Call × Except Error Bytes)} (hrun : Session E view ⟨c, w, []⟩ log s) :
    InStep (readTraffic c) (writeTraffic c) s.client s.trace (view s.world) ∧
      (HasMemory E → NoneUnopened log) := by
  have hwrote : Wrote (writeTraffic c) [] (⟨c, w, []⟩ : System P W) := ⟨rfl, rfl, rfl⟩
  have hserved : Served P (readTraffic c) (writeTraffic c) view [] [] 0 w := by
    refine ⟨[], ?_⟩
    rw [hfresh]
    exact ⟨rfl, rfl, by simp, by simp, rfl, ⟨[], [], rfl, rfl, rfl, rfl⟩, by simp, rfl⟩
  have hstart : Together (readTraffic c) (writeTraffic c) view [] (⟨c, w, []⟩ : System P W) :=
    ⟨⟨hconn, hempty, (stored_of_reachable hreach).capacity, rfl, rfl, rfl⟩,
      stream_of_reachable hreach hconn, rfl, [], hwrote, hserved⟩
  obtain ⟨hend, hnone⟩ := apace_of_session hE hrun hstart.apace
  exact ⟨hend.inStep, hnone⟩

/-! ## A link without delay -/

/-- The peer takes a record as soon as it is complete. -/
def takeRecord (P : Crypto) (l : Link) : Link :=
  match parseRecordHeader l.toPeer with
  | .ok h =>
    if 5 + h.length ≤ l.toPeer.length then
      l.receive P (l.toPeer.take (5 + h.length)) (l.toPeer.drop (5 + h.length))
    else l
  | .error _ => l

/-- Taking a record is a step of the peer. -/
theorem steps_takeRecord (l : Link) : PeerSteps P l (takeRecord P l) := by
  unfold takeRecord
  split
  · next h hheader =>
    split
    · next hlength =>
      refine Relation.ReflTransGen.single (PeerStep.receive l h _ _ hheader ?_ ?_)
      · rw [List.length_take, min_eq_left hlength]
      · rw [List.take_append_drop]
    · exact Relation.ReflTransGen.refl
  · exact Relation.ReflTransGen.refl

/-- Sending records that fit is steps of the peer. -/
theorem steps_sends {records : List PeerRecord} (hfits : ∀ r ∈ records, r.Fits) (l : Link) :
    PeerSteps P l (records.foldl (Link.send P) l) := by
  induction records generalizing l with
  | nil => exact Relation.ReflTransGen.refl
  | cons r records ih =>
    refine Relation.ReflTransGen.head (PeerStep.send l r (hfits r List.mem_cons_self)) ?_
    exact ih (fun r' hr' => hfits r' (List.mem_cons_of_mem _ hr')) _

/-- The client's end of a link. -/
def linkEnv : Env Link where
  randomBytes _ n := pure (.zero n)
  sendAll _ bytes := fun l => some (.ok (), { l with toPeer := l.toPeer ++ bytes })
  recvSome _ n := fun l => some (.ok ⟨l.toClient.take n, List.length_take_le n l.toClient⟩,
    { l with toClient := l.toClient.drop n })
  close _ l := l
  verifyChain _ _ _ := Prog.throw .verify
  verifySignature _ _ _ _ _ := Prog.throw .verify
  malloc _ l := (true, l)
  sizeOfSize := 4
  writeBehind _ l := l
  readBehind _ n _ := .zero n

/-- The environment of the link joins client and peer. -/
theorem joins_linkEnv : Joins P linkEnv id where
  recvSome stream n l b l' h := by
    cases h
    refine ⟨l, l.toClient.drop n, Relation.ReflTransGen.refl, ?_, Relation.ReflTransGen.refl⟩
    exact (List.take_append_drop n l.toClient).symm
  sendAll stream bytes l l' h := by
    cases h
    exact ⟨l, Relation.ReflTransGen.refl, Relation.ReflTransGen.refl⟩
  recvStopped _ _ _ _ _ h := by cases h
  sendStopped _ _ _ _ _ h := by cases h
  malloc _ _ := Relation.ReflTransGen.refl
  close _ _ := Relation.ReflTransGen.refl

/-- Calls in a row are a session. -/
theorem session_of_run {E : Env W} {view : W → Link} {s s' s'' : System P W}
    {log log' : List (Call × Except Error Bytes)} (h : Session E view s log s')
    (hrun : Run E s' log' s'') (hcalls : ∀ entry ∈ log', IsTraffic entry.1) :
    Session E view s (log ++ log') s'' := by
  induction hrun with
  | nil => rwa [List.append_nil]
  | snoc _ hret ih =>
    have hold := ih fun entry hentry => hcalls entry (List.mem_append_left _ hentry)
    rw [← List.append_assoc]
    exact hold.call (hcalls _ (List.mem_append_right _ (List.mem_singleton_self _))) hret

/-- The client after a handshake that leaves these messages behind the server's Finished. -/
def handshakeDone (messages : Bytes) : Option (TlsClient blankCrypto) := do
  let (_, s) ← runTls scriptEnv 9 [.connect (scriptConfig 0)]
    (System.fresh blankCrypto (blankHandshake messages))
  pure s.client

/-- The link to it, on which the peer has sent records. -/
def linkAfter (c : TlsClient blankCrypto) (records : List PeerRecord) : Link :=
  records.foldl (Link.send blankCrypto) (Link.fresh (readTraffic c) (writeTraffic c))

/-- What these calls return, and whether the client opened the records of the peer as they were
sealed; first whether it is connected and what its deframer holds before them. -/
def linkCalls (messages : Bytes) (records : List PeerRecord) (calls : List Call) :
    Option ((Bool × Bytes) × List (Option Bytes) × Bool) := do
  let c ← handshakeDone messages
  let (log, s) ← runTls linkEnv 9 calls ⟨c, linkAfter c records, []⟩
  pure ((c.state = .connected, c.deframer.buffer), log.map fun entry => entry.2.toOption,
    openedRecords .serverApp s.trace <+: s.world.sealed)

/-- Evaluated calls over the link are a session. -/
theorem session_of_linkCalls {messages buffer : Bytes} {records : List PeerRecord}
    (hfits : ∀ r ∈ records, r.Fits) {calls : List Call} (hcalls : ∀ call ∈ calls, IsTraffic call)
    {results : List (Option Bytes)} {opens : Bool}
    (h : linkCalls messages records calls = some ((true, buffer), results, opens)) :
    ∃ (c : TlsClient blankCrypto) (s : System blankCrypto Link)
      (log : List (Call × Except Error Bytes)), ReachableClient c ∧ c.state = .connected ∧
      c.deframer.buffer = buffer ∧
      Session linkEnv id ⟨c, .fresh (readTraffic c) (writeTraffic c), []⟩ log s ∧
      log.map (fun entry => entry.2.toOption) = results ∧
      (openedRecords .serverApp s.trace <+: s.world.sealed ↔ opens = true) := by
  unfold linkCalls handshakeDone at h
  simp only [Option.bind_eq_bind, Option.bind_eq_some_iff, Prod.exists] at h
  obtain ⟨c, ⟨log₁, s₁, hconnect, hclient⟩, log, s, hrun, hresult⟩ := h
  obtain rfl : s₁.client = c := Option.some.inj hclient
  obtain ⟨hstate, hresult⟩ := Prod.mk.inj (Option.some.inj hresult)
  obtain ⟨hconn, hbuffer⟩ := Prod.mk.inj hstate
  obtain ⟨hresults, hopens⟩ := Prod.mk.inj hresult
  refine ⟨s₁.client, s, log, ⟨_, _, _, _, s₁, run_of_runTls hconnect, rfl⟩,
    of_decide_eq_true hconn, hbuffer, ?_, hresults, ?_⟩
  · have hstart : Session linkEnv id
        ⟨s₁.client, .fresh (readTraffic s₁.client) (writeTraffic s₁.client), []⟩ [] _ := .start _
    have hsent := hstart.peer (steps_sends hfits _)
    refine session_of_run hsent (run_of_runTls hrun) fun entry hentry => hcalls _ ?_
    rw [← calls_of_runTls hrun]
    exact List.mem_map_of_mem hentry
  · rw [← hopens, decide_eq_true_iff]

/-- A session in which each side updates its keys, and the peer takes what it got. -/
theorem inStep_of_updates : ∃ (c : TlsClient blankCrypto) (s : System blankCrypto Link)
    (log : List (Call × Except Error Bytes)), ReachableClient c ∧ c.state = .connected ∧
    Session linkEnv id ⟨c, .fresh (readTraffic c) (writeTraffic c), []⟩ log s ∧
    log.map (fun entry => entry.2.toOption) = [some [1], some [], some [2, 3]] ∧
    InStep (readTraffic c) (writeTraffic c) s.client s.trace s.world ∧ NoneUnopened log := by
  have hresult : linkCalls blankFinished sentRecords
      [.recv false false 5, .keyUpdate true, .recv false false 5] =
      some ((true, []), [some [1], some [], some [2, 3]], true) := by
    decide +kernel
  have hcalls : ∀ call ∈ [Call.recv false false 5, .keyUpdate true, .recv false false 5],
      IsTraffic call := by
    simp [IsTraffic]
  obtain ⟨c, s, log, hreach, hconn, hempty, hrun, hresults, -⟩ :=
    session_of_linkCalls fits_sentRecords hcalls hresult
  have htaken := hrun.peer (w := takeRecord blankCrypto (takeRecord blankCrypto s.world))
    ((steps_takeRecord s.world).trans (steps_takeRecord _))
  obtain ⟨hinStep, hnone⟩ := inStep_of_session joins_linkEnv hreach hconn hempty rfl htaken
  exact ⟨c, _, log, hreach, hconn, htaken, hresults, hinStep, hnone fun _ _ => rfl⟩

/-- **A KeyUpdate behind leftover bytes**: four bytes behind the server's Finished make the next
KeyUpdate the body of a ticket, and the client opens what follows with the old keys. -/
theorem update_swallowed : ∃ (c : TlsClient blankCrypto) (s : System blankCrypto Link)
    (log : List (Call × Except Error Bytes)), ReachableClient c ∧ c.state = .connected ∧
    Joins blankCrypto linkEnv id ∧
    Session linkEnv id ⟨c, .fresh (readTraffic c) (writeTraffic c), []⟩ log s ∧
    log.map (fun entry => entry.2.toOption) = [some [1]] ∧
    ¬ InStep (readTraffic c) (writeTraffic c) s.client s.trace s.world := by
  have hresult : linkCalls (blankFinished ++ [4, 0, 0, 5])
      [⟨.handshake [.keyUpdate false], 0⟩, ⟨.data [1], 0⟩] [.recv false false 5] =
      some ((true, [4, 0, 0, 5]), [some [1]], false) := by
    decide +kernel
  have hfits : ∀ r ∈ [(⟨.handshake [.keyUpdate false], 0⟩ : PeerRecord), ⟨.data [1], 0⟩],
      r.Fits := by
    intro r hr
    simp only [List.mem_cons, List.not_mem_nil, or_false] at hr
    rcases hr with rfl | rfl <;> exact ⟨by decide, by decide⟩
  obtain ⟨c, s, log, hreach, hconn, -, hrun, hresults, hopens⟩ :=
    session_of_linkCalls hfits (by simp [IsTraffic]) hresult
  refine ⟨c, s, log, hreach, hconn, joins_linkEnv, hrun, hresults, fun hinStep => ?_⟩
  cases hopens.mp hinStep.clientOpens

end XboxTls.Analysis
