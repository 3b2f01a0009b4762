import Mathlib.Logic.Relation
import XboxTls.Interface.PeerTraffic

/-!
# A client and a peer on two channels

A peer that follows the rules of the client for its own keys, the two channels between them
in which no byte is lost, and the runs in which both act in any order.
-/

set_option autoImplicit false

namespace XboxTls.Interface

open XboxTls.Model

/-- A record with the keys that it was sealed or opened with. -/
abbrev KeyedRecord : Type := TrafficKeys × Bytes

/-- Records as they are sealed, each with the keys of its turn. -/
def sealings (P : Crypto) : Traffic → List PeerRecord → List KeyedRecord
  | _, [] => []
  | t, r :: records => (t.keys, r.seal P t) :: sealings P (r.next P t) records

/-! ## The peer -/

/-- The two directions of the peer, the bytes that are on their way, and the records that the
peer sealed and opened.  It has failed when it could not open or understand what it received. -/
structure Link where
  read : Traffic
  write : Traffic
  toClient : Bytes
  toPeer : Bytes
  sealed : List KeyedRecord
  opened : List KeyedRecord
  failed : Bool

/-- Nothing was sent yet; `down` is the direction to the client, `up` the one from it. -/
def Link.fresh (down up : Traffic) : Link := ⟨up, down, [], [], [], [], false⟩

section Peer

variable (P : Crypto)

/-- The peer sends a record; a KeyUpdate in it replaces the keys behind it. -/
def Link.send (l : Link) (r : PeerRecord) : Link :=
  { l with
    write := r.next P l.write
    toClient := l.toClient ++ r.seal P l.write
    sealed := l.sealed ++ [(l.write.keys, r.seal P l.write)] }

/-- The peer takes a KeyUpdate from the client. -/
def Link.updateRead (l : Link) : Link := { l with read := l.read.update P }

/-- The peer takes what a record held, and answers a KeyUpdate that requests it. -/
def Link.accept (l : Link) (innerType : UInt8) (content : Bytes) : Link :=
  if innerType = contentApplicationData then l
  else if innerType = contentHandshake ∧ content = keyUpdateMessage false then l.updateRead P
  else if innerType = contentHandshake ∧ content = keyUpdateMessage true then
    (l.updateRead P).send P ⟨.handshake [.keyUpdate false], 0⟩
  else { l with failed := true }

/-- The peer takes a record off its channel, which leaves `rest`. -/
def Link.receive (l : Link) (record rest : Bytes) : Link :=
  match unprotectRecordAes128Gcm P l.read.keys record 16640 with
  | .error _ => { l with toPeer := rest, failed := true }
  | .ok o =>
    { l with
      read := { l.read with keys := o.keys }
      toPeer := rest
      opened := l.opened ++ [(l.read.keys, record)] }.accept P o.innerType o.content

/-- What the peer can do: send a record, take one, or find that there is none at the front. -/
inductive PeerStep : Link → Link → Prop where
  | send (l : Link) (r : PeerRecord) (hfits : r.Fits) : PeerStep l (l.send P r)
  | receive (l : Link) (h : RecordHeader) (record rest : Bytes)
      (hheader : parseRecordHeader l.toPeer = .ok h) (hlength : record.length = 5 + h.length)
      (hsplit : l.toPeer = record ++ rest) : PeerStep l (l.receive P record rest)
  | reject (l : Link) (hheader : parseRecordHeader l.toPeer = .error .badRecord) :
      PeerStep l { l with failed := true }

/-- Any number of steps of the peer. -/
def PeerSteps : Link → Link → Prop := Relation.ReflTransGen (PeerStep P)

end Peer

/-! ## The client's side -/

/-- The stream of the client is its end of the link.  The peer acts at any time; a call may stop
with `XT_ERR_IO`, also while it waits. -/
structure Joins (P : Crypto) {W : Type} (E : Env W) (view : W → Link) : Prop where
  recvSome : ∀ stream n w b w', E.recvSome stream n w = some (.ok b, w') → ∃ l rest,
    PeerSteps P (view w) l ∧ l.toClient = b.val ++ rest ∧
      PeerSteps P { l with toClient := rest } (view w')
  sendAll : ∀ stream bytes w w', E.sendAll stream bytes w = some (.ok (), w') → ∃ l,
    PeerSteps P (view w) l ∧ PeerSteps P { l with toPeer := l.toPeer ++ bytes } (view w')
  recvStopped : ∀ stream n w e w', E.recvSome stream n w = some (.error e, w') →
    e = .io ∧ PeerSteps P (view w) (view w')
  sendStopped : ∀ stream bytes w e w', E.sendAll stream bytes w = some (.error e, w') →
    e = .io ∧ PeerSteps P (view w) (view w')
  malloc : ∀ n w, PeerSteps P (view w) (view (E.malloc n w).2)
  close : ∀ stream w, PeerSteps P (view w) (view (E.close stream w))

/-- The calls of a connected client that carry traffic. -/
def IsTraffic : Call → Prop
  | .send _ _ | .recv _ _ _ | .keyUpdate _ => True
  | _ => False

/-- Calls of the client and steps of the peer, in any order. -/
inductive Session {P : Crypto} {W : Type} (E : Env W) (view : W → Link) :
    System P W → List (Call × Except Error Bytes) → System P W → Prop where
  | start (s : System P W) : Session E view s [] s
  | call {s s' s'' : System P W} {log : List (Call × Except Error Bytes)} {call : Call}
      {r : Except Error Bytes} :
      Session E view s log s' → IsTraffic call → Returns E call s' r s'' →
        Session E view s (log ++ [(call, r)]) s''
  | peer {s s' : System P W} {log : List (Call × Except Error Bytes)} {w : W} :
      Session E view s log s' → PeerSteps P (view s'.world) (view w) →
        Session E view s log { s' with world := w }

/-! ## Epochs -/

/-- How often the keys of a slot were derived. -/
def epoch (slot : KeySlot) (evs : List Event) : ℕ :=
  evs.countP fun ev => match ev with
    | .keysDerived slot' _ => slot' = slot
    | _ => false

/-- The record holds a KeyUpdate. -/
def holdsKeyUpdate (P : Crypto) (record : KeyedRecord) : Bool :=
  match unprotectRecordAes128Gcm P record.1 record.2 16640 with
  | .error _ => false
  | .ok o => o.innerType = contentHandshake ∧
      (o.content = keyUpdateMessage false ∨ o.content = keyUpdateMessage true)

/-- How many KeyUpdates the client sent. -/
def keyUpdatesSent (P : Crypto) (evs : List Event) : ℕ :=
  (sealedRecords .clientApp evs).countP (holdsKeyUpdate P)

/-- How many KeyUpdates the client took. -/
def keyUpdatesTaken (evs : List Event) : ℕ :=
  (postMessages evs).countP fun msg => msg.type = hsKeyUpdate

/-- The two sides are in step.  Each opens the records of the other in order and with the keys
and the sequence numbers that they were sealed with.  While the client is connected, its epochs
are the numbers of KeyUpdates that it sent and took, and whatever was sealed was opened or is
still on its way. -/
structure InStep {P : Crypto} (down up : Traffic) (c : TlsClient P) (evs : List Event)
    (l : Link) : Prop where
  clientOpens : openedRecords .serverApp evs <+: l.sealed
  peerOpens : l.opened <+: sealedRecords .clientApp evs
  peerUnderstands : l.failed = false
  toClient : c.state = .connected → l.sealed.flatMap Prod.snd =
    (openedRecords .serverApp evs).flatMap Prod.snd ++ l.toClient
  toPeer : c.state = .connected → (sealedRecords .clientApp evs).flatMap Prod.snd =
    l.opened.flatMap Prod.snd ++ l.toPeer
  sendEpoch : c.state = .connected → epoch .clientApp evs = keyUpdatesSent P evs ∧
    (writeTraffic c).secret = ((Traffic.update P)^[epoch .clientApp evs] up).secret
  receiveEpoch : c.state = .connected → epoch .serverApp evs = keyUpdatesTaken evs ∧
    (readTraffic c).secret = ((Traffic.update P)^[epoch .serverApp evs] down).secret

/-- The calls of `recv` that did not return bytes were refused for their arguments or on a
client that is not connected, or were stopped by the stream. -/
def NoneUnopened (log : List (Call × Except Error Bytes)) : Prop :=
  ∀ receivedNull outNull size e, (.recv receivedNull outNull size, .error e) ∈ log →
    e = .invalidArgument ∨ e = .closed ∨ e = .io

end XboxTls.Interface
