import Mathlib.Logic.Function.Iterate
import XboxTls.Model.Api

/-!
# What a peer sends on a connection

The records of a peer after the handshake: application data, and whole NewSessionTicket and
KeyUpdate messages.  Each is sealed with the keys of one direction, which a KeyUpdate replaces.
-/

set_option autoImplicit false

namespace XboxTls.Interface

open XboxTls.Model

/-! ## One direction -/

/-- The secret and the keys of one direction. -/
structure Traffic where
  secret : FixedBytes 32
  keys : TrafficKeys
  deriving DecidableEq, Repr

/-- After one record. -/
def Traffic.advance (t : Traffic) : Traffic := { t with keys := t.keys.advance }

/-- After a KeyUpdate. -/
def Traffic.update (P : Crypto) (t : Traffic) : Traffic :=
  match updateTrafficSecretSha256 P t.secret with
  | .ok (next, keys) => ⟨next, keys⟩
  | .error _ => t

/-- The direction from the server to the client. -/
def readTraffic {P : Crypto} (c : TlsClient P) : Traffic :=
  ⟨c.schedule.serverApplicationTrafficSecret, c.serverAppKeys⟩

/-- The direction from the client to the server. -/
def writeTraffic {P : Crypto} (c : TlsClient P) : Traffic :=
  ⟨c.schedule.clientApplicationTrafficSecret, c.clientAppKeys⟩

/-- The code's update is the update of a direction. -/
theorem updateTrafficSecretSha256_eq (P : Crypto) (t : Traffic) :
    updateTrafficSecretSha256 P t.secret = .ok ((t.update P).secret, (t.update P).keys) := by
  obtain ⟨next, keys, hupdate, -, -⟩ := updateTrafficSecretSha256_isOk P t.secret
  unfold Traffic.update
  rw [hupdate]

/-! ## Records -/

/-- A message after the handshake. -/
inductive PostMessage where
  | newSessionTicket (body : Bytes)
  | keyUpdate (requestUpdate : Bool)
  deriving DecidableEq, Repr

def PostMessage.encode : PostMessage → Bytes
  | .newSessionTicket body => [hsNewSessionTicket] ++ storeBe24 body.length ++ body
  | .keyUpdate requestUpdate => keyUpdateMessage requestUpdate

def PostMessage.isKeyUpdate : PostMessage → Bool
  | .newSessionTicket _ => false
  | .keyUpdate _ => true

/-- What a deframer makes of it. -/
def PostMessage.message (m : PostMessage) : HandshakeMessage :=
  match m with
  | .newSessionTicket body => ⟨hsNewSessionTicket, body, m.encode⟩
  | .keyUpdate requestUpdate => ⟨hsKeyUpdate, [if requestUpdate then 1 else 0], m.encode⟩

/-- The type byte of a ticket. -/
@[simp] theorem PostMessage.type_newSessionTicket (body : Bytes) :
    (newSessionTicket body).message.type = hsNewSessionTicket := rfl

/-- The type byte of a KeyUpdate. -/
@[simp] theorem PostMessage.type_keyUpdate (requestUpdate : Bool) :
    (keyUpdate requestUpdate).message.type = hsKeyUpdate := rfl

/-- The body of a KeyUpdate says whether one is asked for. -/
@[simp] theorem PostMessage.body_keyUpdate (requestUpdate : Bool) :
    (keyUpdate requestUpdate).message.body = [if requestUpdate then 1 else 0] := rfl

/-- Messages one after the other. -/
def encodeMessages (messages : List PostMessage) : Bytes := messages.flatMap PostMessage.encode

/-- What a record holds. -/
inductive Content where
  | data (bytes : Bytes)
  | handshake (messages : List PostMessage)
  deriving DecidableEq, Repr

def Content.innerType : Content → UInt8
  | .data _ => contentApplicationData
  | .handshake _ => contentHandshake

def Content.bytes : Content → Bytes
  | .data bytes => bytes
  | .handshake messages => encodeMessages messages

/-- The application bytes in a record. -/
def Content.appBytes : Content → Bytes
  | .data bytes => bytes
  | .handshake _ => []

/-- The KeyUpdate messages in a record. -/
def Content.keyUpdates : Content → ℕ
  | .data _ => 0
  | .handshake messages => messages.countP PostMessage.isKeyUpdate

/-- The KeyUpdates of a record are counted message by message. -/
theorem keyUpdates_cons (m : PostMessage) (messages : List PostMessage) :
    (Content.handshake (m :: messages)).keyUpdates =
      (Content.handshake messages).keyUpdates + (Content.handshake [m]).keyUpdates := by
  show (m :: messages).countP _ = messages.countP _ + [m].countP _
  rw [← List.singleton_append, List.countP_append, Nat.add_comm]

/-- A record before it is sealed. -/
structure PeerRecord where
  content : Content
  padding : ℕ
  deriving DecidableEq, Repr

/-- It has at most 16384 bytes of content, and its padding fits too. -/
structure PeerRecord.Fits (r : PeerRecord) : Prop where
  content : r.content.bytes.length ≤ 16384
  fragment : r.content.bytes.length + 1 + r.padding + 16 ≤ 16640

section Sealing

variable (P : Crypto)

/-- The record on the wire. -/
def PeerRecord.seal (t : Traffic) (r : PeerRecord) : Bytes :=
  sealedRecord P t.keys r.content.innerType r.content.bytes r.padding

/-- The direction after a record: its KeyUpdates take effect behind it. -/
def PeerRecord.next (t : Traffic) (r : PeerRecord) : Traffic :=
  (Traffic.update P)^[r.content.keyUpdates] t.advance

/-- The direction after records. -/
def trafficAfter (t : Traffic) (records : List PeerRecord) : Traffic :=
  records.foldl (PeerRecord.next P) t

/-- The records on the wire, in order. -/
def wire : Traffic → List PeerRecord → Bytes
  | _, [] => []
  | t, r :: records => r.seal P t ++ wire (r.next P t) records

end Sealing

/-- The application bytes of records, in order. -/
def appBytes (records : List PeerRecord) : Bytes := records.flatMap fun r => r.content.appBytes

/-- No records carry no application bytes. -/
@[simp] theorem appBytes_nil : appBytes [] = [] := rfl

/-- The bytes of the first record stand before the others. -/
@[simp] theorem appBytes_cons (r : PeerRecord) (records : List PeerRecord) :
    appBytes (r :: records) = r.content.appBytes ++ appBytes records :=
  List.flatMap_cons

/-- The KeyUpdates in records. -/
def keyUpdatesOf : List PeerRecord → ℕ
  | [] => 0
  | r :: records => keyUpdatesOf records + r.content.keyUpdates

/-- The KeyUpdates of more records are those of both parts. -/
theorem keyUpdatesOf_append (a b : List PeerRecord) :
    keyUpdatesOf (a ++ b) = keyUpdatesOf a + keyUpdatesOf b := by
  induction a with
  | nil => exact (Nat.zero_add _).symm
  | cons r a ih =>
    show keyUpdatesOf (a ++ b) + _ = keyUpdatesOf a + _ + _
    rw [ih]
    omega

/-- One more record adds its KeyUpdates. -/
theorem keyUpdatesOf_concat (records : List PeerRecord) (r : PeerRecord) :
    keyUpdatesOf (records ++ [r]) = keyUpdatesOf records + r.content.keyUpdates := by
  rw [keyUpdatesOf_append]
  show _ + (0 + _) = _
  rw [Nat.zero_add]

/-! ## Traces -/

/-- The records that were opened with the keys of a slot, with these keys. -/
def openedRecords (slot : KeySlot) (evs : List Event) : List (TrafficKeys × Bytes) :=
  evs.filterMap fun ev => match ev with
    | .opened slot' keys record => if slot' = slot then some (keys, record) else none
    | _ => none

/-- The records that were sealed with the keys of a slot, with these keys. -/
def sealedRecords (slot : KeySlot) (evs : List Event) : List (TrafficKeys × Bytes) :=
  evs.filterMap fun ev => match ev with
    | .sealed slot' keys record => if slot' = slot then some (keys, record) else none
    | _ => none

/-- The messages after the handshake that were processed. -/
def postMessages (evs : List Event) : List HandshakeMessage :=
  evs.filterMap fun ev => match ev with
    | .postHandshake msg => some msg
    | _ => none

/-- The records opened in a longer trace are those of its parts. -/
theorem openedRecords_append (slot : KeySlot) (a b : List Event) :
    openedRecords slot (a ++ b) = openedRecords slot a ++ openedRecords slot b :=
  List.filterMap_append

/-- The records sealed in a longer trace are those of its parts. -/
theorem sealedRecords_append (slot : KeySlot) (a b : List Event) :
    sealedRecords slot (a ++ b) = sealedRecords slot a ++ sealedRecords slot b :=
  List.filterMap_append

/-- The messages handled in a longer trace are those of its parts. -/
theorem postMessages_append (a b : List Event) :
    postMessages (a ++ b) = postMessages a ++ postMessages b :=
  List.filterMap_append

end XboxTls.Interface
