import XboxTls.Interface.Deframing
import XboxTls.Interface.Segmentation

/-!
# The encrypted flight in records

The handshake messages of a server can be cut into records in many ways.  `Cuts` is any of them,
with messages split or put together, and `HasRoom` singles out those that the reassembly buffer
of the client can take.
-/

set_option autoImplicit false

namespace XboxTls.Interface

open Programs XboxTls.Model

/-- A record of the flight before it is sealed. -/
structure FlightRecord where
  content : Bytes
  padding : ℕ
  deriving DecidableEq, Repr

/-- The contents of records, one after the other. -/
def contents (cut : List FlightRecord) : Bytes := cut.flatMap FlightRecord.content

/-- The messages, one after the other. -/
def flightBytes (messages : List OutgoingMessage) : Bytes :=
  messages.flatMap OutgoingMessage.encode

/-- The records on the wire, sealed one after the other from these keys on. -/
def sealFlight (P : Crypto) : TrafficKeys → List FlightRecord → Bytes
  | _, [] => []
  | keys, r :: cut =>
    sealedRecord P keys contentHandshake r.content r.padding ++ sealFlight P keys.advance cut

/-- A way of cutting the messages into records of 1 to 16384 bytes; the padding fits too. -/
structure Cuts (messages : List OutgoingMessage) (cut : List FlightRecord) : Prop where
  contents : contents cut = flightBytes messages
  size : ∀ r ∈ cut, 1 ≤ r.content.length ∧ r.content.length ≤ 16384
  padding : ∀ r ∈ cut, r.content.length + 1 + r.padding + 16 ≤ 16640

/-- No record overflows the reassembly buffer: when the records before it hold some messages
and a part of the next, this part and the record are at most 32768 bytes. -/
def HasRoom (messages : List OutgoingMessage) (cut : List FlightRecord) : Prop :=
  ∀ before r after done m todo held, cut = before ++ r :: after → messages = done ++ m :: todo →
    contents before = flightBytes done ++ held → held.length < m.encode.length →
    held.length + r.content.length ≤ 32768

/-- A record of the server that is not encrypted. -/
def IsPlain (record : Bytes) : Prop := IsRecord record ∧ byteAt record 0 ≠ contentApplicationData

section Client

variable {P : Crypto} {W : Type} (E : Env W)

/-- `connect` as far as the handshake keys. -/
def helloPhase (fuel : ℕ) (config : ClientConfig) : ClientM P W Unit := do
  let c ← getClient
  if c.state ≠ .idle ∨ config.usable = false then Prog.throw .invalidArgument
  else do
    modifyClient (beginConnect config)
    emit (.connect config)
    let h ← startHello E config
    let (sh, h) ← helloLoop E fuel h
    deriveHandshakeKeys E sh h.activeGroup

/-- The messages of the flight one after the other, up to a Finished. -/
def takeFlight : List OutgoingMessage → FlightLocals → ClientM P W FlightLocals
  | [], l => pure l
  | m :: messages, l =>
    if l.gotFinished then pure l
    else do
      let l' ← handleHandshakeMessage E m.received l
      takeFlight messages l'

/-- The flight without records: messages, and where they do not end it what comes after them. -/
def flightOf (next : FlightLocals → ClientM P W Unit) (messages : List OutgoingMessage)
    (l : FlightLocals) : ClientM P W Unit := do
  let l' ← takeFlight E messages l
  if l'.gotFinished then pure () else next l'

/-- The flight behind records that are not encrypted. -/
def flightFrom (next : FlightLocals → ClientM P W Unit) (messages : List OutgoingMessage) :
    List Bytes → FlightLocals → ClientM P W Unit
  | [], l => flightOf E next messages l
  | record :: plain, l => do
    let rh ← Prog.lift (parseRecordHeader record)
    if rh.type = contentChangeCipherSpec then do
      emit (.changeCipherSpec .handshake record)
      flightFrom next messages plain l
    else if rh.type = contentAlert then do
      let e ← handleAlert (slice record 5 rh.length)
      Prog.throw e
    else Prog.throw .badRecord

/-- The client without what the way of cutting leaves in it: the bytes in the deframer, and how
many records the handshake keys of the server have opened. -/
def uncut (c : TlsClient P) : TlsClient P :=
  { c with
    deframer := c.deframer.reset
    serverHsKeys := { c.serverHsKeys with sequenceNumber := 0 } }

end Client

end XboxTls.Interface
