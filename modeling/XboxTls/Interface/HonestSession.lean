import XboxTls.Interface.Delivery
import XboxTls.Interface.HonestServer
import XboxTls.Interface.PeerLink

/-!
# A session with an honest server

What an honest server sends behind its flight, under the keys of its own schedule, and what the
calls of a client that has completed with it have to do.
-/

set_option autoImplicit false

namespace XboxTls.Interface

open Programs XboxTls.Model

section Directions

variable (P : Crypto) (server : Server) (shared : FixedBytes 32) (hello : Bytes)

/-- The direction to the client, as the server derives it. -/
def Server.down : Traffic where
  secret := .ofBytes 32 (server.secrets P shared hello).serverApplication
  keys := Standard.trafficKeys (Standard.digest P)
    (server.secrets P shared hello).serverApplication

/-- The direction from the client, as the server derives it. -/
def Server.up : Traffic where
  secret := .ofBytes 32 (server.secrets P shared hello).clientApplication
  keys := Standard.trafficKeys (Standard.digest P)
    (server.secrets P shared hello).clientApplication

end Directions

variable {P : Crypto}

/-- Every run of `recv` calls delivers the application bytes of these records and then the close,
and every further call returns. -/
def DeliversAll {W : Type} (E : Env W) (records : List PeerRecord) (s : System P W) : Prop :=
  ∀ log s', Run E s log s' → (∀ entry ∈ log, IsRecv entry.1) →
    DeliversExactly (appBytes records) log ∧
    (∀ call, IsRecv call → ∃ r s'', Returns E call s' r s'') ∧
    ((∀ entry ∈ log, 0 < capacityOf entry.1) →
      (appBytes records).length + records.length < log.length →
      ∃ call, (call, .error .closed) ∈ log)

/-- Every session over two channels to a peer that starts with these two directions is in step,
and no `recv` of it fails because of a record. -/
def StaysInStep (down up : Traffic) (c : TlsClient P) : Prop :=
  ∀ (W : Type) (E : Env W) (view : W → Link) (w : W) (log : List (Call × Except Error Bytes))
    (s : System P W), Joins P E view → view w = .fresh down up → Session E view ⟨c, w, []⟩ log s →
    InStep down up s.client s.trace (view s.world) ∧
      ((∀ n w, (E.malloc n w).1 = true) → NoneUnopened log)

/-- `connect` completes with this server whenever it replies to the ClientHello of these parameters
and gets this secret, and then the client converses with it: what the server sends behind its
flight on the same stream is delivered, and over channels to the server every session is in
step. -/
def ConversesWith (P : Crypto) {W : Type} (E : Env W) (config : ClientConfig) (s : System P W)
    (heard : Bytes) (p : ClientHelloParams) (sent : Bytes) (server : Server)
    (shared : FixedBytes 32) : Prop :=
  ∀ (S : Segmentation) (ended : Option Error) (t : S.State) (reply : Reply)
    (records : List PeerRecord) (level : UInt8) (padding : ℕ) (rest : Bytes),
    server.Shows E config → server.Replies P p sent shared reply →
    (∀ r ∈ records, r.Fits) → padding ≤ 16621 →
    S.left t = heard ++ server.replyBytes P sent shared reply ++
      (wire P (server.down P shared (sent ++ reply.hello.encode)) records ++
        (closeNotify P (trafficAfter P (server.down P shared (sent ++ reply.hello.encode)) records)
          level padding ++ rest)) →
    ∃ s' : System P (S.State × W), Returns (segmented S ended E) (.connect config)
      ⟨s.client, (t, s.world), s.trace⟩ (.ok []) s' ∧
      DeliversAll (segmented S ended E) records s' ∧
      StaysInStep (server.down P shared (sent ++ reply.hello.encode))
        (server.up P shared (sent ++ reply.hello.encode)) s'.client

/-- The client converses with every server, where shares of the group give one secret. -/
def Converses (P : Crypto) {W : Type} (E : Env W) (config : ClientConfig) (s : System P W)
    (heard : Bytes) (p : ClientHelloParams) (sent : Bytes) : Prop :=
  ∀ server shared, KeysAgree P p.group → ConversesWith P E config s heard p sent server shared

/-- With every server that has a key for its share there is a secret, and the client converses
with it. -/
def Meets (P : Crypto) {W : Type} (E : Env W) (config : ClientConfig) (s : System P W)
    (heard : Bytes) (p : ClientHelloParams) (sent : Bytes) : Prop :=
  ∀ server : Server, KeyShareOf P p.group server.key server.share.share →
    ∃ shared, sharedSecret P p.group server.key p.keyShare = .ok shared ∧
      ConversesWith P E config s heard p sent server shared

end XboxTls.Interface
