import XboxTls.Interface.HandshakeLog
import XboxTls.Interface.PlainCrypto

/-!
# A server that follows a script

An outside world in which the server has already decided which bytes it sends, the random
source gives zeros, every write is accepted and the verifier refuses every certificate.
A run over it is a run that the client can really have; it shows what a server can make
the client do.
-/

set_option autoImplicit false

namespace XboxTls.Interface

open Programs XboxTls.Model

/-- The world is what the server still sends. -/
def scriptEnv : Env Bytes where
  randomBytes _ n := pure (.zero n)
  sendAll _ _ := pure ()
  recvSome _ n := fun w => some (.ok ⟨w.take n, List.length_take_le n w⟩, w.drop n)
  close _ w := w
  verifyChain _ _ _ := Prog.throw .verify
  verifySignature _ _ _ _ _ := Prog.throw .verify
  malloc _ w := (true, w)
  sizeOfSize := 4
  writeBehind _ w := w
  readBehind _ n _ := .zero n

/-- The host name has no zero byte. -/
theorem zero_notMem_a : (0 : UInt8) ∉ [97] := by
  decide

/-- The configuration of a client that asks for the host `a`. -/
def scriptConfig (padding : ℕ) : ClientConfig where
  platform := some 0
  stream := some 0
  verifier := some 0
  hostname := some ⟨[97], by decide⟩
  alpn := none
  preferredGroup := .x25519
  applicationRecordPadding := padding

/-- The private key that the random source gives. -/
def scriptPrivateKey : FixedBytes 32 := clampPrivateKey (.zero 32)

/-- The server's key share, the base point of X25519. -/
def scriptKeyShare : FixedBytes 32 := (FixedBytes.zero 32).set 0 9

/-- The key agreement gives a secret for the server's key share. -/
def KeyAgreementWorks (P : Crypto) : Prop :=
  ∃ shared, P.x25519SharedSecret scriptPrivateKey scriptKeyShare = .ok shared

/-- The key agreement of the plain primitives succeeds. -/
theorem keyAgreementWorks_plainCrypto : KeyAgreementWorks plainCrypto :=
  ⟨scriptPrivateKey, rfl⟩

/-- The parameters of the client's ClientHello. -/
def scriptParams (P : Crypto) : ClientHelloParams where
  random32 := (FixedBytes.zero 32).val
  sessionId := (FixedBytes.zero 32).val
  keyShare := (P.x25519PublicFromPrivate scriptPrivateKey).val
  group := .x25519
  serverName := some ⟨[97], by decide⟩
  alpn := none
  cookie := []

/-- A record that is not protected. -/
def plainRecord (type : UInt8) (content : Bytes) : Bytes :=
  [type, 3, 3] ++ storeBe16 content.length ++ content

/-- The ServerHello of the script: the client's session id, the cipher suite, TLS 1.3 and
the key share. -/
def scriptServerHello : Bytes :=
  [2, 0, 0, 118, 3, 3] ++ List.replicate 32 0 ++ [32] ++ List.replicate 32 0 ++
    [0x13, 0x01, 0, 0, 46, 0x00, 0x2b, 0, 2, 0x03, 0x04, 0x00, 0x33, 0, 36, 0x00, 0x1d, 0, 32] ++
    scriptKeyShare.val

/-- What the client makes of it. -/
def scriptServerHelloInfo : ServerHelloInfo where
  random := List.replicate 32 0
  sessionId := List.replicate 32 0
  cipherSuite := tlsAes128GcmSha256
  selectedVersion := 0x0304
  group := .x25519
  keyShare := scriptKeyShare.val
  helloRetryRequest := false
  cookie := []

/-- The events of the handshake log, changes of the read keys, records that were sealed, and
the fragments that came in protected records. -/
def milestone (ev : Event) : Bool :=
  match ev with
  | .readKeysChanged _ _ | .sealed _ _ _ => true
  | .fragment .handshake _ _ | .fragment .application _ _ => true
  | _ => handshakeEvent ev

/-- The milestones of a trace. -/
def milestones (evs : List Event) : List Event := evs.filter milestone

/-- The milestones of a longer trace are those of its parts. -/
theorem milestones_append (a b : List Event) :
    milestones (a ++ b) = milestones a ++ milestones b :=
  List.filter_append _ _

/-- The log of a trace is the log of its milestones. -/
theorem handshakeEvents_milestones (evs : List Event) :
    handshakeEvents (milestones evs) = handshakeEvents evs := by
  have hboth : ∀ ev, (handshakeEvent ev && milestone ev) = handshakeEvent ev := by
    intro ev
    cases ev <;> rfl
  simp only [handshakeEvents, milestones, List.filter_filter, hboth]

end XboxTls.Interface
