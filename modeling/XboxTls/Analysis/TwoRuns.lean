import XboxTls.Model.Api
import XboxTls.Programs.Related

/-!
# A client over two outside worlds

Two environments match when their operations do the same from related worlds, except that a
record may arrive through different calls of `recv_some`.  Every call of a client then does
the same over both: it changes the members alike, leaves the same events and ends with the
same result.
-/

set_option autoImplicit false

namespace XboxTls.Analysis

open Programs Programs.Prog XboxTls.Model

variable {P : Crypto} {W₁ W₂ : Type}

/-- The same client with the same events, over related worlds. -/
structure Alike (R : W₁ → W₂ → Prop) (s : System P W₁) (t : System P W₂) : Prop where
  client : s.client = t.client
  trace : s.trace = t.trace
  world : R s.world t.world

/-- Environments whose operations do the same from related worlds; of `recv_some` only the
records matter that are read with it. -/
structure Matching (P : Crypto) (R : W₁ → W₂ → Prop) (E₁ : Env W₁) (E₂ : Env W₂) : Prop where
  randomBytes : ∀ platform n, Related R (E₁.randomBytes platform n) (E₂.randomBytes platform n)
  sendAll : ∀ stream bytes, Related R (E₁.sendAll stream bytes) (E₂.sendAll stream bytes)
  close : ∀ stream w₁ w₂, R w₁ w₂ → R (E₁.close stream w₁) (E₂.close stream w₂)
  verifyChain : ∀ verifier chain hostname,
    Related R (E₁.verifyChain verifier chain hostname) (E₂.verifyChain verifier chain hostname)
  verifySignature : ∀ verifier scheme leaf message signature,
    Related R (E₁.verifySignature verifier scheme leaf message signature)
      (E₂.verifySignature verifier scheme leaf message signature)
  malloc : ∀ n w₁ w₂, R w₁ w₂ →
    (E₁.malloc n w₁).1 = (E₂.malloc n w₂).1 ∧ R (E₁.malloc n w₁).2 (E₂.malloc n w₂).2
  sizeOfSize : E₁.sizeOfSize = E₂.sizeOfSize
  writeBehind : ∀ bytes w₁ w₂, R w₁ w₂ → R (E₁.writeBehind bytes w₁) (E₂.writeBehind bytes w₂)
  readBehind : ∀ first n w₁ w₂, R w₁ w₂ →
    E₁.readBehind first n w₁ = E₂.readBehind first n w₂
  readRecord : ∀ capacity, Related (Alike R) (readRecord E₁ capacity : ClientM P W₁ Bytes)
    (readRecord E₂ capacity)

/-- The operations of `Matching` other than reading. -/
structure Joined (R : W₁ → W₂ → Prop) (E₁ : Env W₁) (E₂ : Env W₂) : Prop where
  randomBytes : ∀ platform n, Related R (E₁.randomBytes platform n) (E₂.randomBytes platform n)
  sendAll : ∀ stream bytes, Related R (E₁.sendAll stream bytes) (E₂.sendAll stream bytes)
  close : ∀ stream w₁ w₂, R w₁ w₂ → R (E₁.close stream w₁) (E₂.close stream w₂)
  verifyChain : ∀ verifier chain hostname,
    Related R (E₁.verifyChain verifier chain hostname) (E₂.verifyChain verifier chain hostname)
  verifySignature : ∀ verifier scheme leaf message signature,
    Related R (E₁.verifySignature verifier scheme leaf message signature)
      (E₂.verifySignature verifier scheme leaf message signature)
  malloc : ∀ n w₁ w₂, R w₁ w₂ →
    (E₁.malloc n w₁).1 = (E₂.malloc n w₂).1 ∧ R (E₁.malloc n w₁).2 (E₂.malloc n w₂).2
  sizeOfSize : E₁.sizeOfSize = E₂.sizeOfSize
  writeBehind : ∀ bytes w₁ w₂, R w₁ w₂ → R (E₁.writeBehind bytes w₁) (E₂.writeBehind bytes w₂)
  readBehind : ∀ first n w₁ w₂, R w₁ w₂ →
    E₁.readBehind first n w₁ = E₂.readBehind first n w₂

/-- Matching environments are joined. -/
theorem Matching.joined {R : W₁ → W₂ → Prop} {E₁ : Env W₁} {E₂ : Env W₂}
    (h : Matching P R E₁ E₂) : Joined R E₁ E₂ :=
  ⟨h.randomBytes, h.sendAll, h.close, h.verifyChain, h.verifySignature, h.malloc, h.sizeOfSize,
    h.writeBehind, h.readBehind⟩

section Primitives

variable {R : W₁ → W₂ → Prop} {α : Type}

/-- Both runs read the same client. -/
theorem related_getClient :
    Related (Alike R) (getClient : ClientM P W₁ (TlsClient P)) getClient := by
  intro s t h
  unfold getClient
  rw [h.client]
  exact .stop _ h

/-- Both runs change the client in the same way. -/
theorem related_modifyClient (f : TlsClient P → TlsClient P) :
    Related (Alike R) (modifyClient f : ClientM P W₁ Unit) (modifyClient f) := by
  intro s t h
  exact .stop (.ok ()) ⟨congrArg f h.client, h.trace, h.world⟩

/-- Both runs emit the same event. -/
theorem related_emit (ev : Event) :
    Related (Alike R) (emit ev : ClientM P W₁ Unit) (emit ev) := by
  intro s t h
  exact .stop (.ok ()) ⟨h.client, congrArg (· ++ [ev]) h.trace, h.world⟩

/-- Related calls of the two worlds. -/
theorem related_callWorld {x : Prog W₁ Error α} {y : Prog W₂ Error α} (hxy : Related R x y) :
    Related (Alike R) (callWorld x : ClientM P W₁ α) (callWorld y) := by
  intro s t h
  have hend := hxy _ _ h.world
  unfold callWorld
  generalize x s.world = out at hend
  generalize y t.world = out' at hend
  cases hend with
  | diverge => exact .diverge
  | stop r hw => exact .stop r ⟨h.client, h.trace, hw⟩

/-- Related changes of the two worlds. -/
theorem related_updateWorld {f : W₁ → α × W₁} {g : W₂ → α × W₂}
    (hfg : ∀ w₁ w₂, R w₁ w₂ → (f w₁).1 = (g w₂).1 ∧ R (f w₁).2 (g w₂).2) :
    Related (Alike R) (updateWorld f : ClientM P W₁ α) (updateWorld g) := by
  intro s t h
  obtain ⟨hvalue, hworld⟩ := hfg _ _ h.world
  unfold updateWorld
  rw [hvalue]
  exact .stop _ ⟨h.client, h.trace, hworld⟩

/-- Both runs use the same pointer. -/
theorem related_deref (p : Option α) :
    Related (Alike R) (deref p : ClientM P W₁ α) (deref p) := by
  cases p with
  | none => exact related_diverge
  | some a => exact related_pure a

/-- Records are read alike where `recv_some` does the same. -/
theorem related_recvLoop {E₁ : Env W₁} {E₂ : Env W₂}
    (hrecv : ∀ stream n, Related R (E₁.recvSome stream n) (E₂.recvSome stream n))
    (stream fuel total : ℕ) (have_ : Bytes) :
    Related (Alike R) (recvLoop E₁ stream fuel total have_ : ClientM P W₁ Bytes)
      (recvLoop E₂ stream fuel total have_) := by
  induction fuel generalizing have_ with
  | zero => exact related_pure _
  | succ fuel ih =>
    unfold recvLoop
    apply related_ite
    · intro _
      apply related_bind (related_callWorld (hrecv _ _))
      intro b
      apply related_ite
      · intro _
        exact related_throw _
      · intro _
        exact ih _
    · intro _
      exact related_pure _

/-- `read_record` brings the same record if the streams bring the same bytes. -/
theorem related_readRecord {E₁ : Env W₁} {E₂ : Env W₂}
    (hrecv : ∀ stream n, Related R (E₁.recvSome stream n) (E₂.recvSome stream n))
    (capacity : ℕ) :
    Related (Alike R) (readRecord E₁ capacity : ClientM P W₁ Bytes) (readRecord E₂ capacity) := by
  unfold readRecord
  apply related_bind related_getClient
  intro c
  cases c.config.stream with
  | none => exact related_throw _
  | some stream =>
    apply related_ite
    · intro _
      exact related_throw _
    intro _
    apply related_bind (related_recvLoop hrecv _ _ _ _)
    intro header
    apply related_bind (related_lift _)
    intro h
    apply related_ite
    · intro _
      exact related_throw _
    · intro _
      exact related_recvLoop hrecv _ _ _ _

end Primitives

variable {R : W₁ → W₂ → Prop} {E₁ : Env W₁} {E₂ : Env W₂} (hE : Joined R E₁ E₂) {α : Type}
include hE

/-! ## The small methods -/

/-- Both runs close the stream. -/
theorem related_closeStream :
    Related (Alike R) (closeStream E₁ : ClientM P W₁ Unit) (closeStream E₂) := by
  unfold closeStream
  apply related_bind related_getClient
  intro c
  cases c.config.stream with
  | none => exact related_pure ()
  | some stream =>
    apply related_updateWorld
    intro w₁ w₂ h
    exact ⟨rfl, hE.close stream w₁ w₂ h⟩

/-- Both runs take the failing exit. -/
theorem related_failWith (e : Error) :
    Related (Alike R) (failWith E₁ e : ClientM P W₁ α) (failWith E₂ e) := by
  unfold failWith fail
  apply related_bind
  · exact related_bind (related_modifyClient _) fun _ => related_closeStream hE
  · intro _
    exact related_throw e

/-- Both runs take the failing exit on an error. -/
theorem related_orFail {x : ClientM P W₁ α} {y : ClientM P W₂ α} (hxy : Related (Alike R) x y) :
    Related (Alike R) (orFail E₁ x) (orFail E₂ y) :=
  related_onError hxy fun e => related_failWith hE e

/-- Both runs write the same bytes. -/
theorem related_writeStream (stream : ℕ) (bytes : Bytes) :
    Related (Alike R) (writeStream E₁ stream bytes : ClientM P W₁ Unit)
      (writeStream E₂ stream bytes) :=
  related_bind (related_callWorld (hE.sendAll stream bytes)) fun _ => related_emit _

/-- Both runs send the same plain record. -/
theorem related_sendPlainRecord (type : UInt8) (payload : Bytes) :
    Related (Alike R) (sendPlainRecord E₁ type payload : ClientM P W₁ Unit)
      (sendPlainRecord E₂ type payload) := by
  unfold sendPlainRecord
  apply related_bind related_getClient
  intro c
  cases c.config.stream with
  | none => exact related_throw _
  | some stream =>
    apply related_ite
    · intro _
      exact related_throw _
    intro _
    apply related_bind (related_writeStream hE _ _)
    intro _
    apply related_ite
    · intro _
      exact related_writeStream hE _ _
    · intro _
      exact related_pure ()

/-- Both runs seal the same record. -/
theorem related_protectRecord (slot : KeySlot) (innerType : UInt8) (content : Bytes)
    (padding : ℕ) :
    Related (Alike R) (protectRecord E₁ slot innerType content padding : ClientM P W₁ Bytes)
      (protectRecord E₂ slot innerType content padding) := by
  unfold protectRecord
  apply related_bind related_getClient
  intro c
  apply related_bind (related_lift _)
  intro _
  apply related_bind (related_updateWorld (hE.malloc _))
  intro memory
  apply related_bind (related_lift _)
  intro rk
  apply related_bind (related_modifyClient _)
  intro _
  exact related_bind (related_emit _) fun _ => related_pure _

/-- Both runs send the same protected record. -/
theorem related_sendProtected (innerType : UInt8) (payload : Bytes) :
    Related (Alike R) (sendProtected E₁ innerType payload : ClientM P W₁ Unit)
      (sendProtected E₂ innerType payload) := by
  unfold sendProtected
  apply related_bind related_getClient
  intro c
  apply related_bind (related_protectRecord hE _ _ _ _)
  intro record
  apply related_bind (related_deref _)
  intro stream
  exact related_writeStream hE _ _

omit hE

/-- Both runs open the same record. -/
theorem related_unprotectRecord (slot : KeySlot) (record : Bytes) :
    Related (Alike R) (unprotectRecord slot record : ClientM P W₁ (UInt8 × Bytes))
      (unprotectRecord slot record) := by
  unfold unprotectRecord
  apply related_bind related_getClient
  intro c
  apply related_bind (related_lift _)
  intro plaintext
  apply related_bind (related_emit _)
  intro _
  apply related_bind (related_lift _)
  intro tc
  exact related_bind (related_modifyClient _) fun _ => related_pure _

/-- Both runs derive the same keys. -/
theorem related_deriveKeys (slot : KeySlot) (secret : FixedBytes 32) :
    Related (Alike R) (deriveKeys slot secret : ClientM P W₁ Unit) (deriveKeys slot secret) := by
  unfold deriveKeys
  apply related_bind (related_lift _)
  intro keys
  exact related_bind (related_modifyClient _) fun _ => related_emit _

/-- Both runs handle the same alert. -/
theorem related_handleAlert (payload : Bytes) :
    Related (Alike R) (handleAlert payload : ClientM P W₁ Error) (handleAlert payload) := by
  unfold handleAlert
  apply related_ite
  · intro _
    exact related_pure _
  intro _
  apply related_bind (related_modifyClient _)
  intro _
  apply related_ite
  · intro _
    exact related_pure _
  · intro _
    exact related_pure _

/-- Both runs append the same fragment. -/
theorem related_appendFragment (stage : Stage) (content : Bytes) :
    Related (Alike R) (appendFragment stage content : ClientM P W₁ Unit)
      (appendFragment stage content) := by
  unfold appendFragment
  apply related_bind related_getClient
  intro c
  apply related_bind (related_lift _)
  intro d
  exact related_bind (related_modifyClient _) fun _ => related_emit _

/-- Both runs consume the same message. -/
theorem related_consumeMessage :
    Related (Alike R) (consumeMessage : ClientM P W₁ Unit) consumeMessage := by
  unfold consumeMessage
  apply related_bind related_getClient
  intro c
  exact related_bind (related_lift _) fun _ => related_modifyClient _

/-- Both runs hash the same message. -/
theorem related_hashMessage (encoded : Bytes) :
    Related (Alike R) (hashMessage encoded : ClientM P W₁ Unit) (hashMessage encoded) :=
  related_modifyClient _

include hE

/-! ## The hello -/

/-- Both runs draw the same P-256 key. -/
theorem related_generateP256 (report : Error → Error) (attempts : ℕ) (last : Error) :
    Related (Alike R) (generateP256 E₁ report attempts last : ClientM P W₁ Unit)
      (generateP256 E₂ report attempts last) := by
  induction attempts generalizing last with
  | zero => exact related_failWith hE last
  | succ attempts ih =>
    unfold generateP256
    apply related_bind related_getClient
    intro c
    apply related_bind (related_deref _)
    intro platform
    apply related_bind (related_attempt (related_callWorld (hE.randomBytes _ _)))
    intro r
    cases r with
    | error e => exact related_failWith hE _
    | ok privateKey =>
      apply related_bind (related_modifyClient _)
      intro _
      cases P.p256PublicFromPrivate privateKey with
      | error e => exact ih e
      | ok publicKey => exact related_modifyClient _

/-- Both runs draw the same X25519 key. -/
theorem related_generateX25519 (report : Error → Error) :
    Related (Alike R) (generateX25519 E₁ report : ClientM P W₁ Unit)
      (generateX25519 E₂ report) := by
  unfold generateX25519
  apply related_bind related_getClient
  intro c
  apply related_bind (related_deref _)
  intro platform
  apply related_bind (related_attempt (related_callWorld (hE.randomBytes _ _)))
  intro r
  cases r with
  | error e => exact related_failWith hE _
  | ok bytes => exact related_modifyClient _

/-- Both runs draw the same key for a group. -/
theorem related_generateKeyShare (report : Error → Error) (group : NamedGroup) :
    Related (Alike R) (generateKeyShare E₁ report group : ClientM P W₁ ℕ)
      (generateKeyShare E₂ report group) := by
  unfold generateKeyShare
  apply related_ite
  · intro _
    exact related_bind (related_generateP256 hE _ _ _) fun _ => related_pure _
  intro _
  apply related_ite
  · intro _
    exact related_bind (related_generateX25519 hE _) fun _ => related_pure _
  · intro _
    exact related_failWith hE _

/-- Both runs send the same ClientHello. -/
theorem related_sendClientHello (p : ClientHelloParams) :
    Related (Alike R) (sendClientHello E₁ p : ClientM P W₁ Unit) (sendClientHello E₂ p) := by
  unfold sendClientHello
  cases buildClientHello p 2048 with
  | error e => exact related_bind (related_modifyClient _) fun _ => related_failWith hE _
  | ok encoded =>
    apply related_bind (related_modifyClient _)
    intro _
    apply related_bind (related_hashMessage _)
    intro _
    apply related_bind (related_orFail hE (related_sendPlainRecord hE _ _))
    intro _
    exact related_emit _

/-- What the hello loop does with a record. -/
def takeHelloRecord {W : Type} (E : Env W) (record : Bytes) : ClientM P W Unit := do
  let rh ← orFail E (Prog.lift (parseRecordHeader record))
  if rh.type = contentChangeCipherSpec then do
    emit (.changeCipherSpec .plaintext record)
    if rh.length ≠ 1 ∨ byteAt record 5 ≠ 1 then failWith E .badRecord else pure ()
  else if rh.type = contentAlert then do
    let ae ← handleAlert (slice record 5 rh.length)
    failWith E ae
  else if rh.type ≠ contentHandshake then failWith E .badHandshake
  else orFail E (appendFragment .plaintext (slice record 5 rh.length))

/-- Both runs take a record of the hello loop in the same way. -/
theorem related_takeHelloRecord (record : Bytes) :
    Related (Alike R) (takeHelloRecord E₁ record : ClientM P W₁ Unit)
      (takeHelloRecord E₂ record) := by
  unfold takeHelloRecord
  apply related_bind (related_orFail hE (related_lift _))
  intro rh
  apply related_ite
  · intro _
    apply related_bind (related_emit _)
    intro _
    apply related_ite
    · intro _
      exact related_failWith hE _
    · intro _
      exact related_pure ()
  intro _
  apply related_ite
  · intro _
    exact related_bind (related_handleAlert _) fun _ => related_failWith hE _
  intro _
  apply related_ite
  · intro _
    exact related_failWith hE _
  · intro _
    exact related_orFail hE (related_appendFragment _ _)

omit hE in
/-- Both runs read the same record of the hello loop. -/
theorem related_readHelloRecord (hM : Matching P R E₁ E₂) :
    Related (Alike R) (readHelloRecord E₁ : ClientM P W₁ Unit) (readHelloRecord E₂) :=
  related_bind (related_orFail hM.joined (hM.readRecord _)) fun record =>
    related_takeHelloRecord hM.joined record

/-- Both runs consume the same hello message. -/
theorem related_consumeHello :
    Related (Alike R) (consumeHello E₁ : ClientM P W₁ Unit) (consumeHello E₂) := by
  unfold consumeHello
  apply related_bind (related_attempt related_consumeMessage)
  intro r
  cases r with
  | error e => exact related_failWith hE _
  | ok u =>
    apply related_bind related_getClient
    intro c
    apply related_ite
    · intro _
      exact related_failWith hE _
    · intro _
      exact related_pure ()

/-- Both runs answer a HelloRetryRequest in the same way. -/
theorem related_retryHello (h : HelloLocals) (hm : HandshakeMessage) (sh : ServerHelloInfo) :
    Related (Alike R) (retryHello E₁ h hm sh : ClientM P W₁ HelloLocals)
      (retryHello E₂ h hm sh) := by
  unfold retryHello
  apply related_ite
  · intro _
    exact related_failWith hE _
  intro _
  apply related_bind (related_modifyClient _)
  intro _
  apply related_bind (related_hashMessage _)
  intro _
  apply related_bind (related_consumeHello hE)
  intro _
  apply related_bind (related_emit _)
  intro _
  apply related_bind (related_generateKeyShare hE _ _)
  intro publicLen
  apply related_bind related_getClient
  intro c
  exact related_bind (related_sendClientHello hE _) fun _ => related_pure _

omit hE in
/-- Both runs come to the same ServerHello. -/
theorem related_helloLoop (hM : Matching P R E₁ E₂) (fuel : ℕ) (h : HelloLocals) :
    Related (Alike R) (helloLoop E₁ fuel h : ClientM P W₁ (ServerHelloInfo × HelloLocals))
      (helloLoop E₂ fuel h) := by
  have hE := hM.joined
  induction fuel generalizing h with
  | zero => exact related_diverge
  | succ fuel ih =>
    unfold helloLoop
    apply related_bind related_getClient
    intro c
    cases c.deframer.peek with
    | error e =>
      by_cases he : e = .bufferTooSmall
      · subst he
        exact related_bind (related_readHelloRecord hM) fun _ => ih h
      · cases e with
        | bufferTooSmall => exact absurd rfl he
        | _ => exact related_failWith hE _
    | ok hm =>
      apply related_ite
      · intro _
        exact related_failWith hE _
      intro _
      apply related_bind (related_orFail hE (related_lift _))
      intro sh
      apply related_ite
      · intro _
        exact related_failWith hE _
      intro _
      apply related_ite
      · intro _
        exact related_bind (related_retryHello hE h hm sh) fun h' => ih h'
      · intro _
        apply related_bind (related_hashMessage _)
        intro _
        apply related_bind (related_consumeHello hE)
        intro _
        exact related_bind (related_emit _) fun _ => related_pure _

/-- Both runs send the same first ClientHello. -/
theorem related_startHello (config : ClientConfig) :
    Related (Alike R) (startHello E₁ config : ClientM P W₁ HelloLocals)
      (startHello E₂ config) := by
  unfold startHello
  apply related_bind (related_deref _)
  intro platform
  apply related_bind (related_orFail hE (related_callWorld (hE.randomBytes _ _)))
  intro random
  apply related_bind (related_orFail hE (related_callWorld (hE.randomBytes _ _)))
  intro sid
  apply related_bind (related_generateKeyShare hE _ _)
  intro publicLen
  apply related_bind related_getClient
  intro c
  apply related_bind (related_sendClientHello hE _)
  intro _
  exact related_bind (related_modifyClient _) fun _ => related_pure _

/-- Both runs derive the same handshake keys. -/
theorem related_deriveHandshakeKeys (sh : ServerHelloInfo) (group : NamedGroup) :
    Related (Alike R) (deriveHandshakeKeys E₁ sh group : ClientM P W₁ Unit)
      (deriveHandshakeKeys E₂ sh group) := by
  unfold deriveHandshakeKeys
  apply related_bind related_getClient
  intro c
  apply related_bind (related_modifyClient _)
  intro _
  apply related_ite
  · intro _
    exact related_failWith hE _
  intro _
  apply related_bind related_getClient
  intro c
  apply related_bind (related_orFail hE (related_lift _))
  intro shared
  apply related_bind (related_emit _)
  intro _
  apply related_bind (related_modifyClient _)
  intro _
  apply related_bind related_getClient
  intro c
  apply related_bind (related_orFail hE (related_lift _))
  intro schedule
  apply related_bind (related_modifyClient _)
  intro _
  apply related_bind (related_orFail hE (related_deriveKeys _ _))
  intro _
  apply related_bind (related_orFail hE (related_deriveKeys _ _))
  intro _
  exact related_emit _

/-! ## The encrypted flight -/

/-- Both runs ask the verifier the same and get the same answer. -/
theorem related_authenticateServerFlight (certificates : CertificateInfo)
    (cv : CertificateVerifyInfo) (th : FixedBytes 32) (hostname : Option CString)
    (verifier : Option ℕ) :
    Related (Alike R)
      (authenticateServerFlight E₁ certificates cv th hostname verifier : ClientM P W₁ Unit)
      (authenticateServerFlight E₂ certificates cv th hostname verifier) := by
  unfold authenticateServerFlight
  cases verifier with
  | none => exact related_throw _
  | some verifier =>
    cases hostname with
    | none => exact related_throw _
    | some hostname =>
      apply related_bind (related_lift _)
      intro chain
      apply related_bind (related_lift _)
      intro leaf
      apply related_bind (related_lift _)
      intro _
      apply related_bind (related_callWorld (hE.verifyChain _ _ _))
      intro _
      apply related_bind (related_emit _)
      intro _
      apply related_bind (related_lift _)
      intro scheme
      apply related_bind (related_lift _)
      intro _
      apply related_bind (related_lift _)
      intro message
      apply related_bind (related_callWorld (hE.verifySignature _ _ _ _ _))
      intro _
      apply related_bind (related_emit _)
      intro _
      exact related_emit _

omit hE in
/-- Both runs store the same protocol name. -/
theorem related_storeAlpn (alpn : Option Bytes) :
    Related (Alike R) (storeAlpn alpn : ClientM P W₁ Unit) (storeAlpn alpn) := by
  unfold storeAlpn
  cases alpn with
  | none => exact related_pure ()
  | some alpn =>
    apply related_ite
    · intro _
      exact related_throw _
    · intro _
      exact related_modifyClient _

/-- Both runs handle a message of the flight in the same way. -/
theorem related_handleHandshakeMessage (msg : HandshakeMessage) (l : FlightLocals) :
    Related (Alike R) (handleHandshakeMessage E₁ msg l : ClientM P W₁ FlightLocals)
      (handleHandshakeMessage E₂ msg l) := by
  have hend : ∀ l' : FlightLocals, Related (Alike R)
      (do hashMessage msg.encoded; emit (.flight msg); pure l' : ClientM P W₁ FlightLocals)
      (do hashMessage msg.encoded; emit (.flight msg); pure l') := by
    intro l'
    apply related_bind (related_hashMessage _)
    intro _
    exact related_bind (related_emit _) fun _ => related_pure _
  unfold handleHandshakeMessage
  apply related_ite
  · intro _
    apply related_bind (related_lift _)
    intro ee
    exact related_bind (related_storeAlpn _) fun _ => hend l
  intro _
  apply related_ite
  · intro _
    apply related_ite
    · intro _
      exact related_throw _
    intro _
    apply related_bind (related_modifyClient _)
    intro _
    apply related_bind (related_lift _)
    intro saved
    exact related_bind (related_lift _) fun certInfo => hend _
  intro _
  apply related_ite
  · intro _
    apply related_ite
    · intro _
      exact related_throw _
    intro _
    apply related_bind (related_lift _)
    intro cv
    apply related_bind related_getClient
    intro c
    exact related_bind (related_authenticateServerFlight hE _ _ _ _ _) fun _ => hend l
  intro _
  apply related_ite
  · intro _
    apply related_bind related_getClient
    intro c
    apply related_bind (related_lift _)
    intro _
    exact related_bind (related_emit _) fun _ => hend _
  · intro _
    exact related_throw _

/-- Both runs handle the messages of a record in the same way. -/
theorem related_drainFlight (fuel : ℕ) (l : FlightLocals) :
    Related (Alike R) (drainFlight E₁ fuel l : ClientM P W₁ FlightLocals)
      (drainFlight E₂ fuel l) := by
  induction fuel generalizing l with
  | zero => exact related_diverge
  | succ fuel ih =>
    unfold drainFlight
    apply related_bind related_getClient
    intro c
    cases c.deframer.peek with
    | error e =>
      cases e with
      | bufferTooSmall => exact related_pure l
      | _ => exact related_throw _
    | ok msg =>
      apply related_bind (related_handleHandshakeMessage hE msg l)
      intro l'
      apply related_bind related_consumeMessage
      intro _
      apply related_ite
      · intro _
        exact related_pure l'
      · intro _
        exact ih l'

omit hE in
/-- Both runs handle a record of the flight in the same way. -/
theorem related_flightRound (hM : Matching P R E₁ E₂) (l : FlightLocals) :
    Related (Alike R) (flightRound E₁ l : ClientM P W₁ FlightLocals) (flightRound E₂ l) := by
  have hE := hM.joined
  unfold flightRound
  apply related_bind (hM.readRecord _)
  intro record
  apply related_bind (related_lift _)
  intro rh
  apply related_ite
  · intro _
    exact related_bind (related_emit _) fun _ => related_pure l
  intro _
  apply related_ite
  · intro _
    exact related_bind (related_handleAlert _) fun _ => related_throw _
  intro _
  apply related_ite
  · intro _
    exact related_throw _
  intro _
  apply related_bind (related_unprotectRecord _ _)
  rintro ⟨inner, content⟩
  apply related_ite
  · intro _
    exact related_bind (related_handleAlert _) fun _ => related_throw _
  intro _
  apply related_ite
  · intro _
    exact related_throw _
  intro _
  apply related_bind (related_appendFragment _ _)
  intro _
  exact related_bind related_getClient fun c => related_drainFlight hE _ l

omit hE in
/-- Both runs come to the end of the flight together. -/
theorem related_flightLoop (hM : Matching P R E₁ E₂) (fuel : ℕ) (l : FlightLocals) :
    Related (Alike R) (flightLoop E₁ fuel l : ClientM P W₁ Unit) (flightLoop E₂ fuel l) := by
  induction fuel generalizing l with
  | zero => exact related_diverge
  | succ fuel ih =>
    unfold flightLoop
    apply related_ite
    · intro _
      exact related_pure ()
    · intro _
      exact related_bind (related_flightRound hM l) fun l' => ih l'

/-- Both runs send the same Finished and derive the same keys. -/
theorem related_finishHandshake :
    Related (Alike R) (finishHandshake E₁ : ClientM P W₁ Unit) (finishHandshake E₂) := by
  unfold finishHandshake
  apply related_bind related_getClient
  intro c
  apply related_bind (related_lift _)
  intro schedule
  apply related_bind (related_modifyClient _)
  intro _
  apply related_bind (related_deriveKeys _ _)
  intro _
  apply related_bind (related_deriveKeys _ _)
  intro _
  apply related_bind related_getClient
  intro c
  apply related_bind (related_emit _)
  intro _
  apply related_bind (related_lift _)
  intro fin
  apply related_bind (related_sendProtected hE _ _)
  intro _
  exact related_bind (related_hashMessage _) fun _ => related_emit _

/-! ## The calls -/

omit hE in
/-- Both runs of `connect` end alike. -/
theorem related_connect (hM : Matching P R E₁ E₂) (fuel : ℕ) (config : ClientConfig) :
    Related (Alike R) (connect E₁ fuel config : ClientM P W₁ Unit)
      (connect E₂ fuel config) := by
  have hE := hM.joined
  have hhandshake : Related (Alike R) (connectHandshake E₁ fuel config : ClientM P W₁ Unit)
      (connectHandshake E₂ fuel config) := by
    unfold connectHandshake
    apply related_bind (related_startHello hE config)
    intro h
    apply related_bind (related_helloLoop hM fuel h)
    rintro ⟨sh, h'⟩
    apply related_bind (related_deriveHandshakeKeys hE _ _)
    intro _
    apply related_orFail hE
    exact related_bind (related_flightLoop hM _ _) fun _ => related_finishHandshake hE
  unfold connect
  apply related_bind related_getClient
  intro c
  apply related_ite
  · intro _
    exact related_throw _
  intro _
  apply related_bind (related_modifyClient _)
  intro _
  apply related_bind (related_emit _)
  intro _
  exact related_bind hhandshake fun _ => related_modifyClient _

omit hE in
/-- Both runs update the client's keys in the same way. -/
theorem related_updateClientKeys :
    Related (Alike R) (updateClientKeys : ClientM P W₁ Unit) updateClientKeys := by
  unfold updateClientKeys
  apply related_bind related_getClient
  intro c
  apply related_bind (related_lift _)
  intro nk
  exact related_bind (related_modifyClient _) fun _ => related_emit _

omit hE in
/-- Both runs update the server's keys in the same way. -/
theorem related_updateServerKeys :
    Related (Alike R) (updateServerKeys : ClientM P W₁ Unit) updateServerKeys := by
  unfold updateServerKeys
  apply related_bind related_getClient
  intro c
  apply related_bind (related_lift _)
  intro nk
  exact related_bind (related_modifyClient _) fun _ => related_emit _

/-- Both runs handle a message after the handshake in the same way. -/
theorem related_handlePostHandshake (msg : HandshakeMessage) :
    Related (Alike R) (handlePostHandshake E₁ msg : ClientM P W₁ Unit)
      (handlePostHandshake E₂ msg) := by
  unfold handlePostHandshake
  apply related_ite
  · intro _
    exact related_pure ()
  intro _
  apply related_ite
  · intro _
    apply related_ite
    · intro _
      exact related_throw _
    intro _
    apply related_bind related_updateServerKeys
    intro _
    apply related_bind related_getClient
    intro c
    apply related_bind (related_emit _)
    intro _
    apply related_ite
    · intro _
      exact related_bind (related_sendProtected hE _ _) fun _ => related_updateClientKeys
    · intro _
      exact related_pure ()
  · intro _
    exact related_throw _

/-- Both runs handle the messages of a record in the same way. -/
theorem related_processPostHandshake (content : Bytes) :
    Related (Alike R) (processPostHandshake E₁ content : ClientM P W₁ Unit)
      (processPostHandshake E₂ content) := by
  have hdrain : ∀ fuel, Related (Alike R) (drainPostHandshake E₁ fuel : ClientM P W₁ Unit)
      (drainPostHandshake E₂ fuel) := by
    intro fuel
    induction fuel with
    | zero => exact related_diverge
    | succ fuel ih =>
      unfold drainPostHandshake
      apply related_bind related_getClient
      intro c
      cases c.deframer.peek with
      | error e =>
        cases e with
        | bufferTooSmall => exact related_pure ()
        | _ => exact related_throw _
      | ok msg =>
        apply related_bind (related_handlePostHandshake hE msg)
        intro _
        apply related_bind related_consumeMessage
        intro _
        exact related_bind (related_emit _) fun _ => ih
  unfold processPostHandshake
  apply related_bind (related_appendFragment _ _)
  intro _
  exact related_bind related_getClient fun c => hdrain _

/-- Both runs of `key_update` end alike. -/
theorem related_keyUpdate (requestPeerUpdate : Bool) :
    Related (Alike R) (keyUpdate E₁ requestPeerUpdate : ClientM P W₁ Unit)
      (keyUpdate E₂ requestPeerUpdate) := by
  unfold keyUpdate
  apply related_bind related_getClient
  intro c
  apply related_ite
  · intro _
    exact related_throw _
  · intro _
    exact related_bind (related_orFail hE (related_sendProtected hE _ _)) fun _ =>
      related_orFail hE related_updateClientKeys

/-- Both runs of `send` end alike. -/
theorem related_send (null : Bool) (data : Bytes) :
    Related (Alike R) (send E₁ null data : ClientM P W₁ Unit) (send E₂ null data) := by
  have hloop : ∀ (padding maxContent fuel : ℕ) (data : Bytes), Related (Alike R)
      (sendLoop E₁ padding maxContent fuel data : ClientM P W₁ Unit)
      (sendLoop E₂ padding maxContent fuel data) := by
    intro padding maxContent fuel
    induction fuel with
    | zero =>
      intro data
      exact related_pure ()
    | succ fuel ih =>
      intro data
      unfold sendLoop
      apply related_ite
      · intro _
        exact related_pure ()
      intro _
      apply related_bind
      · apply related_orFail hE
        apply related_bind (related_protectRecord hE _ _ _ _)
        intro record
        apply related_bind related_getClient
        intro c
        apply related_bind (related_deref _)
        intro stream
        exact related_writeStream hE _ _
      · intro _
        exact ih _
  unfold send
  apply related_bind related_getClient
  intro c
  apply related_ite
  · intro _
    exact related_throw _
  intro _
  apply related_ite
  · intro _
    exact related_throw _
  · intro _
    exact hloop _ _ _ _

/-- Both runs return the same pending bytes. -/
theorem related_recvPending (size : ℕ) :
    Related (Alike R) (recvPending E₁ size : ClientM P W₁ Bytes) (recvPending E₂ size) := by
  unfold recvPending readPending
  apply related_bind related_getClient
  intro c
  refine related_bind ?_ fun bytes => related_bind (related_modifyClient _) fun _ =>
    related_bind (related_emit _) fun _ => related_pure _
  apply related_bind related_getClient
  intro c'
  apply related_ite
  · intro _
    exact related_pure _
  · intro _
    exact related_bind (related_updateWorld fun w₁ w₂ h => ⟨hE.readBehind _ _ w₁ w₂ h, h⟩)
      fun _ => related_pure _

/-- Both runs return the same bytes and keep the same rest. -/
theorem related_recvData (content : Bytes) (size : ℕ) :
    Related (Alike R) (recvData E₁ content size : ClientM P W₁ Bytes)
      (recvData E₂ content size) := by
  unfold recvData keepRest copyToPending
  apply related_bind (related_emit _)
  intro _
  apply related_bind
  · apply related_ite
    · intro _
      rw [hE.sizeOfSize]
      apply related_ite
      · intro _
        exact related_modifyClient _
      · intro _
        refine related_bind (related_updateWorld ?_) fun _ => related_modifyClient _
        exact fun w₁ w₂ h => ⟨rfl, hE.writeBehind _ w₁ w₂ h⟩
    · intro _
      exact related_pure ()
  · intro _
    exact related_bind (related_emit _) fun _ => related_pure _

omit hE in
/-- Both runs of the loop of `recv` end alike. -/
theorem related_recvRecords (hM : Matching P R E₁ E₂) (size fuel : ℕ) :
    Related (Alike R) (recvRecords E₁ size fuel : ClientM P W₁ Bytes)
      (recvRecords E₂ size fuel) := by
  have hE := hM.joined
  induction fuel with
  | zero => exact related_diverge
  | succ fuel ih =>
    unfold recvRecords
    apply related_bind (related_orFail hE (hM.readRecord _))
    intro record
    apply related_bind (related_orFail hE (related_lift _))
    intro rh
    apply related_ite
    · intro _
      exact related_bind (related_emit _) fun _ => ih
    intro _
    apply related_ite
    · intro _
      exact related_failWith hE _
    intro _
    apply related_bind (related_orFail hE (related_unprotectRecord _ _))
    rintro ⟨inner, content⟩
    apply related_ite
    · intro _
      exact related_recvData hE content size
    intro _
    apply related_ite
    · intro _
      unfold recvAlert recvClosed
      apply related_bind (related_handleAlert _)
      intro ae
      apply related_ite
      · intro _
        apply related_bind (related_modifyClient _)
        intro _
        apply related_bind (related_closeStream hE)
        intro _
        exact related_bind (related_modifyClient _) fun _ => related_throw _
      · intro _
        exact related_failWith hE _
    intro _
    apply related_ite
    · intro _
      exact related_bind (related_orFail hE (related_processPostHandshake hE _)) fun _ => ih
    · intro _
      exact related_failWith hE _

omit hE in
/-- Both runs of `recv` end alike. -/
theorem related_recv (hM : Matching P R E₁ E₂) (fuel : ℕ) (receivedNull outNull : Bool) (size : ℕ) :
    Related (Alike R) (recv E₁ fuel receivedNull outNull size : ClientM P W₁ Bytes)
      (recv E₂ fuel receivedNull outNull size) := by
  unfold recv
  apply related_bind related_getClient
  intro c
  apply related_ite
  · intro _
    exact related_throw _
  intro _
  apply related_ite
  · intro _
    exact related_throw _
  intro _
  apply related_ite
  · intro _
    exact related_recvPending hM.joined size
  · intro _
    exact related_recvRecords hM _ _

/-- Both runs of `reset` end alike. -/
theorem related_reset : Related (Alike R) (reset E₁ : ClientM P W₁ Unit) (reset E₂) := by
  unfold reset
  apply related_bind related_getClient
  intro c
  apply related_ite
  · intro _
    exact related_throw _
  · intro _
    exact related_bind (related_closeStream hE) fun _ => related_modifyClient _

/-- Both runs of `close` end alike. -/
theorem related_close : Related (Alike R) (close E₁ : ClientM P W₁ Unit) (close E₂) := by
  unfold close
  apply related_bind related_getClient
  intro c
  apply related_ite
  · intro _
    exact related_pure ()
  intro _
  apply related_bind
  · unfold sendCloseNotify
    apply related_ite
    · intro _
      exact related_attempt (related_sendProtected hE _ _)
    · intro _
      exact related_pure _
  · intro _
    exact related_bind (related_closeStream hE) fun _ => related_modifyClient _

omit hE in
/-- **A call does the same over matching environments.** -/
theorem related_call (hM : Matching P R E₁ E₂) (fuel : ℕ) (call : Call) :
    Related (Alike R) (call.run E₁ fuel : ClientM P W₁ Bytes) (call.run E₂ fuel) := by
  have hE := hM.joined
  cases call with
  | connect config => exact related_bind (related_connect hM fuel config) fun _ => related_pure []
  | send null data => exact related_bind (related_send hE null data) fun _ => related_pure []
  | recv receivedNull outNull size => exact related_recv hM fuel receivedNull outNull size
  | keyUpdate request => exact related_bind (related_keyUpdate hE request) fun _ => related_pure []
  | reset => exact related_bind (related_reset hE) fun _ => related_pure []
  | close => exact related_bind (related_close hE) fun _ => related_pure []

omit hE in
/-- And so does a run: the same calls return the same results. -/
theorem related_of_run (hM : Matching P R E₁ E₂) {s s' : System P W₁} {t : System P W₂}
    {log : List (Call × Except Error Bytes)} (h : Alike R s t) (hrun : Run E₁ s log s') :
    ∃ t', Run E₂ t log t' ∧ Alike R s' t' := by
  induction hrun with
  | nil => exact ⟨t, .nil t, h⟩
  | @snoc _ _ _ call _ _ hret ih =>
    obtain ⟨t₁, hrun₁, h₁⟩ := ih
    obtain ⟨fuel, hcall⟩ := hret
    obtain ⟨t₂, hcall₂, h₂⟩ := (related_call hM fuel call).run h₁ hcall
    exact ⟨t₂, hrun₁.snoc ⟨fuel, hcall₂⟩, h₂⟩

end XboxTls.Analysis
