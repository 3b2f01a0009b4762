import XboxTls.Interface.CertificateParts
import XboxTls.Interface.ScriptedServer
import XboxTls.Model.XboxClient

/-!
# Servers that can be run

With a hash whose digests are all zero, every byte a server has to send is known in advance, so
that a whole handshake can be evaluated.  `blankHandshake` is what the server sends to the
client of `scriptConfig`, or to one that offers protocols; `scriptedXbox` is a console on which
everything else works.
-/

set_option autoImplicit false

namespace XboxTls.Interface

open Programs XboxTls.Model

/-- A `Crypto` whose digests are zero and whose cipher hides nothing. -/
def blankCrypto : Crypto where
  x25519PublicFromPrivate k := k
  x25519SharedSecret k _ := .ok k
  p256PublicFromPrivate _ := .error .crypto
  p256SharedSecret _ _ := .error .crypto
  nativeRsaPssSha256Verify _ _ _ := .error .verify
  nativeRsaPkcs1Sha256Verify _ _ _ := .error .verify
  nativeP256EcdsaSha256Verify _ _ _ := .error .verify
  Sha256 := Unit
  shaReset := ()
  shaUpdate _ _ := ()
  shaFinal _ := .zero 32
  aes128GcmEncrypt _ _ _ := plainEncrypt
  aes128GcmDecrypt _ _ _ := plainDecrypt
  shaUpdate_nil _ := rfl
  shaUpdate_append _ _ _ := rfl
  encrypt_length _ _ _ := plainEncrypt_length
  decrypt_encrypt _ _ _ := plainDecrypt_plainEncrypt
  encrypt_decrypt _ _ _ := plainEncrypt_plainDecrypt

/-- A record sealed with that cipher. -/
def blankRecord (innerType : UInt8) (content : Bytes) : Bytes :=
  [23, 3, 3] ++ storeBe16 (content.length + 17) ++ content ++ [innerType] ++ List.replicate 16 0

/-- The server's Finished, the same in every handshake. -/
def blankFinished : Bytes := [20, 0, 0, 32] ++ List.replicate 32 0

/-- The Certificate message with this certificate, and a CertificateVerify. -/
def certificateMessages (der : Bytes) : Bytes :=
  let list := storeBe24 der.length ++ der ++ [0, 0]
  let body := [0] ++ storeBe24 list.length ++ list
  [hsCertificate] ++ storeBe24 body.length ++ body ++
    [hsCertificateVerify, 0, 0, 5, 8, 4, 0, 1, 0]

/-- The flight of the profile: EncryptedExtensions without any, the certificate of the host
`x.y`, the CertificateVerify and the Finished. -/
def profileMessages : Bytes :=
  [hsEncryptedExtensions, 0, 0, 2, 0, 0] ++ certificateMessages onceCertificate ++ blankFinished

/-- What the server sends: a ServerHello, then these messages in one record. -/
def blankHandshake (messages : Bytes) : Bytes :=
  plainRecord 22 scriptServerHello ++ blankRecord 22 messages

/-- The world of the script with a verifier that accepts everything. -/
def agreeingEnv : Env Bytes where
  __ := scriptEnv
  verifyChain _ _ _ := pure ()
  verifySignature _ _ _ _ _ := pure ()

/-- The host name has no zero byte. -/
theorem zero_notMem_xy : (0 : UInt8) ∉ [120, 46, 121] := by
  decide

/-- The host `x.y`. -/
def hostXY : CString := ⟨[120, 46, 121], zero_notMem_xy⟩

/-- A client for that host. -/
def onceConfig : ClientConfig where
  __ := scriptConfig 0
  hostname := some hostXY

/-- A console with this trust store on which every call works; the state is what the server
still sends. -/
def scriptedXbox (file : Bytes) : XboxEnv Bytes where
  networkStartup := pure ()
  networkCleanup w := w
  randomBytes n := pure (.zero n)
  unixTimeSeconds w := (0, w)
  connectTcp _ _ := pure ()
  setIoTimeouts _ _ := pure ()
  sendAll _ := pure ()
  recvSome n := fun w => some (.ok ⟨w.take n, List.length_take_le n w⟩, w.drop n)
  closeSocket w := w
  fopen _ w := (true, w)
  fseekEnd w := (true, w)
  ftell w := (file.length, w)
  fseekSet w := (true, w)
  fread n w := (⟨file.take n, List.length_take_le n file⟩, w)
  fclose w := w
  malloc _ w := (true, w)
  overrun _ x w := (x, w)
  readBehind _ n _ := .zero n

/-- A trust store with one certificate. -/
def trustStoreOf (der : Bytes) : Bytes :=
  [0x58, 0x54, 0x53, 0x31, 0, 1] ++ storeBe24 der.length ++ der

/-- The calls one after the other, with this fuel for each. -/
def runCalls {P : Crypto} {V : Type} (X : XboxEnv V) (fuel : ℕ) :
    List XboxCall → XboxSystem P V → Option (List (XboxStep P V) × XboxSystem P V)
  | [], s => some ([], s)
  | call :: calls, s =>
    match call.run X fuel s with
    | none => none
    | some (r, s') =>
      match runCalls X fuel calls s' with
      | none => none
      | some (steps, s'') => some (⟨s, call, r, s'⟩ :: steps, s'')

/-- A call and a run after it. -/
theorem xboxRun_cons {P : Crypto} {V : Type} {X : XboxEnv V} {call : XboxCall}
    {r : Except Error Bytes} {s s' s'' : XboxSystem P V}
    {steps : List (XboxStep P V)} (hret : XboxReturns X call s r s')
    (hrun : XboxRun X s' steps s'') : XboxRun X s (⟨s, call, r, s'⟩ :: steps) s'' := by
  induction hrun with
  | nil => exact XboxRun.snoc (XboxRun.nil s) hret
  | snoc _ hlast ih => exact XboxRun.snoc ih hlast

/-- Calls that were run are a run. -/
theorem xboxRun_of_runCalls {P : Crypto} {V : Type} {X : XboxEnv V} {fuel : ℕ}
    {calls : List XboxCall} {s s' : XboxSystem P V}
    {steps : List (XboxStep P V)} (h : runCalls X fuel calls s = some (steps, s')) :
    XboxRun X s steps s' ∧ steps.map XboxStep.call = calls := by
  induction calls generalizing s steps with
  | nil =>
    cases h
    exact ⟨XboxRun.nil s', rfl⟩
  | cons call calls ih =>
    unfold runCalls at h
    split at h
    · cases h
    next r s₁ hcall =>
    split at h
    · cases h
    next steps₁ s₂ hrest =>
    cases h
    obtain ⟨hrun, hcalls⟩ := ih hrest
    refine ⟨xboxRun_cons ⟨fuel, hcall⟩ hrun, ?_⟩
    rw [List.map_cons, hcalls]

/-- The calls of a TLS client one after the other, with this fuel for each. -/
def runTls {P : Crypto} {W : Type} (E : Env W) (fuel : ℕ) :
    List Call → System P W → Option (List (Call × Except Error Bytes) × System P W)
  | [], s => some ([], s)
  | call :: calls, s =>
    match call.run E fuel s with
    | none => none
    | some (r, s') =>
      match runTls E fuel calls s' with
      | none => none
      | some (log, s'') => some ((call, r) :: log, s'')

/-- Calls that are evaluated are a run. -/
theorem run_of_runTls {P : Crypto} {W : Type} {E : Env W} {fuel : ℕ} {calls : List Call}
    {s s' : System P W} {log : List (Call × Except Error Bytes)}
    (h : runTls E fuel calls s = some (log, s')) : Run E s log s' := by
  induction calls generalizing s log with
  | nil =>
    cases h
    exact Run.nil _
  | cons call calls ih =>
    unfold runTls at h
    split at h
    · cases h
    · next r s₁ hcall =>
      split at h
      · cases h
      · next log' s₂ hcalls =>
        cases h
        exact (ih hcalls).cons ⟨fuel, hcall⟩

/-- The log names the calls in their order. -/
theorem calls_of_runTls {P : Crypto} {W : Type} {E : Env W} {fuel : ℕ} {calls : List Call}
    {s s' : System P W} {log : List (Call × Except Error Bytes)}
    (h : runTls E fuel calls s = some (log, s')) : log.map Prod.fst = calls := by
  induction calls generalizing s log with
  | nil =>
    cases h
    rfl
  | cons call calls ih =>
    unfold runTls at h
    split at h
    · cases h
    · split at h
      · cases h
      · next log' s₂ hcalls =>
        cases h
        rw [List.map_cons, ih hcalls]

end XboxTls.Interface
