import XboxTls.Analysis.AesGcm
import XboxTls.Analysis.HonestSession
import XboxTls.Analysis.P256Agreement
import XboxTls.Analysis.Sha256
import XboxTls.Analysis.X25519Agreement
import XboxTls.Model.RsaVerify

/-!
# The primitives of the repository

`nativeCrypto` is the `Crypto` that `src/crypto` implements.  Both of its key agreements agree, so
what is proved of a session for every `Crypto` holds of this one without a hypothesis about it.
-/

set_option autoImplicit false

namespace XboxTls.Analysis

open XboxTls.Model XboxTls.Interface

/-! ## The implementation -/

/-- `x25519.cpp` and the key agreement of `p256_verify.cpp`. -/
def nativeKeyAgreement : KeyAgreement where
  x25519PublicFromPrivate d := FixedBytes.ofBytes 32 ((X25519.x25519PublicFromPrivate d).getD [])
  x25519SharedSecret d peer :=
    ((X25519.x25519SharedSecret d peer).getD (.error .crypto)).map (FixedBytes.ofBytes 32)
  p256PublicFromPrivate := P256.p256PublicFromPrivate
  p256SharedSecret := P256.p256SharedSecret

/-- The three checks, with the hash of `P`. -/
def nativeSignatureChecks (P : Crypto) : SignatureChecks where
  nativeRsaPssSha256Verify := RsaVerify.nativeRsaPssSha256Verify P
  nativeRsaPkcs1Sha256Verify := RsaVerify.nativeRsaPkcs1Sha256Verify P
  nativeP256EcdsaSha256Verify := P256.nativeP256EcdsaSha256Verify P

/-- The hash and the cipher of `P` with both. -/
def withNatives (P : Crypto) : Crypto :=
  { P with
    toKeyAgreement := nativeKeyAgreement
    toSignatureChecks := nativeSignatureChecks P }

/-- The primitives of `src/crypto`. -/
def nativeCrypto : Crypto := withNatives (withAesGcm (withSha256 plainCrypto))

/-! ## X25519 -/

/-- A public key of X25519 is a multiple of the base point. -/
theorem nativeCrypto_x25519Public (d : FixedBytes 32) :
    nativeCrypto.x25519PublicFromPrivate d =
      encoded (Interface.X25519.decodeScalar d.val • Interface.X25519.generator) := by
  have hpublic := x25519PublicFromPrivate_encoded d
  apply Subtype.ext
  show (FixedBytes.ofBytes 32 ((X25519.x25519PublicFromPrivate d).getD [])).val = _
  rw [hpublic, Option.getD_some, FixedBytes.ofBytes_val_of_length _ (encoded _).property]

/-- The shared secret of two keys of X25519 is the product of both multiples. -/
theorem nativeCrypto_x25519Shared (a b : FixedBytes 32) :
    nativeCrypto.x25519SharedSecret a
        (encoded (Interface.X25519.decodeScalar b.val • Interface.X25519.generator)) =
      .ok (encoded (Interface.X25519.decodeScalar a.val •
        Interface.X25519.decodeScalar b.val • Interface.X25519.generator)) := by
  have hsecret := secret_of_public a b
  show ((X25519.x25519SharedSecret a _).getD (.error .crypto)).map (FixedBytes.ofBytes 32) = _
  rw [hsecret]
  apply congrArg Except.ok
  apply Subtype.ext
  rw [FixedBytes.ofBytes_val_of_length _ (encoded _).property]

/-! ## P-256 -/

/-- The public key of P-256 is what the code computes. -/
theorem nativeCrypto_p256Public (d : FixedBytes 32) :
    nativeCrypto.p256PublicFromPrivate d = P256.p256PublicFromPrivate d := rfl

/-- Only a number in range has a public key. -/
theorem privateKey_of_public {d : FixedBytes 32} {key : FixedBytes 65}
    (h : P256.p256PublicFromPrivate d = .ok key) : Interface.P256.PrivateKey d := by
  by_contra hd
  unfold P256.p256PublicFromPrivate at h
  dsimp only at h
  rw [if_pos (mt (validPrivate_iff d).mp hd)] at h
  cases h

/-- Two parties with public keys get one secret. -/
theorem p256_secrets {a b : FixedBytes 32} {keyA keyB : FixedBytes 65}
    (ha : P256.p256PublicFromPrivate a = .ok keyA) (hb : P256.p256PublicFromPrivate b = .ok keyB) :
    ∃ secret, P256.p256SharedSecret a keyB = .ok secret ∧
      P256.p256SharedSecret b keyA = .ok secret := by
  have hrangeA := privateKey_of_public ha
  have hrangeB := privateKey_of_public hb
  obtain ⟨_, hkeyA, hencodeA⟩ := p256PublicFromPrivate_spec hrangeA
  obtain ⟨_, hkeyB, hencodeB⟩ := p256PublicFromPrivate_spec hrangeB
  cases ha.symm.trans hkeyA
  cases hb.symm.trans hkeyB
  have hcomm : Programs.ofOctets b.val • Programs.ofOctets a.val • Interface.P256.generator =
      Programs.ofOctets a.val • Programs.ofOctets b.val • Interface.P256.generator :=
    nsmul_left_comm _ _ _
  cases hpoint : Programs.ofOctets a.val • Programs.ofOctets b.val • Interface.P256.generator with
  | zero => exact absurd hpoint (secret_ne_zero hrangeA hrangeB)
  | some x y h =>
    rw [hpoint] at hcomm
    obtain ⟨secret, hsecret, hvalue⟩ := p256SharedSecret_spec hrangeA hencodeB hpoint
    obtain ⟨secret', hsecret', hvalue'⟩ := p256SharedSecret_spec hrangeB hencodeA hcomm
    rw [Subtype.ext (hvalue'.trans hvalue.symm)] at hsecret'
    exact ⟨secret, hsecret, hsecret'⟩

/-! ## Both groups -/

/-- **Two parties with shares of a group get one secret.** -/
theorem native_secrets {group : NamedGroup} {a b : FixedBytes 32} {shareA shareB : Bytes}
    (ha : KeyShareOf nativeCrypto group a shareA) (hb : KeyShareOf nativeCrypto group b shareB) :
    ∃ shared, sharedSecret nativeCrypto group a shareB = .ok shared ∧
      sharedSecret nativeCrypto group b shareA = .ok shared := by
  unfold sharedSecret
  obtain ⟨hgroup, rfl⟩ | ⟨hgroup, keyA, hkeyA, rfl⟩ := ha
  · obtain ⟨-, rfl⟩ | ⟨hother, -⟩ := hb
    · rw [if_pos ⟨hgroup, (nativeCrypto.x25519PublicFromPrivate b).property⟩,
        if_pos ⟨hgroup, (nativeCrypto.x25519PublicFromPrivate a).property⟩]
      have hown (k : FixedBytes 32) : FixedBytes.ofBytes 32 k.val = k :=
        Subtype.ext (FixedBytes.ofBytes_val_of_length _ k.property)
      rw [hown, hown, nativeCrypto_x25519Public, nativeCrypto_x25519Public,
        nativeCrypto_x25519Shared, nativeCrypto_x25519Shared]
      refine ⟨_, rfl, ?_⟩
      rw [nsmul_left_comm]
    · cases hgroup.symm.trans hother
  · obtain ⟨hother, -⟩ | ⟨-, keyB, hkeyB, rfl⟩ := hb
    · cases hgroup.symm.trans hother
    · have hne : ¬ (group = .x25519 ∧ keyB.val.length = 32) := by
        rintro ⟨hother, -⟩
        cases hgroup.symm.trans hother
      have hne' : ¬ (group = .x25519 ∧ keyA.val.length = 32) := by
        rintro ⟨hother, -⟩
        cases hgroup.symm.trans hother
      rw [if_neg hne, if_neg hne', if_pos ⟨hgroup, keyB.property⟩, if_pos ⟨hgroup, keyA.property⟩]
      have hown (k : FixedBytes 65) : FixedBytes.ofBytes 65 k.val = k :=
        Subtype.ext (FixedBytes.ofBytes_val_of_length _ k.property)
      rw [hown, hown]
      exact p256_secrets hkeyA hkeyB

/-- Both sides come to one secret, for either group. -/
theorem keysAgree_nativeCrypto (group : NamedGroup) : KeysAgree nativeCrypto group := by
  intro a b shareA shareB shared ha hb hshared
  obtain ⟨secret, hsecret, hsecret'⟩ := native_secrets ha hb
  rw [hsecret] at hshared
  rw [hsecret', hshared]

/-! ## A session -/

section Session

variable {W : Type} {E : Env W}

/-- What a client does with every server on whose shares it agrees, it does with every server that
has a key. -/
theorem meets_of_converses {config : ClientConfig} {s : System nativeCrypto W}
    {heard sent : Bytes} {p : ClientHelloParams} {privateKey : FixedBytes 32}
    (hshare : KeyShareOf nativeCrypto p.group privateKey p.keyShare)
    (hconverses : Converses nativeCrypto E config s heard p sent) :
    Meets nativeCrypto E config s heard p sent := by
  intro server hserver
  obtain ⟨shared, hshared, -⟩ := native_secrets hserver hshare
  exact ⟨shared, hshared, hconverses server shared (keysAgree_nativeCrypto p.group)⟩

/-- **A whole session over the primitives of the repository.**  From every reachable idle client
there is a ClientHello such that with every server that has a key for its share there is a secret,
and `connect` completes and the two converse under the keys of SHA-256 and AES-128-GCM that follow
from it.  The same holds behind one HelloRetryRequest for the other group. -/
theorem native_session (E : Env W) {config : ClientConfig} (husable : config.usable = true)
    (hgroup : config.preferredGroup = .x25519 ∨ config.preferredGroup = .secp256r1)
    (hfits : HelloFits config) (hE : ∀ group, Cooperates nativeCrypto E group)
    {c : TlsClient nativeCrypto} (hreach : ReachableClient c) (hidle : c.state = .idle) (w : W)
    (trace : List Event) :
    ∃ p ch, Offers nativeCrypto config config.preferredGroup p ch ∧
      Meets nativeCrypto E config ⟨c, w, trace⟩ [] p ch ∧
      ∀ group (hother : group = .x25519 ∨ group = .secp256r1) cookie hcookie,
        group ≠ config.preferredGroup → ∀ m : HelloParts,
          m.OfKind (.retry group hother cookie hcookie) → m.sessionId = p.sessionId →
          m.encode.length ≤ 16384 → ∃ p' ch', Offers nativeCrypto config group p' ch' ∧
            p' = { p with
              group := group, keyShare := p'.keyShare, cookie := cookie.getD [] } ∧
            Meets nativeCrypto E config ⟨c, w, trace⟩ (plainRecord contentHandshake m.encode) p'
              (messageHash (nativeCrypto.sha256 ch) ++ m.encode ++ ch') :=
  waits_behind_hellos E husable hgroup hfits hE (stored_of_reachable hreach)
    fun _ _ _ _ hawaits hgreeted =>
      meets_of_converses hgreeted.share
        (converses_of_completes husable (hE .x25519).toAccepting (stored_of_reachable hreach)
          (hawaits.completes (hE .x25519).toAccepting husable hidle hgreeted))

end Session

/-- Bytes that are all ones. -/
def ones (n : ℕ) : FixedBytes n := ⟨List.replicate n 1, List.length_replicate⟩

/-- An outside world with a random source of ones. -/
def onesEnv : Env Bytes where
  __ := agreeingEnv
  randomBytes _ n := pure (ones n)

/-- A block of ones is a private key of P-256. -/
theorem p256Public_ones : ∃ key, nativeCrypto.p256PublicFromPrivate (ones 32) = .ok key := by
  have hrange : Interface.P256.PrivateKey (ones 32) := by
    unfold Interface.P256.PrivateKey
    decide +kernel
  obtain ⟨key, hkey, -⟩ := p256PublicFromPrivate_spec hrange
  rw [nativeCrypto_p256Public]
  exact ⟨key, hkey⟩

/-- Nothing fails in the environment of ones. -/
theorem cooperates_onesEnv (group : NamedGroup) : Cooperates nativeCrypto onesEnv group where
  sendAll _ _ w := ⟨w, rfl⟩
  malloc _ _ := rfl
  random _ w := ⟨ones 32, w, rfl, fun _ => p256Public_ones⟩

/-- A fresh client with these random bytes. -/
theorem native_session_ones :
    ∃ p ch, Offers nativeCrypto onceConfig .x25519 p ch ∧
      Meets nativeCrypto onesEnv onceConfig ⟨.initial nativeCrypto, [], []⟩ [] p ch := by
  have hreach : ReachableClient (.initial nativeCrypto) :=
    ⟨Bytes, onesEnv, [], [], _, Run.nil _, rfl⟩
  have husable : onceConfig.usable = true := rfl
  obtain ⟨p, ch, hoffers, hmeets, -⟩ := native_session onesEnv husable (.inl rfl)
    helloFits_onceConfig cooperates_onesEnv hreach rfl [] []
  exact ⟨p, ch, hoffers, hmeets⟩

end XboxTls.Analysis
