import XboxTls.Programs.Prog
import XboxTls.Model.Hkdf

/-!
# The key schedule (`key_schedule.cpp`) and the transcript hash (`transcript.cpp`)
-/

set_option autoImplicit false

namespace XboxTls.Model

open Programs

variable (P : Crypto)

/-! ## The transcript hash -/

/-- `TranscriptHash`, a wrapper around one `Sha256` object. -/
abbrev TranscriptHash : Type := P.Sha256

/-- `TranscriptHash::update`. -/
def transcriptUpdate (t : TranscriptHash P) (b : Bytes) : TranscriptHash P :=
  if b.length ≠ 0 then P.shaUpdate t b else t

/-- `TranscriptHash::snapshot`: the digest of a copy. -/
def transcriptSnapshot (t : TranscriptHash P) : FixedBytes 32 := P.shaFinal t

/-- No bytes change the hash, so the transcript may skip them. -/
theorem transcriptUpdate_eq (t : TranscriptHash P) (b : Bytes) :
    transcriptUpdate P t b = P.shaUpdate t b := by
  unfold transcriptUpdate
  split
  · rfl
  · next h =>
    have hb : b = [] := by simpa using h
    rw [hb, P.shaUpdate_nil]

/-! ## `KeyScheduleSha256` -/

/-- The secrets of `KeyScheduleSha256`. -/
structure KeySchedule where
  earlySecret : FixedBytes 32
  handshakeSecret : FixedBytes 32
  clientHandshakeTrafficSecret : FixedBytes 32
  serverHandshakeTrafficSecret : FixedBytes 32
  masterSecret : FixedBytes 32
  clientApplicationTrafficSecret : FixedBytes 32
  serverApplicationTrafficSecret : FixedBytes 32
  deriving DecidableEq, Repr

/-- The schedule after construction or `memset`. -/
def KeySchedule.zero : KeySchedule :=
  ⟨FixedBytes.zero 32, FixedBytes.zero 32, FixedBytes.zero 32, FixedBytes.zero 32,
    FixedBytes.zero 32, FixedBytes.zero 32, FixedBytes.zero 32⟩

/-- The static `derive_secret`.
SOURCE: src/tls/key_schedule.cpp:11-13 -/
def deriveSecret (secret : FixedBytes 32) (label th : Bytes) : Except Error (FixedBytes 32) :=
  hkdfExpandLabelSha256 P secret.val label th 32

/-- `KeyScheduleSha256::derive_early_secret`, which never fails.
SOURCE: src/tls/key_schedule.cpp:15-20 -/
def KeySchedule.deriveEarlySecret (s : KeySchedule) (psk : Bytes) : KeySchedule :=
  { s with earlySecret := hkdfExtractSha256 P (FixedBytes.zero 32).val psk }

/-- `KeyScheduleSha256::derive_handshake_secret`.
SOURCE: src/tls/key_schedule.cpp:22-37 -/
def KeySchedule.deriveHandshakeSecret (s : KeySchedule) (ecdhe : Bytes) (th : FixedBytes 32) :
    Except Error KeySchedule := do
  let emptyHash := P.sha256 []
  let derived ← deriveSecret P s.earlySecret
    (ascii ['d', 'e', 'r', 'i', 'v', 'e', 'd']) emptyHash.val
  let handshakeSecret := hkdfExtractSha256 P derived.val ecdhe
  let client ← deriveSecret P handshakeSecret
    (ascii ['c', ' ', 'h', 's', ' ', 't', 'r', 'a', 'f', 'f', 'i', 'c']) th.val
  let server ← deriveSecret P handshakeSecret
    (ascii ['s', ' ', 'h', 's', ' ', 't', 'r', 'a', 'f', 'f', 'i', 'c']) th.val
  pure { s with
    handshakeSecret := handshakeSecret
    clientHandshakeTrafficSecret := client
    serverHandshakeTrafficSecret := server }

/-- `KeyScheduleSha256::derive_master_secret`.
SOURCE: src/tls/key_schedule.cpp:39-55 -/
def KeySchedule.deriveMasterSecret (s : KeySchedule) (th : FixedBytes 32) :
    Except Error KeySchedule := do
  let emptyHash := P.sha256 []
  let derived ← deriveSecret P s.handshakeSecret
    (ascii ['d', 'e', 'r', 'i', 'v', 'e', 'd']) emptyHash.val
  let masterSecret := hkdfExtractSha256 P derived.val (FixedBytes.zero 32).val
  let client ← deriveSecret P masterSecret
    (ascii ['c', ' ', 'a', 'p', ' ', 't', 'r', 'a', 'f', 'f', 'i', 'c']) th.val
  let server ← deriveSecret P masterSecret
    (ascii ['s', ' ', 'a', 'p', ' ', 't', 'r', 'a', 'f', 'f', 'i', 'c']) th.val
  pure { s with
    masterSecret := masterSecret
    clientApplicationTrafficSecret := client
    serverApplicationTrafficSecret := server }

/-- The labels of the schedule are short enough, so no step of it fails. -/
theorem deriveSecret_isOk (secret th : FixedBytes 32) (label : Bytes)
    (hlabel : 6 + label.length ≤ 255) : ∃ out, deriveSecret P secret label th.val = .ok out :=
  hkdfExpandLabelSha256_isOk P secret.val label th.val 32 (by decide) hlabel
    (by rw [th.property]; decide)

/-- The Handshake Secret can always be derived. -/
theorem KeySchedule.deriveHandshakeSecret_isOk (s : KeySchedule) (ecdhe : Bytes)
    (th : FixedBytes 32) : ∃ s', s.deriveHandshakeSecret P ecdhe th = .ok s' := by
  obtain ⟨derived, hderived⟩ := deriveSecret_isOk P s.earlySecret (P.sha256 [])
    (ascii ['d', 'e', 'r', 'i', 'v', 'e', 'd']) (by decide)
  obtain ⟨client, hclient⟩ := deriveSecret_isOk P (hkdfExtractSha256 P derived.val ecdhe) th
    (ascii ['c', ' ', 'h', 's', ' ', 't', 'r', 'a', 'f', 'f', 'i', 'c']) (by decide)
  obtain ⟨server, hserver⟩ := deriveSecret_isOk P (hkdfExtractSha256 P derived.val ecdhe) th
    (ascii ['s', ' ', 'h', 's', ' ', 't', 'r', 'a', 'f', 'f', 'i', 'c']) (by decide)
  unfold KeySchedule.deriveHandshakeSecret
  dsimp only
  rw [hderived, except_ok_bind, hclient, except_ok_bind, hserver, except_ok_bind]
  exact ⟨_, rfl⟩

/-- The Master Secret can always be derived. -/
theorem KeySchedule.deriveMasterSecret_isOk (s : KeySchedule) (th : FixedBytes 32) :
    ∃ s', s.deriveMasterSecret P th = .ok s' := by
  obtain ⟨derived, hderived⟩ := deriveSecret_isOk P s.handshakeSecret (P.sha256 [])
    (ascii ['d', 'e', 'r', 'i', 'v', 'e', 'd']) (by decide)
  obtain ⟨client, hclient⟩ := deriveSecret_isOk P
    (hkdfExtractSha256 P derived.val (FixedBytes.zero 32).val) th
    (ascii ['c', ' ', 'a', 'p', ' ', 't', 'r', 'a', 'f', 'f', 'i', 'c']) (by decide)
  obtain ⟨server, hserver⟩ := deriveSecret_isOk P
    (hkdfExtractSha256 P derived.val (FixedBytes.zero 32).val) th
    (ascii ['s', ' ', 'a', 'p', ' ', 't', 'r', 'a', 'f', 'f', 'i', 'c']) (by decide)
  unfold KeySchedule.deriveMasterSecret
  dsimp only
  rw [hderived, except_ok_bind, hclient, except_ok_bind, hserver, except_ok_bind]
  exact ⟨_, rfl⟩

end XboxTls.Model
