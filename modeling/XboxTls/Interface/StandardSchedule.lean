import XboxTls.Model.KeySchedule

/-!
# The key schedule of RFC 8446

HMAC, HKDF and the key schedule of TLS 1.3 as the standards define them, over any hash
function on byte strings with blocks of 64 and digests of 32 bytes.  A secret is a function
of messages, not of hashes that somebody has to have kept.
-/

set_option autoImplicit false

namespace XboxTls.Interface.Standard

open XboxTls.Model

/-! ## HMAC and HKDF -/

section Hkdf

variable (hash : Bytes → Bytes)

/-- A key as one block. -/
def hmacBlock (key : Bytes) : Bytes :=
  let short := if key.length ≤ 64 then key else hash key
  short ++ List.replicate (64 - short.length) 0

def hmac (key message : Bytes) : Bytes :=
  hash ((hmacBlock hash key).map (· ^^^ 0x5c) ++
    hash ((hmacBlock hash key).map (· ^^^ 0x36) ++ message))

def hkdfExtract (salt ikm : Bytes) : Bytes := hmac hash salt ikm

/-- The first block of HKDF-Expand, which is all that a secret takes. -/
def hkdfExpand (prk info : Bytes) : Bytes := hmac hash prk (info ++ [1])

/-- A vector whose length is written in one byte. -/
def vector8 (b : Bytes) : Bytes := UInt8.ofNat b.length :: b

/-- HKDF-Expand-Label for 32 bytes. -/
def hkdfExpandLabel (secret label context : Bytes) : Bytes :=
  hkdfExpand hash secret ([0, 32] ++
    vector8 (ascii ['t', 'l', 's', '1', '3', ' '] ++ label) ++ vector8 context)

/-- Derive-Secret, on messages. -/
def deriveSecret (secret label messages : Bytes) : Bytes :=
  hkdfExpandLabel hash secret label (hash messages)

end Hkdf

/-! ## The schedule -/

/-- 32 bytes of zeros. -/
def zeros : Bytes := List.replicate 32 0

/-- What stands for the PSK where there is none. -/
def noPsk : Bytes := zeros

/-- The traffic secrets of a connection. -/
structure TrafficSecrets where
  clientHandshake : Bytes
  serverHandshake : Bytes
  clientApplication : Bytes
  serverApplication : Bytes
  deriving DecidableEq, Repr

section Schedule

variable (hash : Bytes → Bytes) (psk shared : Bytes)

def earlySecret : Bytes := hkdfExtract hash zeros psk

def handshakeSecret : Bytes :=
  hkdfExtract hash
    (deriveSecret hash (earlySecret hash psk) (ascii ['d', 'e', 'r', 'i', 'v', 'e', 'd']) [])
    shared

def masterSecret : Bytes :=
  hkdfExtract hash
    (deriveSecret hash (handshakeSecret hash psk shared)
      (ascii ['d', 'e', 'r', 'i', 'v', 'e', 'd']) [])
    zeros

/-- The secrets for the messages through the ServerHello and those through the server's
Finished. -/
def trafficSecrets (hello flight : Bytes) : TrafficSecrets where
  clientHandshake := deriveSecret hash (handshakeSecret hash psk shared)
    (ascii ['c', ' ', 'h', 's', ' ', 't', 'r', 'a', 'f', 'f', 'i', 'c']) hello
  serverHandshake := deriveSecret hash (handshakeSecret hash psk shared)
    (ascii ['s', ' ', 'h', 's', ' ', 't', 'r', 'a', 'f', 'f', 'i', 'c']) hello
  clientApplication := deriveSecret hash (masterSecret hash psk shared)
    (ascii ['c', ' ', 'a', 'p', ' ', 't', 'r', 'a', 'f', 'f', 'i', 'c']) flight
  serverApplication := deriveSecret hash (masterSecret hash psk shared)
    (ascii ['s', ' ', 'a', 'p', ' ', 't', 'r', 'a', 'f', 'f', 'i', 'c']) flight

end Schedule

/-! ## Where two schedules meet -/

/-- Two different byte strings with one digest. -/
def Collides (hash : Bytes → Bytes) (a b : Bytes) : Prop := a ≠ b ∧ hash a = hash b

section Meeting

variable (hash : Bytes → Bytes)

/-- What HMAC hashes first. -/
def hmacInner (key message : Bytes) : Bytes := (hmacBlock hash key).map (· ^^^ 0x36) ++ message

/-- What HMAC hashes last. -/
def hmacOuter (key message : Bytes) : Bytes :=
  (hmacBlock hash key).map (· ^^^ 0x5c) ++ hash (hmacInner hash key message)

/-- What Derive-Secret gives to HMAC. -/
def secretInfo (label messages : Bytes) : Bytes :=
  [0, 32] ++ vector8 (ascii ['t', 'l', 's', '1', '3', ' '] ++ label) ++ vector8 (hash messages) ++
    [1]

/-- A collision makes the HMACs of a message under two keys equal. -/
def KeysMeet (key key' message : Bytes) : Prop :=
  Collides hash (hmacOuter hash key message) (hmacOuter hash key' message)

/-- A collision makes the secrets of a label under two keys equal. -/
def LabelsMeet (key key' label messages : Bytes) : Prop :=
  KeysMeet hash key key' (secretInfo hash label messages)

variable (psk psk' shared : Bytes)

/-- A collision makes the two Early Secrets equal. -/
def EarlySecretsMeet : Prop :=
  Collides hash (hmacInner hash zeros psk) (hmacInner hash zeros psk') ∨
    Collides hash (hmacOuter hash zeros psk) (hmacOuter hash zeros psk')

/-- A collision makes the two Handshake Secrets equal. -/
def HandshakeSecretsMeet : Prop :=
  EarlySecretsMeet hash psk psk' ∨
    LabelsMeet hash (earlySecret hash psk) (earlySecret hash psk')
      (ascii ['d', 'e', 'r', 'i', 'v', 'e', 'd']) [] ∨
    KeysMeet hash
      (deriveSecret hash (earlySecret hash psk) (ascii ['d', 'e', 'r', 'i', 'v', 'e', 'd']) [])
      (deriveSecret hash (earlySecret hash psk') (ascii ['d', 'e', 'r', 'i', 'v', 'e', 'd']) [])
      shared

/-- A collision makes the two Master Secrets of different Handshake Secrets equal. -/
def MasterSecretsMeet : Prop :=
  LabelsMeet hash (handshakeSecret hash psk shared) (handshakeSecret hash psk' shared)
      (ascii ['d', 'e', 'r', 'i', 'v', 'e', 'd']) [] ∨
    KeysMeet hash
      (deriveSecret hash (handshakeSecret hash psk shared)
        (ascii ['d', 'e', 'r', 'i', 'v', 'e', 'd']) [])
      (deriveSecret hash (handshakeSecret hash psk' shared)
        (ascii ['d', 'e', 'r', 'i', 'v', 'e', 'd']) [])
      zeros

/-- Collisions of the hash make all four traffic secrets equal: one collision on the way to the
Handshake Secrets, or one for each secret of the handshake and then one on the way to the Master
Secrets or one for each secret of the application. -/
def TrafficSecretsMeet (hello flight : Bytes) : Prop :=
  HandshakeSecretsMeet hash psk psk' shared ∨
    LabelsMeet hash (handshakeSecret hash psk shared) (handshakeSecret hash psk' shared)
        (ascii ['c', ' ', 'h', 's', ' ', 't', 'r', 'a', 'f', 'f', 'i', 'c']) hello ∧
      LabelsMeet hash (handshakeSecret hash psk shared) (handshakeSecret hash psk' shared)
        (ascii ['s', ' ', 'h', 's', ' ', 't', 'r', 'a', 'f', 'f', 'i', 'c']) hello ∧
      (MasterSecretsMeet hash psk psk' shared ∨
        LabelsMeet hash (masterSecret hash psk shared) (masterSecret hash psk' shared)
            (ascii ['c', ' ', 'a', 'p', ' ', 't', 'r', 'a', 'f', 'f', 'i', 'c']) flight ∧
          LabelsMeet hash (masterSecret hash psk shared) (masterSecret hash psk' shared)
            (ascii ['s', ' ', 'a', 'p', ' ', 't', 'r', 'a', 'f', 'f', 'i', 'c']) flight)

end Meeting

/-! ## The client's secrets in these terms -/

/-- `sha256` on byte strings. -/
def digest (P : Crypto) (b : Bytes) : Bytes := (P.sha256 b).val

/-- The traffic secrets that a schedule object holds. -/
def secretsOf (s : KeySchedule) : TrafficSecrets where
  clientHandshake := s.clientHandshakeTrafficSecret.val
  serverHandshake := s.serverHandshakeTrafficSecret.val
  clientApplication := s.clientApplicationTrafficSecret.val
  serverApplication := s.serverApplicationTrafficSecret.val

end XboxTls.Interface.Standard
