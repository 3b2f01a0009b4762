import XboxTls.Model.Crypto

/-!
# HMAC and HKDF (`hkdf.cpp`)

The functions follow the source step for step over the streaming hash of a
`Crypto`.  `hkdfExpandSha256_ok` says when the expansion succeeds; the length of its
result is part of its type.
-/

set_option autoImplicit false

namespace XboxTls.Model

variable (P : Crypto)

/-- The bytes of a string literal of the source. -/
def ascii (cs : List Char) : Bytes := cs.map fun c => UInt8.ofNat c.toNat

/-- `hmac_sha256`.
SOURCE: src/crypto/hkdf.cpp:8-31 -/
def hmacSha256 (key data : Bytes) : FixedBytes 32 :=
  let k0 := (FixedBytes.ofBytes 64 (if key.length > 64 then (P.sha256 key).val else key)).val
  let ipad := k0.map (· ^^^ 0x36)
  let opad := k0.map (· ^^^ 0x5c)
  let inner := P.shaUpdate P.shaReset ipad
  let ih := P.shaFinal (if data.length ≠ 0 then P.shaUpdate inner data else inner)
  P.shaFinal (P.shaUpdate (P.shaUpdate P.shaReset opad) ih.val)

/-- `hkdf_extract_sha256`.
SOURCE: src/crypto/hkdf.cpp:33-38 -/
def hkdfExtractSha256 (salt ikm : Bytes) : FixedBytes 32 :=
  let s := if salt.length ≠ 0 then salt else (FixedBytes.zero 32).val
  hmacSha256 P s ikm

/-- The loop of `hkdf_expand_sha256`: `t` is the previous block (empty before the
first), `remaining` is `out.size - pos`.
SOURCE: src/crypto/hkdf.cpp:46-66 -/
def hkdfExpandLoop (prk info : Bytes) : ℕ → Bytes → UInt8 → ℕ → Bytes
  | 0, _, _, _ => []
  | fuel + 1, t, ctr, remaining =>
    if remaining = 0 then []
    else
      let t' := (hmacSha256 P prk (t ++ info ++ [ctr])).val
      let take := min remaining 32
      t'.take take ++ hkdfExpandLoop prk info fuel t' (ctr + 1) (remaining - take)

/-- The messages that the same loop hands to `hmac_sha256`, in their order.
SOURCE: src/crypto/hkdf.cpp:46-59 -/
def hkdfExpandMessages (prk info : Bytes) : ℕ → Bytes → UInt8 → ℕ → List Bytes
  | 0, _, _, _ => []
  | fuel + 1, t, ctr, remaining =>
    if remaining = 0 then []
    else
      let message := t ++ info ++ [ctr]
      message :: hkdfExpandMessages prk info fuel (hmacSha256 P prk message).val (ctr + 1)
        (remaining - min remaining 32)

/-- `hkdf_expand_sha256` into an output of `n` bytes.
SOURCE: src/crypto/hkdf.cpp:40-69 -/
def hkdfExpandSha256 (prk info : Bytes) (n : ℕ) : Except Error (FixedBytes n) :=
  if n > 255 * 32 then .error .invalidArgument
  else if 0 < n ∧ info.length > 512 then .error .invalidArgument
  else .ok (FixedBytes.ofBytes n (hkdfExpandLoop P prk info (n / 32 + 1) [] 1 n))

/-- The `HkdfLabel` that `hkdf_expand_label_sha256` writes. -/
def hkdfLabel (n : ℕ) (label context : Bytes) : Bytes :=
  storeBe16 n ++ [UInt8.ofNat (6 + label.length)] ++ ascii ['t', 'l', 's', '1', '3', ' '] ++
    label ++ [UInt8.ofNat context.length] ++ context

/-- `hkdf_expand_label_sha256`.
SOURCE: src/crypto/hkdf.cpp:71-94 -/
def hkdfExpandLabelSha256 (secret label context : Bytes) (n : ℕ) :
    Except Error (FixedBytes n) :=
  if 6 + label.length > 255 ∨ context.length > 255 then .error .invalidArgument
  else hkdfExpandSha256 P secret (hkdfLabel n label context) n

/-- The loop fills the output, so that padding it to its size changes nothing. -/
theorem hkdfExpandLoop_length (prk info : Bytes) (fuel : ℕ) (t : Bytes) (ctr : UInt8)
    (remaining : ℕ) (h : remaining ≤ 32 * fuel) :
    (hkdfExpandLoop P prk info fuel t ctr remaining).length = remaining := by
  induction fuel generalizing t ctr remaining with
  | zero =>
    have hr : remaining = 0 := by omega
    simp [hkdfExpandLoop, hr]
  | succ fuel ih =>
    unfold hkdfExpandLoop
    split
    · next hr => simp [hr]
    · next hr =>
      rw [List.length_append, ih _ _ _ (by omega), List.length_take, (hmacSha256 P _ _).property]
      omega

/-- An output and an info within the limits are expanded. -/
theorem hkdfExpandSha256_ok (prk info : Bytes) (n : ℕ) (hn : n ≤ 255 * 32)
    (hinfo : info.length ≤ 512) :
    hkdfExpandSha256 P prk info n =
      .ok (FixedBytes.ofBytes n (hkdfExpandLoop P prk info (n / 32 + 1) [] 1 n)) := by
  unfold hkdfExpandSha256
  rw [if_neg (by omega), if_neg (by omega)]

/-- The encoding of a label adds ten bytes to label and context. -/
theorem hkdfLabel_length (n : ℕ) (label context : Bytes) :
    (hkdfLabel n label context).length = 10 + label.length + context.length := by
  simp only [hkdfLabel, ascii, List.length_append, storeBe16_length, List.length_cons,
    List.length_nil, List.length_map]
  omega

/-- A short label with a short context always expands. -/
theorem hkdfExpandLabelSha256_isOk (secret label context : Bytes) (n : ℕ) (hn : n ≤ 255 * 32)
    (hlabel : 6 + label.length ≤ 255) (hcontext : context.length ≤ 236) :
    ∃ out, hkdfExpandLabelSha256 P secret label context n = .ok out := by
  unfold hkdfExpandLabelSha256
  rw [if_neg (by omega)]
  exact ⟨_, hkdfExpandSha256_ok P secret _ n hn (by rw [hkdfLabel_length]; omega)⟩

end XboxTls.Model
