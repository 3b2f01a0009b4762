import XboxTls.Interface.RsaSignatures
import XboxTls.Model.P256Verify

/-!
# Encodings of ECDSA signatures

The one encoding in DER of a pair of numbers, and the other texts that a reader takes for a pair
when it allows for longer lengths, leading zeros and negative numbers.
-/

set_option autoImplicit false

namespace XboxTls.Interface

open Programs XboxTls.Model

/-! ## DER -/

/-- The SEQUENCE of two INTEGERs in DER. -/
def signatureDer (r s : ℕ) : Bytes :=
  derEncode 0x30 (derEncode 0x02 (derNatural r) ++ derEncode 0x02 (derNatural s))

/-! ## Lengths in any form -/

/-- A length in one octet, or behind `0x81` or `0x82`. -/
inductive LengthForm where
  | short
  | one
  | two
  deriving DecidableEq, Repr

namespace LengthForm

/-- The octets of a length. -/
def octets : LengthForm → ℕ → Bytes
  | short, n => [UInt8.ofNat n]
  | one, n => [0x81, UInt8.ofNat n]
  | two, n => [0x82, UInt8.ofNat (n / 256), UInt8.ofNat n]

/-- The form has room for the length. -/
def Fits : LengthForm → ℕ → Prop
  | short, n => n < 128
  | one, n => n < 256
  | two, n => n < 65536

/-- The form that DER takes for the length. -/
def Minimal : LengthForm → ℕ → Prop
  | short, _ => True
  | one, n => 128 ≤ n
  | two, n => 256 ≤ n

/-- An element with its length in this form. -/
def encode (form : LengthForm) (tag : UInt8) (content : Bytes) : Bytes :=
  tag :: form.octets content.length ++ content

end LengthForm

/-! ## Texts of a pair -/

/-- An INTEGER as it stands in a text. -/
structure IntegerText where
  form : LengthForm
  content : Bytes
  deriving DecidableEq, Repr

namespace IntegerText

def encode (i : IntegerText) : Bytes := i.form.encode 0x02 i.content

/-- At most 32 octets, or one more when the first is zero. -/
structure Readable (i : IntegerText) : Prop where
  fits : i.form.Fits i.content.length
  pos : 1 ≤ i.content.length
  le : i.content.length ≤ 32 ∨ i.content.length = 33 ∧ byteAt i.content 0 = 0

/-- The first bit is set: in DER that is a negative number. -/
def Negative (i : IntegerText) : Prop := 0x80 ≤ (byteAt i.content 0).toNat

/-- A zero in front that does not keep the first bit clear. -/
def NeedlessZero (i : IntegerText) : Prop :=
  1 < i.content.length ∧ byteAt i.content 0 = 0 ∧ (byteAt i.content 1).toNat < 0x80

/-- Not as DER has it. -/
def Lax (i : IntegerText) : Prop :=
  ¬ i.form.Minimal i.content.length ∨ i.Negative ∨ i.NeedlessZero

end IntegerText

/-- A SEQUENCE of two INTEGERs as it stands in a text. -/
structure SignatureText where
  form : LengthForm
  r : IntegerText
  s : IntegerText
  deriving DecidableEq, Repr

namespace SignatureText

def body (t : SignatureText) : Bytes := t.r.encode ++ t.s.encode

def encode (t : SignatureText) : Bytes := t.form.encode 0x30 t.body

structure Readable (t : SignatureText) : Prop where
  fits : t.form.Fits t.body.length
  r : t.r.Readable
  s : t.s.Readable

/-- Not as DER has it. -/
def Lax (t : SignatureText) : Prop := ¬ t.form.Minimal t.body.length ∨ t.r.Lax ∨ t.s.Lax

end SignatureText

/-! ## Acceptance -/

/-- The pair of numbers that `parse_sig` reports. -/
def parsedPair (der : Bytes) : Option (ℕ × ℕ) :=
  (P256.parseSig der).map fun p => (Limbs.value p.1, Limbs.value p.2)

/-- The string is accepted as a pair exactly when it is the encoding of the pair. -/
def AcceptedAsDer (der : Bytes) : Prop :=
  ∀ r s, parsedPair der = some (r, s) ↔ r < 2 ^ 256 ∧ s < 2 ^ 256 ∧ der = signatureDer r s

/-- The string is a text of a pair, and not as DER has it. -/
def LaxSignature (der : Bytes) : Prop := ∃ t : SignatureText, t.Readable ∧ t.Lax ∧ der = t.encode

end XboxTls.Interface
