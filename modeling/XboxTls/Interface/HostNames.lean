import XboxTls.Interface.RsaSignatures
import XboxTls.Model.X509

/-!
# Host names and the names of a certificate

Which dNSName a host name matches, and where the list of a subjectAltName has one.  Letters are
compared without their case.  A `*` stands for one label and has to be the first one.
-/

set_option autoImplicit false

namespace XboxTls.Interface

open XboxTls.Model

/-! ## Names -/

/-- Equal, or the upper and the lower case of one ASCII letter. -/
def SameLetter (a b : UInt8) : Prop :=
  a = b ∨ (65 ≤ a.toNat ∧ a.toNat ≤ 90 ∧ b.toNat = a.toNat + 32) ∨
    (65 ≤ b.toNat ∧ b.toNat ≤ 90 ∧ a.toNat = b.toNat + 32)

/-- Equal but for the case of ASCII letters. -/
def SameIgnoringCase (a b : Bytes) : Prop := List.Forall₂ SameLetter a b

/-- `.` -/
def dot : UInt8 := 46

/-- `*` -/
def asterisk : UInt8 := 42

/-- The host name is one label, which is not empty, before a dot and what the name has behind
`*.`. -/
def WildcardMatches (name host : Bytes) : Prop :=
  ∃ label suffix rest : Bytes, name = asterisk :: dot :: suffix ∧ suffix ≠ [] ∧
    host = label ++ dot :: rest ∧ label ≠ [] ∧ dot ∉ label ∧ SameIgnoringCase suffix rest

/-- The dNSName is a name of the host. -/
def NameMatches (name host : Bytes) : Prop :=
  SameIgnoringCase name host ∨ WildcardMatches name host

/-- The number of labels of a name. -/
def labelCount (name : Bytes) : ℕ := name.count dot + 1

/-! ## Elements -/

/-- A well-formed element: its length has at most four octets. -/
structure Element where
  tag : UInt8
  content : Bytes
  bound : content.length < 2 ^ 32

/-- The element in DER. -/
def Element.encode (e : Element) : Bytes := derEncode e.tag e.content

/-- The bytes start with elements of which the last is a dNSName of the host. -/
def NamesHost (san host : Bytes) : Prop :=
  ∃ (run : List Element) (name : Element) (rest : Bytes),
    san = run.flatMap Element.encode ++ name.encode ++ rest ∧ name.tag = 0x82 ∧
      NameMatches name.content host

end XboxTls.Interface
