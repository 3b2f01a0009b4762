import XboxTls.Interface.ServerHelloGrammar

/-!
# Extensions that occur twice

A block of extensions has each type once.  Where a parser takes a block with a type twice, what
it reports depends on the order of the copies.
-/

set_option autoImplicit false

namespace XboxTls.Interface

open XboxTls.Model RawExtension

/-! ## The extensions of EncryptedExtensions -/

/-- The body of EncryptedExtensions. -/
def encodeExtensions (es : List RawExtension) : Bytes :=
  storeBe16 (encodeAll es).length ++ encodeAll es

/-- Every ALPN extension names one protocol. -/
def NamesProtocols (es : List RawExtension) : Prop :=
  ∀ e ∈ es, e.type = 0x0010 →
    ∃ name, 0 < name.length ∧ name.length ≤ 255 ∧ e.body = alpnBody name

/-- The message is an EncryptedExtensions with these extensions, which name `info.alpn`. -/
structure SaysExtensions (msg : HandshakeMessage) (es : List RawExtension)
    (info : EncryptedExtensionsInfo) : Prop where
  type : msg.type = hsEncryptedExtensions
  bound : (encodeAll es).length < 65536
  body : msg.body = encodeExtensions es
  names : NamesProtocols es
  alpn : info.alpn = (lastBody 0x0010 es).map (List.drop 3)

/-! ## Types that occur twice -/

/-- No type occurs twice in the extensions of a ServerHello that is accepted. -/
def HelloTypesOnce (h : Bytes) : Prop :=
  ∀ info, parseServerHello h = .ok info →
    ∃ m : HelloParts, h = m.encode ∧ (types m.extensions).Nodup

/-- No type occurs twice in an EncryptedExtensions that is accepted. -/
def FlightTypesOnce (msg : HandshakeMessage) : Prop :=
  ∀ info, parseEncryptedExtensions msg = .ok info →
    ∃ es, msg.body = encodeExtensions es ∧ (encodeAll es).length < 65536 ∧ (types es).Nodup

/-- A ServerHello whose extensions are well formed and whose last copies are those of the
profile, with a type twice. -/
def HelloRepeatsType (h : Bytes) : Prop :=
  ∃ m : HelloParts, h = m.encode ∧ m.Acceptable ∧ ¬ (types m.extensions).Nodup

/-- An EncryptedExtensions whose ALPN extensions are well formed, with a type twice. -/
def FlightRepeatsType (msg : HandshakeMessage) : Prop :=
  msg.type = hsEncryptedExtensions ∧ ∃ es, msg.body = encodeExtensions es ∧
    (encodeAll es).length < 65536 ∧ NamesProtocols es ∧ ¬ (types es).Nodup

end XboxTls.Interface
