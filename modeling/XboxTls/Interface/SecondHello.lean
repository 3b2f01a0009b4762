import XboxTls.Interface.ClientHelloGrammar
import XboxTls.Interface.HandshakeLog

/-!
# The second ClientHello

A HelloRetryRequest asks for the same ClientHello again, with a share for the group that it
names and with its cookie; nothing else may change.
-/

set_option autoImplicit false

namespace XboxTls.Interface

open Programs XboxTls.Model

/-! ## What may change -/

/-- The extension, with one share for this group if it holds the key shares. -/
def HelloExtension.withShare (group : NamedGroup) (share : Bytes) :
    HelloExtension → HelloExtension
  | .keyShare _ => .keyShare [(group.code, share)]
  | e => e

/-- The extension with other groups if it holds the supported groups. -/
def HelloExtension.withGroups (change : List ℕ → List ℕ) : HelloExtension → HelloExtension
  | .supportedGroups groups => .supportedGroups (change groups)
  | e => e

/-- Whether the extension is a cookie. -/
def HelloExtension.isCookie : HelloExtension → Bool
  | .cookie _ => true
  | _ => false

/-- The ClientHello `second` is `first` with one share for the group of the request and with
its cookie, and with the supported groups changed by `change`. -/
structure RepeatedHello (change : List ℕ → List ℕ) (request : ServerHelloInfo)
    (first second : ClientHello) : Prop where
  legacyVersion : second.legacyVersion = first.legacyVersion
  random : second.random = first.random
  legacySessionId : second.legacySessionId = first.legacySessionId
  cipherSuites : second.cipherSuites = first.cipherSuites
  compression : second.legacyCompressionMethods = first.legacyCompressionMethods
  extensions : ∃ share, second.extensions.filter (fun e => !e.isCookie) =
    first.extensions.map fun e => (e.withShare request.group share).withGroups change
  cookie : second.extensions.filter HelloExtension.isCookie =
    if request.cookie = [] then [] else [.cookie request.cookie]

/-! ## The ClientHellos of a call -/

/-- The events of the client's hellos and of the requests to repeat them. -/
def helloEvent : Event → Bool
  | .clientHello _ _ | .retry _ _ => true
  | _ => false

/-- The ClientHellos and the HelloRetryRequests of a trace. -/
def helloEvents (evs : List Event) : List Event := evs.filter helloEvent

/-- A request and two ClientHellos: the one before it and the one that answers it. -/
structure Repetition where
  params : ClientHelloParams
  encoded : Bytes
  requestBytes : Bytes
  request : ServerHelloInfo
  params' : ClientHelloParams
  encoded' : Bytes

/-- The events of a repetition. -/
def Repetition.events (r : Repetition) : List Event :=
  [.clientHello r.params r.encoded, .retry r.requestBytes r.request,
    .clientHello r.params' r.encoded']

/-- The repetition is among the hellos of these events. -/
def Repeats (evs : List Event) (r : Repetition) : Prop := r.events <:+: helloEvents evs

/-- Every second ClientHello repeats the first up to `change`. -/
def RepeatsHello (change : List ℕ → List ℕ) (evs : List Event) : Prop :=
  ∀ r, Repeats evs r → ∃ first second, decodeClientHello r.encoded = some first ∧
    decodeClientHello r.encoded' = some second ∧ RepeatedHello change r.request first second

/-- What a call of `connect` does with ClientHellos. -/
inductive HelloExchange : List Event → Prop where
  | silent : HelloExchange []
  | first (p : ClientHelloParams) (encoded : Bytes) : HelloExchange [.clientHello p encoded]
  | requested (p : ClientHelloParams) (encoded request : Bytes) (info : ServerHelloInfo) :
      HelloExchange [.clientHello p encoded, .retry request info]
  | repeated (r : Repetition) (cookie : r.params.cookie = [])
      (group : r.params.group = .x25519 ∨ r.params.group = .secp256r1)
      (group' : r.request.group = .x25519 ∨ r.request.group = .secp256r1)
      (change : r.request.group ≠ r.params.group)
      (params' : ∃ share, r.params' = { r.params with
        group := r.request.group
        keyShare := share
        cookie := r.request.cookie })
      (build : buildClientHello r.params 2048 = .ok r.encoded)
      (build' : buildClientHello r.params' 2048 = .ok r.encoded') : HelloExchange r.events

end XboxTls.Interface
