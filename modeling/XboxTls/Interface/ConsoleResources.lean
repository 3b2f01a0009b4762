import XboxTls.Model.Xbox360Platform

/-!
# What a program holds of the operating system

A list of calls is accepted if every call uses or gives back something that is held at that
moment.  What is held afterwards is the resources that are still to be given back.
-/

set_option autoImplicit false

namespace XboxTls.Interface

open XboxTls.Model

/-- What is held: the two layers of the network, and the blocks, the sockets and the files that
were handed out. -/
structure Resources where
  xnet : Bool
  winsock : Bool
  lookups : List ℕ
  sockets : List ℕ
  files : List ℕ
  deriving DecidableEq, Repr

namespace Resources

def nothing : Resources := ⟨false, false, [], [], []⟩

/-- The call on what is held; `none` is misuse: a layer that is started twice or in the wrong
order or that is stopped under open sockets, a socket or a lookup without the network, a handle
that is not held. -/
def step (held : Resources) : OsCall → Option Resources
  | .xnetStartup result =>
    if held.xnet then none else some { held with xnet := decide (result = 0) }
  | .wsaStartup result =>
    if held.xnet ∧ held.winsock = false then some { held with winsock := decide (result = 0) }
    else none
  | .wsaCleanup =>
    if held.winsock ∧ held.sockets = [] then some { held with winsock := false } else none
  | .xnetCleanup =>
    if held.xnet ∧ held.winsock = false then some { held with xnet := false } else none
  | .dnsLookup _ block =>
    if held.xnet then some { held with lookups := block.toList ++ held.lookups } else none
  | .dnsRead block => if block ∈ held.lookups then some held else none
  | .dnsRelease block =>
    if block ∈ held.lookups then some { held with lookups := held.lookups.erase block } else none
  | .socket handle =>
    if held.winsock then some { held with sockets := handle.toList ++ held.sockets } else none
  | .connect handle _ _ _ => if handle ∈ held.sockets then some held else none
  | .setsockopt handle _ _ _ => if handle ∈ held.sockets then some held else none
  | .send handle _ _ => if handle ∈ held.sockets then some held else none
  | .recv handle _ _ => if handle ∈ held.sockets then some held else none
  | .closesocket handle =>
    if handle ∈ held.sockets then some { held with sockets := held.sockets.erase handle } else none
  | .fopen file => some { held with files := file.toList ++ held.files }
  | .fileUse file => if file ∈ held.files then some held else none
  | .fclose file =>
    if file ∈ held.files then some { held with files := held.files.erase file } else none

/-- The calls one after the other. -/
def replay (held : Resources) (calls : List OsCall) : Option Resources := calls.foldlM step held

end Resources

/-- The block that a lookup hands out together with an error code. -/
def strayBlock : OsCall → Option ℕ
  | .dnsLookup result block => if result ≠ 0 then block else none
  | _ => none

/-- All such blocks, the last one first. -/
def strayBlocks (calls : List OsCall) : List ℕ := (calls.filterMap strayBlock).reverse

/-- The client holds the network while `network_started_` says so, its socket and no other one, no
file, no block of a lookup but stray ones, and of the heap the trust store that it uses. -/
structure Accounted {P : Crypto} {V : Type} (s : XboxSystem P (Console V)) : Prop where
  calls : Resources.nothing.replay s.tls.world.outside.calls =
    some ⟨s.client.networkStarted, s.client.networkStarted,
      strayBlocks s.tls.world.outside.calls, s.tls.world.outside.socket.toList, []⟩
  online : s.tls.world.outside.socket ≠ none → s.client.networkStarted
  heap : s.tls.world.heap.blocks.map Prod.fst = s.client.trustStoreData.toList

/-- The client holds nothing. -/
structure Released {P : Crypto} {V : Type} (s : XboxSystem P (Console V)) : Prop where
  network : s.client.networkStarted = false
  socket : s.tls.world.outside.socket = none
  memory : s.client.trustStoreData = none

end XboxTls.Interface
