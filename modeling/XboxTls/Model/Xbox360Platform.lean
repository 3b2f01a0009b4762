import XboxTls.Model.XboxClient

/-!
# The platform of the console (`platform_xbox360.cpp`)

`Xbox360Platform` and `Xbox360SocketStream` over the functions of the operating system.  An `Os`
gives their outcomes over a state `V`; a `Console` is the member `socket_`, the `FILE*` of
`load_trust_store_file`, that state and the calls made so far.  `consoleEnv` is the environment
that `XboxTlsClient` then runs on.
-/

set_option autoImplicit false

namespace XboxTls.Model

open Programs

/-! ## The operating system -/

/-- `SO_SNDTIMEO` and `SO_RCVTIMEO`. -/
inductive TimeoutOption where
  | send
  | receive
  deriving DecidableEq, Repr

/-- The functions of the operating system, and the memory behind the client.  Handles and
pointers are numbers; `none` is `INVALID_SOCKET` or a null pointer. -/
structure Os (V : Type) where
  xeCryptRandom : (n : ℕ) → V → FixedBytes n × V
  /-- The 64 bits of the `FILETIME`. -/
  getSystemTimeAsFileTime : V → UInt64 × V
  xnetStartup : V → ℤ × V
  xnetCleanup : V → V
  wsaStartup : V → ℤ × V
  wsaCleanup : V → V
  /-- The result and the block that `ppxndns` then points to. -/
  dnsLookup : CString → V → (ℤ × Option ℕ) × V
  /-- A read of `iStatus` of the block. -/
  dnsStatus : ℕ → V → ℤ × V
  /-- A read of `cina`. -/
  dnsCount : ℕ → V → ℕ × V
  /-- A read of `aina[0]`. -/
  dnsAddress : ℕ → V → UInt32 × V
  dnsRelease : ℕ → V → V
  sleep : V → V
  socket : V → Option ℕ × V
  /-- Whether `connect` succeeded. -/
  connect : ℕ → UInt32 → UInt16 → V → Bool × V
  /-- Whether `setsockopt` succeeded. -/
  setsockopt : ℕ → TimeoutOption → UInt32 → V → Bool × V
  /-- How many bytes `send` took, or a negative number. -/
  send : ℕ → (data : Bytes) → V → { n : ℤ // n ≤ data.length } × V
  /-- What `recv` brought, at most `cap` bytes; `none` is a negative result. -/
  recv : ℕ → (cap : ℕ) → V → Option { b : Bytes // b.length ≤ cap } × V
  closesocket : ℕ → V → V
  fopen : CString → V → Option ℕ × V
  fseekEnd : ℕ → V → Bool × V
  ftell : ℕ → V → ℤ × V
  fseekSet : ℕ → V → Bool × V
  fread : ℕ → (n : ℕ) → V → { b : Bytes // b.length ≤ n } × V
  fclose : ℕ → V → V
  malloc : ℕ → V → Bool × V
  /-- The memory behind the `pending_app_` of the client when these bytes are written there. -/
  overrun : Bytes → XboxTlsClient → V → XboxTlsClient × V
  /-- The `n` bytes from this place behind `pending_app_` on. -/
  readBehind : ℕ → (n : ℕ) → V → FixedBytes n

/-- A call that takes, uses or gives back something of the operating system. -/
inductive OsCall where
  | xnetStartup (result : ℤ)
  | xnetCleanup
  | wsaStartup (result : ℤ)
  | wsaCleanup
  | dnsLookup (result : ℤ) (block : Option ℕ)
  | dnsRead (block : ℕ)
  | dnsRelease (block : ℕ)
  | socket (handle : Option ℕ)
  | connect (handle : ℕ) (address : UInt32) (port : UInt16) (success : Bool)
  | setsockopt (handle : ℕ) (option : TimeoutOption) (value : UInt32) (success : Bool)
  | send (handle : ℕ) (data : Bytes) (sent : ℤ)
  | recv (handle : ℕ) (cap : ℕ) (data : Option Bytes)
  | closesocket (handle : ℕ)
  | fopen (file : Option ℕ)
  | fileUse (file : ℕ)
  | fclose (file : ℕ)
  deriving DecidableEq, Repr

/-- The console: `socket_`, the `FILE*`, the operating system and its calls. -/
structure Console (V : Type) where
  socket : Option ℕ
  file : ℕ
  os : V
  calls : List OsCall

/-- A console on which nothing was called. -/
def Console.initial {V : Type} (v : V) : Console V := ⟨none, 0, v, []⟩

/-- A function of the platform. -/
abbrev ConsoleM (V : Type) (α : Type) : Type := Prog (Console V) Error α

section Calls

variable {V α : Type}

/-- Call the operating system and record the call. -/
def Console.call (f : V → α × V) (event : α → OsCall) (c : Console V) : α × Console V :=
  ((f c.os).1, { c with os := (f c.os).2, calls := c.calls ++ [event (f c.os).1] })

/-- Call it without a record. -/
def Console.ask (f : V → α × V) (c : Console V) : α × Console V :=
  ((f c.os).1, { c with os := (f c.os).2 })

/-- A function that gives no value. -/
def withoutValue (f : V → V) (v : V) : Unit × V := ((), f v)

/-- `Console.call` as a statement. -/
def callOs (f : V → α × V) (event : α → OsCall) : ConsoleM V α := fun c =>
  some (.ok (c.call f event).1, (c.call f event).2)

/-- `Console.ask` as a statement. -/
def askOs (f : V → α × V) : ConsoleM V α := fun c => some (.ok (c.ask f).1, (c.ask f).2)

/-- `socket_` at this moment. -/
def getSocket : ConsoleM V (Option ℕ) := fun c => some (.ok c.socket, c)

/-- Assign to `socket_`. -/
def setSocket (handle : Option ℕ) : ConsoleM V Unit := fun c =>
  some (.ok (), { c with socket := handle })

end Calls

/-! ## `Xbox360Platform` -/

section Platform

variable {V : Type} (os : Os V)

/-- `Xbox360Platform::random_bytes`; the length is a `DWORD` for the operating system.
SOURCE: src/platform/xbox360/platform_xbox360.cpp:11-19 -/
def Xbox360Platform.randomBytes (n : ℕ) : ConsoleM V (FixedBytes n) :=
  if 0xFFFFFFFF < n then Prog.throw .invalidArgument
  else if n = 0 then pure (.zero n)
  else askOs (os.xeCryptRandom n)

/-- `Xbox360Platform::unix_time_seconds`; a `FILETIME` counts 100 nanoseconds from 1601.
SOURCE: src/platform/xbox360/platform_xbox360.cpp:21-30 -/
def Xbox360Platform.unixTimeSeconds (c : Console V) : UInt64 × Console V :=
  let (time, c) := c.ask os.getSystemTimeAsFileTime
  if time < 116444736000000000 then (0, c) else ((time - 116444736000000000) / 10000000, c)

/-- `xbox360_network_startup`.
SOURCE: src/platform/xbox360/platform_xbox360.cpp:32-45 -/
def xbox360NetworkStartup : ConsoleM V Unit := do
  let xnet ← callOs os.xnetStartup .xnetStartup
  if xnet ≠ 0 then Prog.throw .io
  else do
    let wsa ← callOs os.wsaStartup .wsaStartup
    if wsa ≠ 0 then do
      callOs (withoutValue os.xnetCleanup) fun _ => .xnetCleanup
      Prog.throw .io
    else pure ()

/-- `xbox360_network_cleanup`.
SOURCE: src/platform/xbox360/platform_xbox360.cpp:46-49 -/
def xbox360NetworkCleanup (c : Console V) : Console V :=
  let c := (c.call (withoutValue os.wsaCleanup) fun _ => .wsaCleanup).2
  (c.call (withoutValue os.xnetCleanup) fun _ => .xnetCleanup).2

/-! ## `Xbox360SocketStream` -/

namespace Xbox360SocketStream

/-- `close`.
SOURCE: src/platform/xbox360/platform_xbox360.cpp:148-153 -/
def close (c : Console V) : Console V :=
  match c.socket with
  | none => c
  | some handle =>
    { (c.call (withoutValue (os.closesocket handle)) fun _ => .closesocket handle).2 with
      socket := none }

/-- `close();` as a statement. -/
def closeHere : ConsoleM V Unit := Prog.modify (close os)

/-- `while (dns->iStatus == WSAEINPROGRESS) Sleep(1);`.
SOURCE: src/platform/xbox360/platform_xbox360.cpp:68-69 -/
def awaitDns (dns : ℕ) : ℕ → ConsoleM V Unit
  | 0 => Prog.diverge
  | fuel + 1 => do
    let status ← callOs (os.dnsStatus dns) fun _ => .dnsRead dns
    if status = 10036 then do
      askOs (withoutValue os.sleep)
      awaitDns dns fuel
    else pure ()

/-- `NetDll_XNetDnsRelease`. -/
def release (dns : ℕ) : ConsoleM V Unit :=
  callOs (withoutValue (os.dnsRelease dns)) fun _ => .dnsRelease dns

/-- The block is released and there is no address. -/
def releaseAndFail (dns : ℕ) : ConsoleM V UInt32 := do
  release os dns
  Prog.throw .io

/-- The address of the host.
SOURCE: src/platform/xbox360/platform_xbox360.cpp:63-77 -/
def resolve (fuel : ℕ) (hostname : CString) : ConsoleM V UInt32 := do
  let found ← callOs (os.dnsLookup hostname) fun found => .dnsLookup found.1 found.2
  match found with
  | (_, none) => Prog.throw .io
  | (result, some dns) =>
    if result ≠ 0 then Prog.throw .io
    else do
      awaitDns os dns fuel
      let status ← callOs (os.dnsStatus dns) fun _ => .dnsRead dns
      if status ≠ 0 then releaseAndFail os dns
      else do
        let count ← callOs (os.dnsCount dns) fun _ => .dnsRead dns
        if count = 0 then releaseAndFail os dns
        else do
          let resolved ← callOs (os.dnsAddress dns) fun _ => .dnsRead dns
          release os dns
          pure resolved

/-- `connect_tcp`.
SOURCE: src/platform/xbox360/platform_xbox360.cpp:59-92 -/
def connectTcp (fuel : ℕ) (hostname : CString) (port : UInt16) : ConsoleM V Unit :=
  if hostname.val.length = 0 then Prog.throw .invalidArgument
  else do
    closeHere os
    let resolved ← resolve os fuel hostname
    let opened ← callOs os.socket .socket
    setSocket opened
    match opened with
    | none => Prog.throw .io
    | some handle => do
      let success ← callOs (os.connect handle resolved port) (.connect handle resolved port)
      if success = false then do
        closeHere os
        Prog.throw .io
      else pure ()

/-- One `setsockopt`, with its error. -/
def setTimeout (handle : ℕ) (option : TimeoutOption) (value : UInt32) : ConsoleM V Unit := do
  let success ← callOs (os.setsockopt handle option value) (.setsockopt handle option value)
  if success = false then Prog.throw .io else pure ()

/-- `set_io_timeouts`.
SOURCE: src/platform/xbox360/platform_xbox360.cpp:94-118 -/
def setIoTimeouts (sendTimeoutMs receiveTimeoutMs : UInt32) : ConsoleM V Unit := do
  let socket ← getSocket
  match socket with
  | none => Prog.throw .closed
  | some handle => do
    setTimeout os handle .send sendTimeoutMs
    setTimeout os handle .receive receiveTimeoutMs

/-- The loop of `send_all`; every round takes a byte.
SOURCE: src/platform/xbox360/platform_xbox360.cpp:124-130 -/
def sendLoop (handle : ℕ) : ℕ → Bytes → ConsoleM V Unit
  | 0, _ => Prog.diverge
  | fuel + 1, rest =>
    if rest.length = 0 then pure ()
    else do
      let chunk := rest.take 0x7FFFFFFF
      let n ← callOs (os.send handle chunk) fun n => .send handle chunk n.val
      if n.val ≤ 0 then Prog.throw .io else sendLoop handle fuel (rest.drop n.val.toNat)

/-- `send_all`.
SOURCE: src/platform/xbox360/platform_xbox360.cpp:120-132 -/
def sendAll (data : Bytes) : ConsoleM V Unit := do
  let socket ← getSocket
  match socket with
  | none => Prog.throw .invalidArgument
  | some handle => sendLoop os handle (data.length + 1) data

/-- `recv_some`.
SOURCE: src/platform/xbox360/platform_xbox360.cpp:133-147 -/
def recvSome (n : ℕ) : ConsoleM V { b : Bytes // b.length ≤ n } := do
  let socket ← getSocket
  match socket with
  | none => Prog.throw .invalidArgument
  | some handle =>
    if n = 0 then pure ⟨[], Nat.zero_le n⟩
    else do
      let cap := min n 0x7FFFFFFF
      let received ← callOs (os.recv handle cap) fun b => .recv handle cap (b.map Subtype.val)
      match received with
      | none => Prog.throw .io
      | some b =>
        if b.val.length = 0 then Prog.throw .closed
        else pure ⟨b.val, b.property.trans (Nat.min_le_left n 0x7FFFFFFF)⟩

end Xbox360SocketStream

/-! ## The environment of `XboxTlsClient` -/

/-- `fopen`; a failed one leaves a null pointer in the variable. -/
def openFile (path : CString) (c : Console V) : Bool × Console V :=
  let (file, c) := c.call (os.fopen path) .fopen
  (file.isSome, { c with file := file.getD 0 })

/-- A call on the file. -/
def useFile {α : Type} (f : ℕ → V → α × V) (c : Console V) : α × Console V :=
  c.call (f c.file) fun _ => .fileUse c.file

/-- The console as `XboxTlsClient` uses it; `fuel` is for the waiting in `connect_tcp`. -/
def consoleEnv (fuel : ℕ) : XboxEnv (Console V) where
  networkStartup := xbox360NetworkStartup os
  networkCleanup := xbox360NetworkCleanup os
  randomBytes := Xbox360Platform.randomBytes os
  unixTimeSeconds := Xbox360Platform.unixTimeSeconds os
  connectTcp := Xbox360SocketStream.connectTcp os fuel
  setIoTimeouts := Xbox360SocketStream.setIoTimeouts os
  sendAll := Xbox360SocketStream.sendAll os
  recvSome := Xbox360SocketStream.recvSome os
  closeSocket := Xbox360SocketStream.close os
  fopen := openFile os
  fseekEnd := useFile os.fseekEnd
  ftell := useFile os.ftell
  fseekSet := useFile os.fseekSet
  fread n := useFile fun file => os.fread file n
  fclose c := (c.call (withoutValue (os.fclose c.file)) fun _ => .fclose c.file).2
  malloc n := Console.ask (os.malloc n)
  overrun bytes x c := ((os.overrun bytes x c.os).1, { c with os := (os.overrun bytes x c.os).2 })
  readBehind first n c := os.readBehind first n c.os

end Platform

end XboxTls.Model
