import XboxTls.Analysis.CertificateExtensions
import XboxTls.Analysis.EnvironmentUse
import XboxTls.Interface.BlankServer
import XboxTls.Interface.ConsoleResources

/-!
# Everything that is taken is given back

The functions of the platform take and give back a lookup, a socket and the two layers of the
network, on every way out.  `XboxTlsClient` uses them in order, so in every run of it the calls
are accepted and what is held is what its members say.
-/

set_option autoImplicit false

namespace XboxTls.Analysis

open Programs Programs.Prog XboxTls.Model XboxTls.Interface

variable {V : Type}

/-! ## The books -/

/-- What is held besides the stray blocks. -/
def withStrays (held : Resources) (strays : List ℕ) : Resources :=
  { held with lookups := held.lookups ++ strays }

/-- The calls so far leave `held` and the stray blocks; `socket_` and the `FILE*` are these. -/
structure Books (held : Resources) (socket : Option ℕ) (file : ℕ) (c : Console V) : Prop where
  calls : Resources.nothing.replay c.calls = some (withStrays held (strayBlocks c.calls))
  socket : c.socket = socket
  file : c.file = file

/-- One more call turns `held` into `held'`. -/
def Accepts (held : Resources) (e : OsCall) (held' : Resources) : Prop :=
  ∀ strays, (withStrays held strays).step e =
    some (withStrays held' ((strayBlock e).toList ++ strays))

/-- One more call is replayed last. -/
theorem replay_snoc (held : Resources) (calls : List OsCall) (e : OsCall) :
    held.replay (calls ++ [e]) = (held.replay calls).bind fun held' => held'.step e := by
  unfold Resources.replay
  rw [List.foldlM_append]
  show ((List.foldlM Resources.step held calls).bind fun held' => _) = _
  congr 1
  funext held'
  show (held'.step e).bind _ = _
  cases held'.step e with
  | none => rfl
  | some held'' => rfl

/-- One more call may leave one more stray block. -/
theorem strayBlocks_snoc (calls : List OsCall) (e : OsCall) :
    strayBlocks (calls ++ [e]) = (strayBlock e).toList ++ strayBlocks calls := by
  unfold strayBlocks
  rw [List.filterMap_append, List.reverse_append]
  cases hstray : strayBlock e with
  | none => simp [hstray]
  | some block => simp [hstray]

section Calls

variable {α β : Type} {held : Resources} {socket : Option ℕ} {file : ℕ} {I J : Console V → Prop}

/-- An accepted call is booked. -/
theorem Books.call {c : Console V} (hc : Books held socket file c) {f : V → α × V}
    {event : α → OsCall} {held' : Resources} (haccepts : Accepts held (event (f c.os).1) held') :
    Books held' socket file (c.call f event).2 := by
  refine ⟨?_, hc.socket, hc.file⟩
  show Resources.nothing.replay (c.calls ++ [event (f c.os).1]) = _
  rw [replay_snoc, hc.calls, Option.bind_some, haccepts, ← strayBlocks_snoc]
  rfl

/-- An accepted call, and what follows it. -/
theorem leads_callOs {f : V → α × V} {event : α → OsCall} {g : α → ConsoleM V β}
    (held' : α → Resources) (haccepts : ∀ a, Accepts held (event a) (held' a))
    (hg : ∀ a, Leads (Books (held' a) socket file) I J (g a)) :
    Leads (Books held socket file) I J (callOs f event >>= g) := by
  intro c hc r c' hrun
  exact hg _ _ (hc.call (haccepts _)) r c' hrun

/-- A call that leaves what is held as it is. -/
theorem books_callOs {f : V → α × V} {event : α → OsCall} {held' : Resources}
    (haccepts : ∀ a, Accepts held (event a) held') :
    Leads (Books held socket file) (Books held' socket file) J (callOs f event) := by
  intro c hc r c' hrun
  cases hrun
  exact hc.call (haccepts _)

/-- A question to the system that takes nothing leaves the books. -/
theorem books_askOs (f : V → α × V) :
    Leads (Books held socket file) (Books held socket file) J (askOs f) := by
  intro c hc r c' hrun
  cases hrun
  exact ⟨hc.calls, hc.socket, hc.file⟩

/-- A read of the socket, and what follows it. -/
theorem leads_getSocket {g : Option ℕ → ConsoleM V β}
    (hg : Leads (Books held socket file) I J (g socket)) :
    Leads (Books held socket file) I J (getSocket >>= g) := by
  intro c hc r c' hrun
  refine hg c hc r c' ?_
  rw [← hc.socket]
  exact hrun

/-- Another socket is noted. -/
theorem books_setSocket (handle : Option ℕ) :
    Leads (Books held socket file) (Books held handle file) J
      (setSocket handle : ConsoleM V Unit) := by
  intro c hc r c' hrun
  cases hrun
  exact ⟨hc.calls, rfl, hc.file⟩

end Calls

/-! ## Which calls are accepted -/

/-- A lookup that is held may be read. -/
theorem accepts_dnsRead (dns : ℕ) (files : List ℕ) :
    Accepts ⟨true, true, [dns], [], files⟩ (.dnsRead dns) ⟨true, true, [dns], [], files⟩ := by
  intro strays
  simp [withStrays, Resources.step, strayBlock]

/-- A lookup that is held may be given back. -/
theorem accepts_dnsRelease (dns : ℕ) (files : List ℕ) :
    Accepts ⟨true, true, [dns], [], files⟩ (.dnsRelease dns) ⟨true, true, [], [], files⟩ := by
  intro strays
  simp [withStrays, Resources.step, strayBlock]

/-- A lookup without an error hands out its block to the caller. -/
theorem accepts_dnsLookup (result : ℤ) (block : Option ℕ) (files : List ℕ) :
    Accepts ⟨true, true, [], [], files⟩ (.dnsLookup result block)
      ⟨true, true, if result = 0 then block.toList else [], [], files⟩ := by
  intro strays
  by_cases hresult : result = 0 <;>
    simp [withStrays, Resources.step, strayBlock, hresult]

/-- A call on the socket that is open. -/
theorem accepts_of_socket {handle : ℕ} {files : List ℕ} {e : OsCall}
    (hstep : ∀ held : Resources, held.step e = if handle ∈ held.sockets then some held else none)
    (hstray : strayBlock e = none) :
    Accepts ⟨true, true, [], [handle], files⟩ e ⟨true, true, [], [handle], files⟩ := by
  intro strays
  rw [hstep, hstray]
  exact if_pos (List.mem_singleton_self handle)

/-! ## The functions of the platform -/

section Functions

variable (os : Os V) {α : Type} {file : ℕ} {J : Console V → Prop}

/-- `close` on whatever socket is open. -/
theorem books_close {network : Bool} {socket : Option ℕ} {files : List ℕ} {c : Console V}
    (hc : Books ⟨network, network, [], socket.toList, files⟩ socket file c) :
    Books ⟨network, network, [], [], files⟩ none file (Xbox360SocketStream.close os c) := by
  unfold Xbox360SocketStream.close
  rw [hc.socket]
  cases socket with
  | none => exact hc
  | some handle =>
    have hclosed : Books ⟨network, network, [], [], files⟩ (some handle) file
        (c.call (withoutValue (os.closesocket handle)) fun _ => .closesocket handle).2 := by
      apply hc.call
      intro strays
      simp [withStrays, Resources.step, strayBlock]
    exact ⟨hclosed.calls, rfl, hclosed.file⟩

/-- The socket is given back. -/
theorem books_closeHere (socket : Option ℕ) {files : List ℕ} :
    Leads (Books ⟨true, true, [], socket.toList, files⟩ socket file)
      (Books ⟨true, true, [], [], files⟩ none file) J (Xbox360SocketStream.closeHere os) := by
  intro c hc r c' hrun
  cases hrun
  exact books_close os hc

/-- Waiting for the lookup takes nothing. -/
theorem books_awaitDns (dns fuel : ℕ) :
    Leads (Books ⟨true, true, [dns], [], []⟩ none file)
      (Books ⟨true, true, [dns], [], []⟩ none file) J
      (Xbox360SocketStream.awaitDns os dns fuel) := by
  induction fuel with
  | zero => exact maintains_diverge
  | succ fuel ih =>
    unfold Xbox360SocketStream.awaitDns
    apply leads_callOs (fun _ => ⟨true, true, [dns], [], []⟩) fun _ => accepts_dnsRead dns []
    intro status
    split
    · exact leads_bind (books_askOs _) fun _ => ih
    · exact maintains_pure ()

/-- The block of the lookup is released on every way out, but for a stray one. -/
theorem books_resolve (fuel : ℕ) (hostname : CString) :
    Keeps (Books ⟨true, true, [], [], []⟩ none file)
      (Xbox360SocketStream.resolve os fuel hostname) := by
  have hrelease : ∀ dns : ℕ, Leads (Books ⟨true, true, [dns], [], []⟩ none file)
      (Books ⟨true, true, [], [], []⟩ none file) (Books ⟨true, true, [], [], []⟩ none file)
      (Xbox360SocketStream.release os dns) :=
    fun dns => books_callOs fun _ => accepts_dnsRelease dns []
  have hfail : ∀ dns : ℕ, Leads (Books ⟨true, true, [dns], [], []⟩ none file)
      (Books ⟨true, true, [], [], []⟩ none file) (Books ⟨true, true, [], [], []⟩ none file)
      (Xbox360SocketStream.releaseAndFail os dns) :=
    fun dns => leads_bind (hrelease dns) fun _ => leads_throw (fun _ h => h) _
  unfold Xbox360SocketStream.resolve
  refine leads_callOs
    (fun found => ⟨true, true, if found.1 = 0 then found.2.toList else [], [], []⟩)
    (fun found => accepts_dnsLookup found.1 found.2 []) ?_
  rintro ⟨result, block⟩
  cases block with
  | none =>
    rw [show (if result = 0 then (none : Option ℕ).toList else []) = [] by simp]
    exact leads_throw (fun _ h => h) _
  | some dns =>
    dsimp only
    by_cases hresult : result = 0
    · rw [if_pos hresult, if_neg (not_not.mpr hresult)]
      apply leads_bind (books_awaitDns os dns fuel)
      intro _
      apply leads_callOs (fun _ => ⟨true, true, [dns], [], []⟩) fun _ => accepts_dnsRead dns []
      intro status
      split
      · exact hfail dns
      apply leads_callOs (fun _ => ⟨true, true, [dns], [], []⟩) fun _ => accepts_dnsRead dns []
      intro count
      split
      · exact hfail dns
      apply leads_callOs (fun _ => ⟨true, true, [dns], [], []⟩) fun _ => accepts_dnsRead dns []
      intro resolved
      exact leads_bind (hrelease dns) fun _ => maintains_pure resolved
    · rw [if_neg hresult, if_pos hresult]
      exact leads_throw (fun _ h => h) _

/-- The network and the file are as `network` and `file` say, and what else is held is the socket
of `socket_`. -/
structure Ledger (network opened : Bool) (c : Console V) : Prop where
  books : Books ⟨network, network, [], c.socket.toList, if opened then [c.file] else []⟩
    c.socket c.file c
  online : c.socket ≠ none → network = true

/-- Books between two methods are a ledger. -/
theorem Books.ledger (opened : Bool) {network : Bool} (socket : Option ℕ) {c : Console V}
    (hc : Books ⟨network, network, [], socket.toList, if opened then [file] else []⟩ socket file c)
    (honline : socket ≠ none → network = true) : Ledger network opened c := by
  obtain ⟨hcalls, rfl, rfl⟩ := hc
  exact ⟨⟨hcalls, rfl, rfl⟩, honline⟩

/-- What is shown for every socket and file holds of the ledger. -/
theorem ledger_of_books {network : Bool} {x : ConsoleM V α}
    (hx : ∀ (socket : Option ℕ) (file : ℕ), (socket ≠ none → network = true) →
      Leads (Books ⟨network, network, [], socket.toList, []⟩ socket file)
        (Ledger network false) (Ledger network false) x) :
    Keeps (Ledger network false) x := by
  intro c hc
  exact hx c.socket c.file hc.online c hc.books

/-- `connect_tcp` holds a new socket, or none if it fails. -/
theorem ledger_connectTcp (fuel : ℕ) (hostname : CString) (port : UInt16) :
    Keeps (Ledger true false) (Xbox360SocketStream.connectTcp os fuel hostname port) := by
  apply ledger_of_books
  intro socket file _
  have hledger : ∀ (socket : Option ℕ) (c : Console V),
      Books ⟨true, true, [], socket.toList, []⟩ socket file c → Ledger true false c :=
    fun socket c hc => Books.ledger false socket hc fun _ => rfl
  unfold Xbox360SocketStream.connectTcp
  split
  · exact leads_throw (hledger socket) _
  apply leads_bind (books_closeHere os _)
  intro _
  apply leads_bind
  · exact leads_mono (books_resolve os fuel hostname) (fun _ h => h) (fun _ h => h) (hledger none)
  intro resolved
  refine leads_callOs (fun opened => ⟨true, true, [], opened.toList, []⟩) ?_ ?_
  · intro opened strays
    simp [withStrays, Resources.step, strayBlock]
  intro opened
  apply leads_bind (books_setSocket opened)
  intro _
  cases opened with
  | none => exact leads_throw (hledger none) _
  | some handle =>
    refine leads_callOs (fun _ => ⟨true, true, [], [handle], []⟩)
      (fun _ => accepts_of_socket (fun _ => rfl) rfl) ?_
    intro success
    split
    · apply leads_bind (books_closeHere os (some handle))
      intro _
      exact leads_throw (hledger none) _
    · exact leads_mono (maintains_pure ()) (fun _ h => h) (hledger (some handle)) fun _ h => h

/-- A function that needs the socket. -/
theorem ledger_onSocket {network : Bool} {f : Option ℕ → ConsoleM V α} (e : Error)
    (hnone : f none = Prog.throw e)
    (hsome : ∀ (handle file : ℕ),
      Keeps (Books ⟨true, true, [], [handle], []⟩ (some handle) file) (f (some handle))) :
    Keeps (Ledger network false) (getSocket >>= f) := by
  apply ledger_of_books
  intro socket file honline
  have hledger : ∀ c : Console V, Books ⟨network, network, [], socket.toList, []⟩ socket file c →
      Ledger network false c :=
    fun c hc => Books.ledger false socket hc honline
  apply leads_getSocket
  cases socket with
  | none =>
    rw [hnone]
    exact leads_throw hledger e
  | some handle =>
    obtain rfl : network = true := honline (by simp)
    exact leads_mono (hsome handle file) (fun _ h => h) hledger hledger

/-- A timeout is set on the socket that is held. -/
theorem books_setTimeout (handle : ℕ) (option : TimeoutOption) (value : UInt32) :
    Keeps (Books ⟨true, true, [], [handle], []⟩ (some handle) file)
      (Xbox360SocketStream.setTimeout os handle option value) := by
  refine leads_callOs (fun _ => ⟨true, true, [], [handle], []⟩)
    (fun _ => accepts_of_socket (fun _ => rfl) rfl) ?_
  intro success
  split
  · exact leads_throw (fun _ h => h) _
  · exact maintains_pure ()

/-- `set_io_timeouts` takes nothing. -/
theorem ledger_setIoTimeouts {network : Bool} (sendMs receiveMs : UInt32) :
    Keeps (Ledger network false) (Xbox360SocketStream.setIoTimeouts os sendMs receiveMs) := by
  apply ledger_onSocket .closed rfl
  intro handle file
  exact maintains_bind (books_setTimeout os handle .send sendMs) fun _ =>
    books_setTimeout os handle .receive receiveMs

/-- The loop of `send_all` uses the socket that is held. -/
theorem books_sendLoop (handle fuel : ℕ) (rest : Bytes) :
    Keeps (Books ⟨true, true, [], [handle], []⟩ (some handle) file)
      (Xbox360SocketStream.sendLoop os handle fuel rest) := by
  induction fuel generalizing rest with
  | zero => exact maintains_diverge
  | succ fuel ih =>
    unfold Xbox360SocketStream.sendLoop
    split
    · exact maintains_pure ()
    refine leads_callOs (fun _ => ⟨true, true, [], [handle], []⟩)
      (fun _ => accepts_of_socket (fun _ => rfl) rfl) ?_
    intro n
    split
    · exact leads_throw (fun _ h => h) _
    · exact ih _

/-- `send_all` takes nothing. -/
theorem ledger_sendAll {network : Bool} (bytes : Bytes) :
    Keeps (Ledger network false) (Xbox360SocketStream.sendAll os bytes) := by
  apply ledger_onSocket .invalidArgument rfl
  intro handle file
  exact books_sendLoop os handle _ bytes

/-- `recv_some` takes nothing. -/
theorem ledger_recvSome {network : Bool} (n : ℕ) :
    Keeps (Ledger network false) (Xbox360SocketStream.recvSome os n) := by
  apply ledger_onSocket .invalidArgument rfl
  intro handle file
  dsimp only
  split
  · exact maintains_pure _
  refine leads_callOs (fun _ => ⟨true, true, [], [handle], []⟩)
    (fun _ => accepts_of_socket (fun _ => rfl) rfl) ?_
  intro received
  cases received with
  | none => exact leads_throw (fun _ h => h) _
  | some b =>
    dsimp only
    split
    · exact leads_throw (fun _ h => h) _
    · exact maintains_pure _

/-! ## The console in the hands of the client -/

/-- The network is started, its first layer stopped again if the second one does not start. -/
theorem ledger_networkStartup :
    Leads (Ledger false false) (Ledger true false) (Ledger false false)
      (xbox360NetworkStartup os) := by
  intro c hc
  have hsocket : c.socket = none := by
    by_contra hopen
    exact Bool.false_ne_true (hc.online hopen)
  have hbooks : Books ⟨false, false, [], [], []⟩ none c.file c := by
    have hc := hc.books
    rw [hsocket] at hc
    exact hc
  have hdown : ∀ (file : ℕ) (c : Console V), Books ⟨false, false, [], [], []⟩ none file c →
      Ledger false false c :=
    fun file c hc => Books.ledger false none hc fun h => absurd rfl h
  refine (?_ : Leads (Books ⟨false, false, [], [], []⟩ none c.file) _ _ _) c hbooks
  unfold xbox360NetworkStartup
  refine leads_callOs (fun result => ⟨decide (result = 0), false, [], [], []⟩) ?_ ?_
  · intro result strays
    simp [withStrays, Resources.step, strayBlock]
  intro xnet
  by_cases hxnet : xnet = 0
  · rw [if_neg (not_not.mpr hxnet), decide_eq_true hxnet]
    refine leads_callOs (fun result => ⟨true, decide (result = 0), [], [], []⟩) ?_ ?_
    · intro result strays
      simp [withStrays, Resources.step, strayBlock]
    intro wsa
    by_cases hwsa : wsa = 0
    · rw [if_neg (not_not.mpr hwsa), decide_eq_true hwsa]
      intro c hc
      rw [wp_pure]
      exact Books.ledger false none hc fun _ => rfl
    · rw [if_pos hwsa, decide_eq_false hwsa]
      refine leads_callOs (fun _ => ⟨false, false, [], [], []⟩) ?_ ?_
      · intro _ strays
        simp [withStrays, Resources.step, strayBlock]
      exact fun _ => leads_throw (hdown _) _
  · rw [if_pos hxnet, decide_eq_false hxnet]
    exact leads_throw (hdown _) _

/-- The network is stopped without a socket. -/
theorem ledger_networkCleanup {c : Console V} (hc : Ledger true false c)
    (hsocket : c.socket = none) : Ledger false false (xbox360NetworkCleanup os c) := by
  have hbooks : Books ⟨true, true, [], [], []⟩ none c.file c := by
    have hc := hc.books
    rw [hsocket] at hc
    exact hc
  have hwsa : Books ⟨true, false, [], [], []⟩ none c.file
      (c.call (withoutValue os.wsaCleanup) fun _ => .wsaCleanup).2 := by
    apply hbooks.call
    intro strays
    simp [withStrays, Resources.step, strayBlock]
  refine Books.ledger false none (hwsa.call ?_) fun h => absurd rfl h
  intro strays
  simp [withStrays, Resources.step, strayBlock]

/-- A call on the open file. -/
theorem ledger_useFile {network : Bool} (f : ℕ → V → α × V) {c : Console V}
    (hc : Ledger network true c) : Ledger network true (useFile f c).2 := by
  refine Books.ledger true c.socket (hc.books.call ?_) hc.online
  intro strays
  simp [withStrays, Resources.step, strayBlock]

/-- A file that is opened is held. -/
theorem ledger_openFile {network : Bool} (path : CString) {c : Console V}
    (hc : Ledger network false c) :
    Ledger network (openFile os path c).1 (openFile os path c).2 := by
  have hopened : Books ⟨network, network, [], c.socket.toList, (os.fopen path c.os).1.toList⟩
      c.socket c.file (c.call (os.fopen path) .fopen).2 := by
    apply hc.books.call
    intro strays
    simp [withStrays, Resources.step, strayBlock]
  refine ⟨⟨?_, rfl, rfl⟩, hc.online⟩
  refine hopened.calls.trans ?_
  show some (withStrays ⟨network, network, [], c.socket.toList, _⟩ _) =
    some (withStrays ⟨network, network, [], c.socket.toList,
      if (os.fopen path c.os).1.isSome then [(os.fopen path c.os).1.getD 0] else []⟩ _)
  cases (os.fopen path c.os).1 with
  | none => rfl
  | some file => rfl

/-- A file that is closed is given back. -/
theorem ledger_fclose {network : Bool} {c : Console V} (hc : Ledger network true c) :
    Ledger network false
      (c.call (withoutValue (os.fclose c.file)) fun _ => .fclose c.file).2 := by
  refine Books.ledger false c.socket (hc.books.call ?_) hc.online
  intro strays
  simp [withStrays, Resources.step, strayBlock]

/-- What is not recorded. -/
theorem ledger_ask {network opened : Bool} (f : V → α × V) {c : Console V}
    (hc : Ledger network opened c) : Ledger network opened (c.ask f).2 :=
  ⟨⟨hc.books.calls, rfl, rfl⟩, hc.online⟩

/-- The console keeps its ledger when it is used in order. -/
theorem orderly_consoleEnv (fuel : ℕ) :
    Orderly (consoleEnv os fuel) Ledger (fun c => c.socket = none) where
  networkStartup := ledger_networkStartup os
  networkCleanup c hc hsocket := ⟨ledger_networkCleanup os hc hsocket, hsocket⟩
  randomBytes network n := by
    show Keeps (Ledger network false) (Xbox360Platform.randomBytes os n)
    unfold Xbox360Platform.randomBytes
    split
    · exact maintains_throw (fun _ h => h) _
    split
    · exact maintains_pure _
    · intro c hc r c' hrun
      cases hrun
      exact ledger_ask _ hc
  unixTimeSeconds network c hc := by
    have hask := ledger_ask os.getSystemTimeAsFileTime hc
    show Ledger network false (Xbox360Platform.unixTimeSeconds os c).2
    unfold Xbox360Platform.unixTimeSeconds
    dsimp only
    split
    · exact hask
    · exact hask
  connectTcp hostname port := ledger_connectTcp os fuel hostname port
  setIoTimeouts sendMs receiveMs := ledger_setIoTimeouts os sendMs receiveMs
  sendAll _ bytes := ledger_sendAll os bytes
  recvSome _ n := ledger_recvSome os n
  closeSocket network c hc := by
    have hclosed := books_close os hc.books
    exact ⟨Books.ledger false none hclosed fun h => absurd rfl h, hclosed.socket⟩
  fopen _ path _ hc := ledger_openFile os path hc
  fseekEnd _ _ hc := ledger_useFile os.fseekEnd hc
  ftell _ _ hc := ledger_useFile os.ftell hc
  fseekSet _ _ hc := ledger_useFile os.fseekSet hc
  fread _ n _ hc := ledger_useFile (fun file => os.fread file n) hc
  fclose _ _ hc := ledger_fclose os hc
  malloc _ _ n _ hc := ledger_ask (os.malloc n) hc

end Functions

section Runs

variable {P : Crypto} (os : Os V) (fuel : ℕ) {v : V} {steps : List (XboxStep P (Console V))}
  {s : XboxSystem P (Console V)}

/-- A coherent client accounts for what is held. -/
theorem Coherent.accounted (hs : Coherent Ledger s) : Accounted s where
  calls := hs.outside.books.calls
  online := hs.outside.online
  heap := hs.memory.blocks

/-- **Everything that is taken is given back.**  In every run of the client on the console whose
records fit the caller's buffers and `pending_app_`, with any outcomes of the operating system and
any results of the calls, the calls to the operating system are accepted, and what is held is what
the members of the client say; after a `shutdown` that is nothing. -/
theorem accounted_of_run (hrun : XboxRun (consoleEnv os fuel)
    (XboxSystem.fresh P (Console.initial v)) steps s) (hfits : ∀ step ∈ steps, ReceiveFits step) :
    Accounted s ∧ ∀ r s', XboxReturns (consoleEnv os fuel) .shutdown s r s' → Released s' := by
  have hstart : Ledger false false (Console.initial v) :=
    ⟨⟨rfl, rfl, rfl⟩, fun h => absurd rfl h⟩
  have hs := sound_of_run (orderly_consoleEnv os fuel) hstart hrun hfits
  refine ⟨hs.accounted, fun r s' hreturns => ?_⟩
  have hdown := down_of_shutdown (orderly_consoleEnv os fuel) hs hreturns
  exact ⟨hdown.situated.network, hdown.situated.outside.2, hdown.data⟩

end Runs

/-- A console with a trust store on which a lookup takes one round of waiting and every connection
is refused; the state counts the reads of the status. -/
def refusingOs : Os ℕ where
  xeCryptRandom n w := (.zero n, w)
  getSystemTimeAsFileTime w := (0, w)
  xnetStartup w := (0, w)
  xnetCleanup w := w
  wsaStartup w := (0, w)
  wsaCleanup w := w
  dnsLookup _ w := ((0, some 3), w)
  dnsStatus _ w := (if w = 0 then 10036 else 0, w + 1)
  dnsCount _ w := (1, w)
  dnsAddress _ w := (0x7F000001, w)
  dnsRelease _ w := w
  sleep w := w
  socket w := (some 5, w)
  connect _ _ _ w := (false, w)
  setsockopt _ _ _ w := (true, w)
  send _ _ w := (⟨0, Int.natCast_nonneg _⟩, w)
  recv _ _ w := (none, w)
  closesocket _ w := w
  fopen _ w := (some 7, w)
  fseekEnd _ w := (true, w)
  ftell _ w := ((trustStoreOf onceCertificate).length, w)
  fseekSet _ w := (true, w)
  fread _ n w := (⟨(trustStoreOf onceCertificate).take n, List.length_take_le n _⟩, w)
  fclose _ w := w
  malloc _ w := (true, w)
  overrun _ x w := (x, w)
  readBehind _ n _ := .zero n

/-- The calls to that console up to a refused connection, and those of a `shutdown` behind it. -/
def refusedCalls : List OsCall :=
  [.xnetStartup 0, .wsaStartup 0, .fopen (some 7), .fileUse 7, .fileUse 7, .fileUse 7, .fileUse 7,
    .fclose 7, .dnsLookup 0 (some 3), .dnsRead 3, .dnsRead 3, .dnsRead 3, .dnsRead 3, .dnsRead 3,
    .dnsRelease 3, .socket (some 5), .connect 5 0x7F000001 443 false, .closesocket 5]

/-- The calls to that console before and after a `shutdown` behind these calls of the client. -/
def callsAround (calls : List XboxCall) : Option (List OsCall × List OsCall) :=
  (runCalls (consoleEnv refusingOs 5) 5 calls (.fresh blankCrypto (Console.initial 0))).bind
    fun run => (XboxCall.run (consoleEnv refusingOs 5) 5 .shutdown run.2).map
      fun out => (run.2.tls.world.outside.calls, out.2.tls.world.outside.calls)

/-- A refused connection leaves the network and the trust store, and a `shutdown` nothing. -/
theorem accounted_refused : ∃ steps s r s',
    XboxRun (consoleEnv refusingOs 5) (XboxSystem.fresh blankCrypto (Console.initial 0)) steps s ∧
    s.tls.world.outside.calls = refusedCalls ∧ Accounted s ∧
    XboxReturns (consoleEnv refusingOs 5) .shutdown s r s' ∧
    s'.tls.world.outside.calls = refusedCalls ++ [.wsaCleanup, .xnetCleanup] ∧ Released s' := by
  have haround : callsAround [.initializeDefault, .connectTo (some ⟨[97], by decide⟩) 443 none] =
      some (refusedCalls, refusedCalls ++ [.wsaCleanup, .xnetCleanup]) := by decide +kernel
  unfold callsAround at haround
  obtain ⟨⟨steps, s⟩, hcalls, hshut⟩ := Option.bind_eq_some_iff.mp haround
  obtain ⟨⟨r, s'⟩, hreturns, hlogs⟩ := Option.map_eq_some_iff.mp hshut
  obtain ⟨hbefore, hafter⟩ := Prod.mk.inj hlogs
  obtain ⟨hrun, hsame⟩ := xboxRun_of_runCalls hcalls
  obtain ⟨haccounted, hreleased⟩ :=
    accounted_of_run refusingOs 5 hrun (receiveFits_of_calls hsame (by decide))
  exact ⟨steps, s, r, s', hrun, hbefore, haccounted, ⟨5, hreturns⟩, hafter,
    hreleased r s' ⟨5, hreturns⟩⟩

end XboxTls.Analysis
