import XboxTls.Analysis.HandshakeRun
import XboxTls.Analysis.ScriptedHandshake
import XboxTls.Analysis.Steady
import XboxTls.Interface.BlankServer
import XboxTls.Interface.ServerFlight

/-!
# The flights that the client accepts

The flight loop dispatches on the type of a message and keeps one flag, whether a
Certificate was seen.  The Finished is accepted whatever came before it, so a server can
leave out its authentication altogether (`bare_finished_connects`).  The two theorems say
for which flights a successful `connect` means an authenticated server
(`authenticated_iff`) and the flight of the profile (`profileFlight_iff`).
-/

set_option autoImplicit false

namespace XboxTls.Analysis

open Programs Programs.Prog XboxTls.Model XboxTls.Interface

variable {P : Crypto} {W : Type} (E : Env W)

/-! ## Splitting logs -/

/-- An element that is not in the left part splits the right part. -/
theorem split_right_of_not_mem {α : Type} {a b before after : List α} {x : α} (hx : x ∉ a)
    (h : a ++ b = before ++ x :: after) : ∃ c, before = a ++ c ∧ b = c ++ x :: after := by
  rcases List.append_eq_append_iff.mp h with ⟨c, hbefore, hb⟩ | ⟨c, ha, hafter⟩
  · exact ⟨c, hbefore, hb⟩
  · cases c with
    | nil => exact ⟨[], by simpa using ha.symm, by simpa using hafter.symm⟩
    | cons y c =>
      have hxy : x = y := (List.cons.inj hafter).1
      exact absurd (by rw [ha, hxy]; simp) hx

/-- An element that is not in the right part splits the left part. -/
theorem split_left_of_not_mem {α : Type} {a b before after : List α} {x : α} (hx : x ∉ b)
    (h : a ++ b = before ++ x :: after) : ∃ c, after = c ++ b ∧ a = before ++ x :: c := by
  rcases List.append_eq_append_iff.mp h with ⟨c, _, hb⟩ | ⟨c, ha, hafter⟩
  · exact absurd (by rw [hb]; simp) hx
  · cases c with
    | nil =>
      have hb : b = x :: after := by simpa using hafter.symm
      exact absurd (by rw [hb]; simp) hx
    | cons y c =>
      obtain ⟨rfl, rfl⟩ := List.cons.inj hafter
      exact ⟨c, rfl, ha⟩

/-! ## Hello logs -/

/-- The hello part of a log holds no message of the flight and no authentication. -/
theorem helloLog_plain {config : ClientConfig} {retried : Bool} {p : ClientHelloParams}
    {log : List Event} (h : HelloLog config retried p log) :
    flightMessages log = [] ∧
      ∀ info cv th hostname, .authenticated info cv th hostname ∉ log := by
  induction h with
  | first => exact ⟨rfl, by simp⟩
  | retry _ _ _ _ _ _ ih =>
    refine ⟨?_, ?_⟩
    · rw [flightMessages_append, ih.1]
      rfl
    · intro info cv th hostname hmem
      rcases List.mem_append.mp hmem with hmem | hmem
      · exact ih.2 info cv th hostname hmem
      · simp at hmem

/-- The transcript of a longer trace goes on with the later events. -/
theorem transcriptBytes_append (P : Crypto) (a b : List Event) :
    transcriptBytes P (a ++ b) = b.foldl (hashEvent P) (transcriptBytes P a) := by
  simp only [transcriptBytes, List.foldl_append]

/-! ## Flight logs -/

section Flight

variable {base : Bytes} {terms : FlightTerms} {msgs : List HandshakeMessage}
variable {l l' : FlightLocals} {log step : List Event} {msg : HandshakeMessage}

/-- A step of the flight is one message. -/
theorem flightMessages_step (h : FlightStep P base terms msgs l msg l' step) :
    flightMessages step = [msg] := by
  cases h <;> rfl

/-- The messages of the log are those of the flight. -/
theorem flightMessages_log (h : FlightLog P base terms msgs l log) :
    flightMessages log = msgs := by
  induction h with
  | nil => rfl
  | snoc _ _ _ hstep ih => rw [flightMessages_append, ih, flightMessages_step hstep]

/-- Every step hashes its message, once. -/
theorem foldl_hashEvent_step (h : FlightStep P base terms msgs l msg l' step)
    (hashed : Bytes) : step.foldl (hashEvent P) hashed = hashed ++ msg.encoded := by
  cases h <;> rfl

/-- The flight adds its messages to the transcript. -/
theorem transcriptBytes_log {before : List Event} (hbefore : transcriptBytes P before = base)
    (h : FlightLog P base terms msgs l log) :
    transcriptBytes P (before ++ log) = base ++ encodings msgs := by
  induction h with
  | nil => simp [hbefore, encodings]
  | snoc _ _ _ hstep ih =>
    rw [← List.append_assoc, transcriptBytes_append, foldl_hashEvent_step hstep, ih,
      encodings_concat, List.append_assoc]

/-- The last message of a log with its step. -/
theorem FlightLog.last (h : FlightLog P base terms (msgs ++ [msg]) l log) :
    ∃ l₁ log₁ step, FlightLog P base terms msgs l₁ log₁ ∧ l₁.gotFinished = false ∧
      FlightStep P base terms msgs l₁ msg l step ∧ log = log₁ ++ step := by
  generalize hmsgs : msgs ++ [msg] = all at h
  cases h with
  | nil => simp at hmsgs
  | snoc hlog hopen _ hstep =>
    obtain ⟨hinit, hlast⟩ := List.append_inj' hmsgs rfl
    obtain rfl := hinit
    obtain rfl := (List.cons.inj hlast).1
    exact ⟨_, _, _, hlog, hopen, hstep, rfl⟩

/-- Any message of a log with its step and what follows. -/
theorem FlightLog.at {msgs₂ : List HandshakeMessage}
    (h : FlightLog P base terms (msgs ++ msg :: msgs₂) l log) :
    ∃ l₁ log₁ l₂ step rest, FlightLog P base terms msgs l₁ log₁ ∧ l₁.gotFinished = false ∧
      FlightStep P base terms msgs l₁ msg l₂ step ∧ log = log₁ ++ step ++ rest ∧
      flightMessages rest = msgs₂ := by
  induction msgs₂ using List.reverseRecOn generalizing l log with
  | nil =>
    obtain ⟨l₁, log₁, step, hlog, hopen, hstep, rfl⟩ := FlightLog.last h
    exact ⟨l₁, log₁, l, step, [], hlog, hopen, hstep, by simp, rfl⟩
  | append_singleton msgs₂ msg' ih =>
    rw [← List.cons_append, ← List.append_assoc] at h
    obtain ⟨l₃, log₃, step', hlog, -, hstep', rfl⟩ := FlightLog.last h
    obtain ⟨l₁, log₁, l₂, step, rest, hlog₁, hopen₁, hstep, rfl, hrest⟩ := ih hlog
    refine ⟨l₁, log₁, l₂, step, rest ++ step', hlog₁, hopen₁, hstep, ?_, ?_⟩
    · simp only [List.append_assoc]
    · rw [flightMessages_append, hrest, flightMessages_step hstep']

/-- An authentication stands before a CertificateVerify. -/
theorem authenticated_position {info : CertificateInfo} {cv : CertificateVerifyInfo}
    {th : FixedBytes 32} {host : CString} {before after : List Event}
    (h : FlightLog P base terms msgs l log)
    (hlog : log = before ++ .authenticated info cv th host :: after) :
    ∃ msg msgs₂, msgs = flightMessages before ++ msg :: msgs₂ ∧
      flightMessages after = msg :: msgs₂ ∧ msg.type = hsCertificateVerify := by
  induction h generalizing before after with
  | nil => simp at hlog
  | @snoc msgs l l' log step msg _ _ _ hstep ih =>
    rcases List.append_eq_append_iff.mp hlog with ⟨c, hbefore, hc⟩ | ⟨c, hmiddle, hafter⟩
    · -- the authentication is in the last step
      cases hstep with
      | verify hcert htype =>
        rcases c with _ | ⟨x, _ | ⟨y, _ | ⟨z, _ | ⟨w, c⟩⟩⟩⟩
        · simp at hc
        · simp at hc
        · simp only [List.cons_append, List.nil_append, List.cons.injEq] at hc
          obtain ⟨rfl, rfl, -, rfl⟩ := hc
          refine ⟨msg, [], ?_, rfl, htype⟩
          rw [hbefore, flightMessages_append, flightMessages_log ‹_›]
          simp [flightMessages]
        · simp at hc
        · simp at hc
      | _ => rcases c with _ | ⟨x, _ | ⟨y, c⟩⟩ <;> simp at hc
    · cases c with
      | nil =>
        -- no step begins with an authentication
        rw [List.nil_append] at hafter
        cases hstep <;> simp at hafter
      | cons y c =>
        obtain ⟨rfl, rfl⟩ := List.cons.inj hafter
        obtain ⟨msg', msgs₂, hmsgs, hmessages, htype⟩ := ih hmiddle
        refine ⟨msg', msgs₂ ++ [msg], ?_, ?_, htype⟩
        · rw [hmsgs, List.append_assoc, List.cons_append]
        · show flightMessages (c ++ step) = _
          rw [flightMessages_append, hmessages, flightMessages_step hstep, List.cons_append]

/-- A complete flight ends with a Finished, and holds only one. -/
theorem FlightLog.finishedLast (h : FlightLog P base terms msgs l log) :
    (l.gotFinished = false → hsFinished ∉ msgs.map (·.type)) ∧
      (l.gotFinished = true → ∃ msgs₁ fin log₁ th, msgs = msgs₁ ++ [fin] ∧
        fin.type = hsFinished ∧ hsFinished ∉ msgs₁.map (·.type) ∧
        log = log₁ ++ [.finishedVerified th, .flight fin]) := by
  induction h with
  | nil => exact ⟨fun _ => by simp, fun h => by simp at h⟩
  | snoc _ hopen _ hstep ih =>
    have hnone := ih.1 hopen
    cases hstep with
    | extensions htype =>
      refine ⟨fun _ => ?_, fun h => absurd h (by simp [hopen])⟩
      simp [htype, hsFinished, hsEncryptedExtensions] at hnone ⊢
      exact hnone
    | certificate htype _ =>
      refine ⟨fun _ => ?_, fun h => absurd h (by simp [hopen])⟩
      simp [htype, hsFinished, hsCertificate] at hnone ⊢
      exact hnone
    | verify _ htype =>
      refine ⟨fun _ => ?_, fun h => absurd h (by simp [hopen])⟩
      simp [htype, hsFinished, hsCertificateVerify] at hnone ⊢
      exact hnone
    | finished htype =>
      refine ⟨fun h => by simp at h, fun _ => ?_⟩
      exact ⟨_, _, _, _, rfl, htype, hnone, rfl⟩

/-- A Finished that was verified ends the flight. -/
theorem gotFinished_of_finishedVerified (h : FlightLog P base terms msgs l log)
    {th : FixedBytes 32} (hmem : .finishedVerified th ∈ log) : l.gotFinished = true := by
  cases hgot : l.gotFinished with
  | true => rfl
  | false =>
    exfalso
    induction h with
    | nil => simp at hmem
    | snoc _ hopen _ hstep ih =>
      have hstepmem := (List.mem_append.mp hmem).resolve_left fun hmem => ih hmem hopen
      cases hstep with
      | finished => simp at hgot
      | _ => simp at hstepmem

end Flight

/-! ## Authentication -/

section Handshake

variable {verdicts : Verdicts} {config : ClientConfig} {hostname : CString} {h : HandshakeParts}
variable {log : List Event}

/-- The messages of a handshake are those of its flight. -/
theorem flightMessages_handshake (hlog : IsHandshake P verdicts config hostname h log) :
    flightMessages log = h.messages := by
  have hhello := (helloLog_plain hlog.hellos).1
  have hflight := flightMessages_log hlog.flight
  rw [hlog.log_eq, flightMessages_append, flightMessages_append, flightMessages_append, hhello,
    hflight]
  simp [flightMessages]

/-- The events of an authentication are events of the flight. -/
theorem authenticated_in_flight (hlog : IsHandshake P verdicts config hostname h log)
    {info : CertificateInfo} {cv : CertificateVerifyInfo} {th : FixedBytes 32} {host : CString}
    {before after : List Event} (heq : log = before ++ .authenticated info cv th host :: after) :
    ∃ b a, h.flight = b ++ .authenticated info cv th host :: a ∧
      flightMessages before = flightMessages b ∧ flightMessages after = flightMessages a := by
  have hhello := helloLog_plain hlog.hellos
  rw [hlog.log_eq, List.append_assoc] at heq
  have hnot : Event.authenticated info cv th host ∉
      h.hellos ++ [.serverHello h.serverHello h.info, .sharedSecret h.privateKey h.shared] := by
    intro hmem
    rcases List.mem_append.mp hmem with hmem | hmem
    · exact hhello.2 info cv th host hmem
    · simp at hmem
  obtain ⟨b, hbefore, hrest⟩ := split_right_of_not_mem hnot heq
  obtain ⟨a, hafter, hflight⟩ := split_left_of_not_mem (by simp) hrest
  refine ⟨b, a, hflight, ?_, ?_⟩
  · rw [hbefore, flightMessages_append, flightMessages_append, hhello.1]
    rfl
  · rw [hafter, flightMessages_append]
    exact List.append_nil _

/-- An authenticated server sent its last Certificate and a CertificateVerify back to back. -/
theorem lastCertificateVerified_of_authenticated
    (hlog : IsHandshake P verdicts config hostname h log)
    (hauth : Authenticated P verdicts config log) : LastCertificateVerified (flightTypes log) := by
  obtain ⟨a, ha⟩ := hauth
  obtain ⟨before, after, hflight, hbefore, hafter⟩ := authenticated_in_flight hlog ha.log_eq
  obtain ⟨msg, msgs₂, hmessages, hmsgs₂, htype⟩ := authenticated_position hlog.flight hflight
  have hlast := ha.last
  rw [hbefore] at hlast
  have hsplit := List.dropLast_append_getLast? _ hlast
  have hnone := ha.noneLater
  unfold flightTypes at hnone
  rw [hafter, hmsgs₂] at hnone
  refine ⟨(flightMessages before).dropLast.map (·.type), msgs₂.map (·.type), ?_, ?_⟩
  · unfold flightTypes
    rw [flightMessages_handshake hlog, hmessages, ← hsplit]
    simp [ha.certificate, htype]
  · intro hmem
    exact hnone (List.mem_cons_of_mem _ hmem)

/-- A last Certificate that is directly followed by a CertificateVerify is authenticated. -/
theorem authenticated_of_lastCertificateVerified
    (hlog : IsHandshake P verdicts config hostname h log)
    (hlast : LastCertificateVerified (flightTypes log)) : Authenticated P verdicts config log := by
  obtain ⟨a, b, htypes, hnone⟩ := hlast
  unfold flightTypes at htypes
  rw [flightMessages_handshake hlog] at htypes
  obtain ⟨front, msgs₂, hmessages, hfront, rfl⟩ := List.map_eq_append_iff.mp htypes
  obtain ⟨msgs₁, pair, rfl, rfl, hpair⟩ := List.map_eq_append_iff.mp hfront
  obtain ⟨cert, tail, rfl, hcert, htail⟩ := List.map_eq_cons_iff.mp hpair
  obtain ⟨verify, tail, rfl, hverify, htail⟩ := List.map_eq_cons_iff.mp htail
  obtain rfl := List.map_eq_nil_iff.mp htail
  have hflight := hlog.flight
  rw [hmessages, show msgs₁ ++ [cert, verify] ++ msgs₂ = (msgs₁ ++ [cert]) ++ verify :: msgs₂ by
    simp] at hflight
  obtain ⟨l₁, log₁, l₂, step, rest, hlog₁, hopen, hstep, hsplit, hrest⟩ := FlightLog.at hflight
  obtain ⟨l₀, log₀, step₀, -, -, hstep₀, -⟩ := FlightLog.last hlog₁
  -- the certificates that are saved are those of the last Certificate
  have hsaved : parseCertificate cert = .ok l₁.certInfo := by
    cases hstep₀ with
    | certificate _ hparse => exact hparse
    | extensions htype => rw [hcert] at htype; exact absurd htype (by decide)
    | verify _ htype => rw [hcert] at htype; exact absurd htype (by decide)
    | finished htype => rw [hcert] at htype; exact absurd htype (by decide)
  obtain ⟨-, hfinished⟩ := FlightLog.finishedLast hlog.flight
  obtain ⟨_, _, _, th, -, -, -, hend⟩ := hfinished hlog.finished
  cases hstep with
  | extensions htype => rw [hverify] at htype; exact absurd htype (by decide)
  | certificate htype => rw [hverify] at htype; exact absurd htype (by decide)
  | finished htype => rw [hverify] at htype; exact absurd htype (by decide)
  | @verify cv chain scheme leaf message _ _ hparse hchain hleaf hname haccepted hscheme hkind
      hmessage hsigned =>
    have hthrough : transcriptBytes P (h.hellos ++ [.serverHello h.serverHello h.info,
        .sharedSecret h.privateKey h.shared] ++ log₁ ++ [.chainVerified chain hostname,
        .signatureVerified scheme leaf message cv.signature]) =
        h.helloBytes P ++ encodings (msgs₁ ++ [cert]) := by
      have hhellos : transcriptBytes P (h.hellos ++ [.serverHello h.serverHello h.info,
          .sharedSecret h.privateKey h.shared]) = h.helloBytes P := by
        rw [transcriptBytes_append]
        rfl
      rw [transcriptBytes_append, transcriptBytes_log hhellos hlog₁]
      rfl
    have hfin : Event.finishedVerified th ∈ rest := by
      have hmem : Event.finishedVerified th ∈ h.flight := by rw [hend]; simp
      rw [hsplit] at hmem
      have hnot : Event.finishedVerified th ∉ log₁ := fun hmem => by
        rw [gotFinished_of_finishedVerified hlog₁ hmem] at hopen
        cases hopen
      simpa [hnot] using hmem
    refine ⟨{
      verifier := h.verifier
      before := h.hellos ++ [.serverHello h.serverHello h.info,
        .sharedSecret h.privateKey h.shared] ++ log₁ ++ [.chainVerified chain hostname,
        .signatureVerified scheme leaf message cv.signature]
      after := .flight verify :: rest ++ [.clientFinished (P.sha256 (h.flightBytes P)) h.finished]
      certificate := cert
      info := l₁.certInfo
      certificateVerify := cv
      chain := chain
      leaf := leaf
      scheme := scheme
      message := message
      hostname := hostname }, ?_, ?_, hlog.configured, hlog.asked, ?_, hcert, hsaved, hchain,
      hleaf, hname, haccepted, ⟨verify, rfl, hverify, hparse⟩, hscheme, hkind, ?_, hsigned, ?_, ?_⟩
    · dsimp only
      rw [hthrough, hlog.log_eq, hsplit]
      simp [HandshakeParts.terms]
    · exact ⟨_, rfl⟩
    · dsimp only
      rw [flightMessages_append, flightMessages_append, flightMessages_append,
        (helloLog_plain hlog.hellos).1, flightMessages_log hlog₁]
      simp [flightMessages]
    · dsimp only
      rw [hthrough]
      exact hmessage
    · exact ⟨th, by simp [hfin]⟩
    · show hsCertificate ∉ flightTypes (.flight verify :: rest ++ [_])
      unfold flightTypes
      rw [flightMessages_append, show flightMessages (.flight verify :: rest) =
        verify :: flightMessages rest from rfl, hrest]
      simp only [flightMessages, List.filterMap_cons, List.filterMap_nil, List.append_nil,
        List.map_cons, List.mem_cons, not_or]
      exact ⟨by rw [hverify]; decide, hnone⟩

end Handshake

/-! ## The flight of the profile -/

section Profile

variable {base : Bytes} {terms : FlightTerms} {msgs : List HandshakeMessage}
variable {l : FlightLocals} {log : List Event}

/-- A flight has messages of four types only. -/
theorem type_mem_of_flightLog (h : FlightLog P base terms msgs l log) :
    ∀ t ∈ msgs.map (·.type), t = hsEncryptedExtensions ∨ t = hsCertificate ∨
      t = hsCertificateVerify ∨ t = hsFinished := by
  induction h with
  | nil => simp
  | snoc _ _ _ hstep ih =>
    intro t ht
    rw [List.map_append, List.mem_append] at ht
    rcases ht with ht | ht
    · exact ih t ht
    · obtain rfl := List.mem_singleton.mp ht
      cases hstep with
      | extensions htype => exact Or.inl htype
      | certificate htype => exact Or.inr (Or.inl htype)
      | verify _ htype => exact Or.inr (Or.inr (Or.inl htype))
      | finished htype => exact Or.inr (Or.inr (Or.inr htype))

/-- A certificate that was saved was in the flight. -/
theorem certificate_of_haveCert (h : FlightLog P base terms msgs l log)
    (hcert : l.haveCert = true) : hsCertificate ∈ msgs.map (·.type) := by
  induction h with
  | nil => simp at hcert
  | snoc _ _ _ hstep ih =>
    rw [List.map_append, List.mem_append]
    cases hstep with
    | extensions => exact Or.inl (ih hcert)
    | certificate htype => exact Or.inr (List.mem_singleton.mpr htype.symm)
    | verify => exact Or.inl (ih hcert)
    | finished => exact Or.inl (ih hcert)

/-- The one order that the loop enforces: a Certificate stands before a CertificateVerify. -/
theorem certificate_before_verify (types₁ types₂ : List UInt8)
    (h : FlightLog P base terms msgs l log)
    (htypes : msgs.map (·.type) = types₁ ++ hsCertificateVerify :: types₂) :
    hsCertificate ∈ types₁ := by
  obtain ⟨msgs₁, tail, rfl, rfl, htail⟩ := List.map_eq_append_iff.mp htypes
  obtain ⟨msg, msgs₂, rfl, htype, rfl⟩ := List.map_eq_cons_iff.mp htail
  obtain ⟨l₁, log₁, l₂, step, rest, hlog₁, -, hstep, -, -⟩ := FlightLog.at h
  cases hstep with
  | extensions hother => rw [htype] at hother; exact absurd hother (by decide)
  | certificate hother => rw [htype] at hother; exact absurd hother (by decide)
  | finished hother => rw [htype] at hother; exact absurd hother (by decide)
  | verify hcert => exact certificate_of_haveCert hlog₁ hcert

end Profile

/-- Two values, each once. -/
theorem pair_of_counts {q : List UInt8} {a b : UInt8} (hab : a ≠ b) (hmem : ∀ t ∈ q, t = a ∨ t = b)
    (ha : q.count a = 1) (hb : q.count b = 1) : q = [a, b] ∨ q = [b, a] := by
  have hlen : q.length = q.count a + q.count b := by
    clear ha hb
    induction q with
    | nil => rfl
    | cons x q ih =>
      have hq := ih fun t ht => hmem t (List.mem_cons_of_mem x ht)
      rcases hmem x List.mem_cons_self with rfl | rfl
      · rw [List.count_cons_self, List.count_cons_of_ne hab, List.length_cons]
        omega
      · rw [List.count_cons_self, List.count_cons_of_ne hab.symm, List.length_cons]
        omega
  rw [ha, hb] at hlen
  obtain ⟨x, y, rfl⟩ := List.length_eq_two.mp hlen
  rcases hmem x (by simp) with rfl | rfl <;> rcases hmem y (by simp) with rfl | rfl
  · simp [List.count_cons_of_ne hab] at hb
  · exact Or.inl rfl
  · exact Or.inr rfl
  · simp [List.count_cons_of_ne hab.symm] at ha

/-- A complete flight with the extensions first and every message once is the flight of the
profile. -/
theorem profileFlight_of_eachOnce {base : Bytes} {terms : FlightTerms}
    {msgs : List HandshakeMessage} {l : FlightLocals} {log : List Event}
    (h : FlightLog P base terms msgs l log) (hdone : l.gotFinished = true)
    (honce : EachOnceExtensionsFirst (msgs.map (·.type))) :
    ProfileFlight (msgs.map (·.type)) := by
  obtain ⟨hhead, hee, hcert, hverify⟩ := honce
  obtain ⟨-, hfinished⟩ := FlightLog.finishedLast h
  obtain ⟨msgs₁, fin, -, -, rfl, hfin, hnone, -⟩ := hfinished hdone
  have hmem := type_mem_of_flightLog h
  have horder := fun types₁ types₂ => certificate_before_verify types₁ types₂ h
  rw [List.map_append, List.map_singleton, hfin] at hhead hee hcert hverify hmem horder ⊢
  generalize msgs₁.map (·.type) = types at *
  cases types with
  | nil => simp [hsFinished, hsEncryptedExtensions] at hhead
  | cons x q =>
    obtain rfl : x = hsEncryptedExtensions := by simpa using hhead
    have hee' : hsEncryptedExtensions ∉ q := by
      rw [List.cons_append, List.count_cons_self, List.count_append] at hee
      exact List.count_eq_zero.mp (by omega)
    have hpair := pair_of_counts (q := q) (a := hsCertificate) (b := hsCertificateVerify)
      (by decide) ?_ ?_ ?_
    · rcases hpair with rfl | rfl
      · rfl
      · have hbad := horder [hsEncryptedExtensions] [hsCertificate, hsFinished] rfl
        exact absurd hbad (by decide)
    · intro t ht
      rcases hmem t (by simp [ht]) with rfl | rfl | rfl | rfl
      · exact absurd ht hee'
      · exact Or.inl rfl
      · exact Or.inr rfl
      · exact absurd (List.mem_cons_of_mem _ ht) hnone
    · simpa [List.count_append, List.count_cons, hsEncryptedExtensions, hsCertificate,
        hsFinished] using hcert
    · simpa [List.count_append, List.count_cons, hsEncryptedExtensions, hsCertificateVerify,
        hsFinished] using hverify

/-- Whatever stops a handshake leaves the client failed. -/
theorem connect_error_failed {fuel : ℕ} {config : ClientConfig} {s s' : System P W} {e : Error}
    (hidle : s.client.state = .idle) (husable : config.usable = true)
    (hrun : connect E fuel config s = some (.error e, s')) : s'.client.state = .failed := by
  have hbody : Maintains (fun _ => True) (fun s => s.client.state = .failed)
      (connectHandshake E fuel config : ClientM P W Unit) :=
    steady_connectHandshake E (fun _ _ _ _ => trivial) (fun s s' h _ => by rw [h.client]) fuel
      config
  have hstart := connect_started E hidle husable hrun
  have hwhole : Maintains (fun _ => True) (fun s => s.client.state = .failed)
      (do connectHandshake E fuel config
          modifyClient fun c => { c with state := .connected } : ClientM P W Unit) := by
    refine maintains_bind hbody fun _ => ?_
    intro s _
    rw [wp_modifyClient]
    trivial
  exact Maintains.run_error hwhole trivial hstart

/-! ## A flight of one message -/

/-- The flight of the scripted server is its Finished. -/
theorem flightTypes_bare {padding : ℕ} {keys : TrafficKeys} {th : FixedBytes 32}
    {fin : HandshakeMessage} {extra rest : Bytes} {s : System P Bytes}
    (h : BareConnection padding keys th fin extra rest s) (htype : fin.type = hsFinished) :
    flightTypes (handshakeEvents s.trace) = [hsFinished] ∧
      ∀ info cv th' host, .authenticated info cv th' host ∉ handshakeEvents s.trace := by
  obtain ⟨ch, shared, clientHs, record, th', clientFin, -, -, hmilestones⟩ := h.milestones
  have hevents := handshakeEvents_milestones s.trace
  rw [hmilestones] at hevents
  constructor
  · rw [← hevents, ← htype]
    rfl
  · intro info cv th'' host hmem
    rw [← hevents] at hmem
    simp [handshakeEvents, handshakeEvent] at hmem

/-! ## A flight of the profile -/

/-- A connection to a server that sends the flight of the profile. -/
theorem profile_connects : ∃ s : System blankCrypto Bytes,
    connect agreeingEnv 5 onceConfig (.fresh blankCrypto (blankHandshake profileMessages)) =
      some (.ok (), s) ∧
    flightTypes (handshakeEvents s.trace) =
      [hsEncryptedExtensions, hsCertificate, hsCertificateVerify, hsFinished] := by
  have hrun : (connect agreeingEnv 5 onceConfig
      (.fresh blankCrypto (blankHandshake profileMessages))).map
        (fun run => (run.1.isOk, flightTypes (handshakeEvents run.2.trace))) =
      some (true, [hsEncryptedExtensions, hsCertificate, hsCertificateVerify, hsFinished]) := by
    decide +kernel
  obtain ⟨⟨r, s⟩, hconnect, hresult⟩ := Option.map_eq_some_iff.mp hrun
  obtain ⟨hisOk, htypes⟩ := Prod.mk.inj hresult
  cases r with
  | ok u => exact ⟨s, hconnect, htypes⟩
  | error e => cases hisOk

/-! ## What `connect` promises -/

/-- **For which flights `XT_OK` means an authenticated server**: those in which the last
Certificate is directly followed by a CertificateVerify. -/
theorem authenticated_iff {fuel : ℕ} {config : ClientConfig} {s s' : System P W}
    (hrun : connect E fuel config s = some (.ok (), s')) :
    ∃ evs, s'.trace = s.trace ++ evs ∧
      (Authenticated P (acceptedBy E) config (handshakeEvents evs) ↔
        LastCertificateVerified (flightTypes (handshakeEvents evs))) := by
  obtain ⟨hostname, h, hconn⟩ := connect_log E (abides_acceptedBy E) hrun
  obtain ⟨evs, htrace, hlog, -, -⟩ := hconn.log
  exact ⟨evs, htrace, lastCertificateVerified_of_authenticated hlog,
    authenticated_of_lastCertificateVerified hlog⟩

/-- The server of the profile is authenticated. -/
theorem authenticated_iff_profile : ∃ s : System blankCrypto Bytes,
    connect agreeingEnv 5 onceConfig (.fresh blankCrypto (blankHandshake profileMessages)) =
      some (.ok (), s) ∧
    Authenticated blankCrypto (acceptedBy agreeingEnv) onceConfig (handshakeEvents s.trace) := by
  obtain ⟨s, hrun, htypes⟩ := profile_connects
  obtain ⟨evs, htrace, hiff⟩ := authenticated_iff agreeingEnv hrun
  have hevs : s.trace = evs := htrace
  refine ⟨s, hrun, ?_⟩
  rw [hevs] at htypes ⊢
  refine hiff.mpr ?_
  rw [htypes]
  exact ⟨[hsEncryptedExtensions], [hsFinished], rfl, by decide⟩

/-- **A server without a certificate is accepted**, whatever the crypto: the verifier of
`scriptEnv` refuses every chain and every signature, and a ServerHello and a Finished suffice. -/
theorem bare_finished_connects :
    KeyAgreementWorks plainCrypto ∧ ∀ P : Crypto, KeyAgreementWorks P →
      ∃ (w : Bytes) (s : System P Bytes),
        connect scriptEnv 2 (scriptConfig 0) (System.fresh P w) = some (.ok (), s) ∧
        s.client.state = .connected ∧
        (∀ info cv th host, .authenticated info cv th host ∉ s.trace) ∧
        ¬ Authenticated P (acceptedBy scriptEnv) (scriptConfig 0) (handshakeEvents s.trace) := by
  refine ⟨keyAgreementWorks_plainCrypto, ?_⟩
  intro P hP
  obtain ⟨script, keys, th, fin, htype, hconnect⟩ := scripted_connect hP 0 [] (by decide)
  obtain ⟨_, s, hrun, hbare⟩ := hconnect 0 []
  have hnone := (flightTypes_bare hbare htype).2
  refine ⟨_, s, hrun, hbare.state, ?_, ?_⟩
  · intro info cv th' host hmem
    exact hnone info cv th' host (List.mem_filter.mpr ⟨hmem, rfl⟩)
  · rintro ⟨a, ha⟩
    apply hnone a.info a.certificateVerify (P.sha256 (transcriptBytes P a.before)) a.hostname
    rw [ha.log_eq]
    simp

/-- **For which flights the client behaves as its profile says.**  From an idle client and
usable arguments, every error leaves the client failed, and after `XT_OK` the flight was that
of the profile exactly when its extensions came first and nothing in it came twice or was
missing. -/
theorem profileFlight_iff {fuel : ℕ} {config : ClientConfig} {s s' : System P W}
    {r : Except Error Unit} (hidle : s.client.state = .idle) (husable : config.usable = true)
    (hrun : connect E fuel config s = some (r, s')) :
    (r ≠ .ok () → s'.client.state = .failed) ∧
      (r = .ok () → ∃ evs, s'.trace = s.trace ++ evs ∧
        (ProfileFlight (flightTypes (handshakeEvents evs)) ↔
          EachOnceExtensionsFirst (flightTypes (handshakeEvents evs)))) := by
  constructor
  · intro herror
    cases r with
    | ok u => exact absurd rfl herror
    | error e => exact connect_error_failed E hidle husable hrun
  · rintro rfl
    obtain ⟨hostname, h, hconn⟩ := connect_log E (abides_acceptedBy E) hrun
    obtain ⟨evs, htrace, hlog, -, -⟩ := hconn.log
    refine ⟨evs, htrace, ?_⟩
    unfold flightTypes
    rw [flightMessages_handshake hlog]
    constructor
    · intro hprofile
      rw [hprofile]
      unfold EachOnceExtensionsFirst
      decide
    · exact profileFlight_of_eachOnce hlog.flight hlog.finished

/-- The flight of the profile is accepted. -/
theorem profileFlight_iff_profile : ∃ s : System blankCrypto Bytes,
    connect agreeingEnv 5 onceConfig (.fresh blankCrypto (blankHandshake profileMessages)) =
      some (.ok (), s) ∧
    ProfileFlight (flightTypes (handshakeEvents s.trace)) := by
  obtain ⟨s, hrun, htypes⟩ := profile_connects
  have husable : onceConfig.usable = true := rfl
  obtain ⟨evs, htrace, hiff⟩ := (profileFlight_iff agreeingEnv rfl husable hrun).2 rfl
  have hevs : s.trace = evs := htrace
  refine ⟨s, hrun, ?_⟩
  rw [hevs] at htypes ⊢
  refine hiff.mpr ?_
  rw [htypes]
  unfold EachOnceExtensionsFirst
  decide

/-- **A flight of one message is accepted**, whatever the crypto. -/
theorem bare_flight_accepted :
    KeyAgreementWorks plainCrypto ∧ ∀ P : Crypto, KeyAgreementWorks P →
      ∃ (w : Bytes) (s : System P Bytes),
        connect scriptEnv 2 (scriptConfig 0) (System.fresh P w) = some (.ok (), s) ∧
        s.client.state = .connected ∧ flightTypes (handshakeEvents s.trace) = [hsFinished] ∧
        ¬ ProfileFlight (flightTypes (handshakeEvents s.trace)) := by
  refine ⟨keyAgreementWorks_plainCrypto, ?_⟩
  intro P hP
  obtain ⟨script, keys, th, fin, htype, hconnect⟩ := scripted_connect hP 0 [] (by decide)
  obtain ⟨_, s, hrun, hbare⟩ := hconnect 0 []
  have htypes := (flightTypes_bare hbare htype).1
  refine ⟨_, s, hrun, hbare.state, htypes, ?_⟩
  rw [htypes]
  unfold ProfileFlight
  decide

end XboxTls.Analysis
