import XboxTls.Analysis.Connected
import XboxTls.Analysis.ScriptedHandshake
import XboxTls.Interface.AppData

/-!
# The pending buffer of `recv`

`recv` copies to the pending buffer what the caller's buffer does not take of a record.
`unprotect_record_aes128_gcm` accepts contents of up to 16623 bytes, and nothing compares
their rest with the 16384 bytes of the buffer: with a caller that takes fewer than 239
bytes a large record overflows it.  Where every record fits, the bound holds in every state
of every run (`pending_fits_of_run`).
-/

set_option autoImplicit false

namespace XboxTls.Analysis

open Programs Programs.Prog XboxTls.Model XboxTls.Interface

variable {P : Crypto} {W : Type} (E : Env W)

/-! ## Calls other than `recv` -/

/-- A steady change leaves the pending bytes. -/
theorem pendingFits_steady {s s' : System P W} (h : Steady s s') (hs : PendingFits s.client) :
    PendingFits s'.client := by
  unfold PendingFits
  rw [h.pendingApp, h.pendingAppOffset, h.pendingAppLength]
  exact hs

/-- Wiping the secrets leaves the pending bytes. -/
theorem pendingFits_wiped {s s' : System P W} (h : Wiped s s') (hs : PendingFits s.client) :
    PendingFits s'.client := by
  rw [h.client]
  exact hs

/-- A client whose offset and length were set to zero. -/
theorem pendingFits_of_zero {c c' : TlsClient P} (hc : PendingFits c)
    (happ : c'.pendingApp = c.pendingApp) (hoffset : c'.pendingAppOffset = 0)
    (hlength : c'.pendingAppLength = 0) : PendingFits c' := by
  have hle := hc.1
  unfold PendingFits
  rw [happ, hoffset, hlength]
  exact ⟨hle, Nat.zero_le _⟩

/-- `connect` starts with an empty pending buffer. -/
theorem keeps_pendingFits_connect (fuel : ℕ) (config : ClientConfig) :
    Keeps (fun s => PendingFits s.client) (connect E fuel config : ClientM P W Unit) := by
  have hbody : Keeps (fun s => PendingFits s.client)
      (connectHandshake E fuel config : ClientM P W Unit) :=
    steady_connectHandshake E (fun _ _ => pendingFits_steady) (fun _ _ => pendingFits_wiped)
      fuel config
  unfold connect
  apply maintains_bind maintains_getClient
  intro c
  split
  · exact maintains_throw (fun _ h => h) _
  · apply maintains_bind
    · intro s hs
      rw [wp_modifyClient]
      exact pendingFits_of_zero hs rfl rfl rfl
    · intro _
      apply maintains_bind
      · intro s hs
        rw [wp_emit]
        exact hs
      · intro _
        apply maintains_bind hbody
        intro _ s hs
        rw [wp_modifyClient]
        exact hs

/-- Every call but `recv` keeps the bound. -/
theorem keeps_pendingFits (fuel : ℕ) (call : Call)
    (hcall : ∀ receivedNull outNull size, call ≠ .recv receivedNull outNull size) :
    Keeps (fun s => PendingFits s.client) (call.run E fuel : ClientM P W Bytes) := by
  refine keeps_call E (fun _ _ h => pendingFits_steady h.steady) ?_
    (fun _ _ => pendingFits_wiped) fuel call
    (fun config _ => keeps_pendingFits_connect E fuel config)
    (fun null data _ => firm_send E (fun _ _ h => pendingFits_steady h.steady) (fun _ h => h)
      (fun _ _ => pendingFits_wiped) null data fun _ _ _ hs => hs)
    (fun receivedNull outNull size h => absurd h (hcall receivedNull outNull size))
  intro s s' hended hs
  unfold PendingFits
  rw [hended.pendingApp]
  rcases hended.pending with ⟨hoffset, hlength⟩ | ⟨hoffset, hlength⟩
  · rw [hoffset, hlength]
    exact hs
  · rw [hoffset, hlength]
    exact ⟨hs.1, Nat.zero_le _⟩

/-! ## `recv` -/

/-- While a call of `recv` runs: the bound holds if the records opened since its start
fit. -/
def FitsSince (start : List Event) (size : ℕ) (s : System P W) : Prop :=
  ∃ evs, s.trace = start ++ evs ∧ (OpenedFit P size evs → PendingFits s.client)

/-- More events only make the condition stronger. -/
theorem openedFit_of_append {size : ℕ} {a b : List Event} (h : OpenedFit P size (a ++ b)) :
    OpenedFit P size a := by
  intro keys record content hmem
  exact h keys record content (List.mem_append_left b hmem)

/-- A change that keeps the bound on the pending bytes. -/
theorem fitsSince_of_frame {start : List Event} {size : ℕ} {s s' : System P W}
    (hs : FitsSince start size s) (htrace : ∃ evs, s'.trace = s.trace ++ evs)
    (hclient : PendingFits s.client → PendingFits s'.client) : FitsSince start size s' := by
  obtain ⟨evs, hstart, hfits⟩ := hs
  obtain ⟨evs', htrace⟩ := htrace
  refine ⟨evs ++ evs', ?_, ?_⟩
  · rw [htrace, hstart, List.append_assoc]
  · intro h
    exact hclient (hfits (openedFit_of_append h))

/-- A steady change keeps the bound. -/
theorem fitsSince_steady {start : List Event} {size : ℕ} {s s' : System P W}
    (h : Steady s s') (hs : FitsSince start size s) : FitsSince start size s' := by
  obtain ⟨evs, htrace, -⟩ := h.trace
  exact fitsSince_of_frame hs ⟨evs, htrace⟩ (pendingFits_steady h)

/-- Wiping the secrets keeps the bound. -/
theorem fitsSince_wiped {start : List Event} {size : ℕ} {s s' : System P W}
    (h : Wiped s s') (hs : FitsSince start size s) : FitsSince start size s' :=
  fitsSince_of_frame hs ⟨[], by rw [h.trace, List.append_nil]⟩ (pendingFits_wiped h)

/-- Handing out pending bytes keeps the bound. -/
theorem wp_recvPending {start : List Event} {size : ℕ} {s : System P W} (n : ℕ)
    (hs : FitsSince start size s) :
    wp (recvPending E n) (ends (FitsSince start size) (FitsSince start size)) s := by
  apply wp_recvPending_of
  intro bytes _
  apply fitsSince_of_frame hs ⟨_, rfl⟩
  intro hfits
  have happ := hfits.1
  have hsum := hfits.2
  refine ⟨happ, ?_⟩
  dsimp only
  split <;> omega

/-- The rest of a record that was just opened is kept. -/
theorem wp_recvData {start : List Event} {size : ℕ} {s : System P W} {record content : Bytes}
    (hs : FitsSince start size s) (hopen : HoldsAppData P s.client.serverAppKeys record content) :
    wp (recvData E content size) (ends (FitsSince start size) (FitsSince start size))
      (afterOpen s .serverApp record) := by
  obtain ⟨evs, hstart, hfits⟩ := hs
  have hbound : OpenedFit P size (evs ++ [.opened .serverApp s.client.serverAppKeys record]) →
      content.length ≤ pendingSize + size := by
    intro h
    exact h _ record content (by simp) hopen
  have hopened : FitsSince start size (afterOpen s .serverApp record) :=
    fitsSince_steady (firm_afterOpen s _ _).steady ⟨evs, hstart, hfits⟩
  apply wp_recvData_of
  · intro _
    exact fitsSince_of_frame hopened ⟨[.appData content size,
      .delivered (content.take (min content.length size))], by simp⟩ (fun h => h)
  · intro hlong level description w
    refine ⟨evs ++ [.opened .serverApp s.client.serverAppKeys record, .appData content size,
      .delivered (content.take (min content.length size))], ?_, ?_⟩
    · simp only [afterOpen, hstart, List.append_assoc]
      rfl
    · intro h
      have hle : content.length ≤ pendingSize + size := by
        apply hbound
        apply openedFit_of_append
          (b := [.appData content size, .delivered (content.take (min content.length size))])
        rw [List.append_assoc]
        exact h
      refine ⟨?_, ?_⟩
      · dsimp only
        rw [List.length_drop]
        omega
      · dsimp only
        omega

/-- `recv` keeps the bound while its records fit. -/
theorem keeps_fitsSince_recv (start : List Event) (fuel : ℕ) (receivedNull outNull : Bool)
    (size : ℕ) :
    Keeps (FitsSince start size) (recv E fuel receivedNull outNull size : ClientM P W Bytes) := by
  have hS : ∀ s s' : System P W, Steady s s' → FitsSince start size s → FitsSince start size s' :=
    fun _ _ => fitsSince_steady
  have hW : ∀ s s' : System P W, Wiped s s' → FitsSince start size s → FitsSince start size s' :=
    fun _ _ => fitsSince_wiped
  have halert : ∀ content, Keeps (FitsSince start size)
      (recvAlert E content : ClientM P W Bytes) := by
    intro content
    unfold recvAlert
    apply maintains_bind (maintains_handleAlert (Steady.still_closed hS) _)
    intro ae
    split
    · intro s hs r s' hrun
      rw [recvClosed_apply] at hrun
      cases hrun
      exact fitsSince_of_frame hs ⟨[], by simp [afterEnd]⟩ (fun h => h)
    · exact maintains_failWith E hW _
  unfold recv
  apply maintains_bind maintains_getClient
  intro c
  split
  · exact maintains_throw (fun _ h => h) _
  · split
    · exact maintains_throw (fun _ h => h) _
    · split
      · intro s hs
        exact wp_recvPending E size hs
      · exact steady_recvRecords E hS hW size (fun s record content hs hopen =>
          wp_recvData E hs hopen) halert fuel

/-! ## Runs -/

/-- **The pending buffer holds what `recv` keeps**, in every state of every run whose calls
of `recv` open only application-data records that fit the caller's buffer and the pending
buffer together. -/
theorem pending_fits_of_run (w : W) (log : List (Call × Except Error Bytes)) (s : System P W)
    (hrun : RunWhere E RecvFits (System.fresh P w) log s) :
    s.client.pendingApp.length ≤ 16384 ∧
      s.client.pendingAppOffset + s.client.pendingAppLength ≤ 16384 := by
  have hinv : PendingFits s.client := by
    apply hrun.invariant (I := fun s => PendingFits s.client)
    · rintro call s r s' hs ⟨fuel, hret⟩ hfit
      by_cases hcall : ∃ receivedNull outNull size, call = .recv receivedNull outNull size
      · obtain ⟨receivedNull, outNull, size, rfl⟩ := hcall
        have hstart : FitsSince s.trace size s := ⟨[], by simp, fun _ => hs⟩
        obtain ⟨evs, htrace, hfits⟩ := Keeps.run
          (keeps_fitsSince_recv E s.trace fuel receivedNull outNull size) hstart hret
        exact hfits (hfit evs htrace)
      · have hother : ∀ receivedNull outNull size, call ≠ .recv receivedNull outNull size := by
          intro receivedNull outNull size h
          exact hcall ⟨receivedNull, outNull, size, h⟩
        exact Keeps.run (keeps_pendingFits E fuel call hother) hs hret
    · exact ⟨by simp [System.fresh, TlsClient.initial], by simp [System.fresh,
        TlsClient.initial]⟩
  exact hinv

/-! ## Records from the script -/

/-- What is kept of application data of the script; nothing lies behind the client. -/
theorem recvData_script {content : Bytes} {size : ℕ} (hlong : size < content.length)
    (s : System P Bytes) : ∃ level description,
    recvData scriptEnv content size s = some (.ok (content.take size), { s with
      client := { s.client with
        pendingApp := content.drop size
        pendingAppOffset := 0
        pendingAppLength := content.length - size
        lastAlertLevel := level
        lastAlertDescription := description }
      trace := s.trace ++ [.appData content size] ++ [.delivered (content.take size)] }) := by
  have hmin : min content.length size = size := by omega
  refine ⟨((content.drop size).drop 16384).getD (2 * scriptEnv.sizeOfSize)
      s.client.lastAlertLevel,
    ((content.drop size).drop 16384).getD (2 * scriptEnv.sizeOfSize + 1)
      s.client.lastAlertDescription, ?_⟩
  unfold recvData keepRest copyToPending
  dsimp only
  rw [hmin, if_pos hlong, ← List.length_drop]
  by_cases hnone : ((content.drop size).drop 16384).length = 0
  · rw [if_pos hnone]
    rfl
  · have hworld : scriptEnv.writeBehind ((content.drop size).drop 16384) s.world = s.world := rfl
    rw [if_neg hnone]
    simp only [bind_apply, emit, updateWorld, hworld]
    rfl

/-- What `recv` does with a record that the caller's buffer does not take whole. -/
theorem recv_script {stream : ℕ} (outNull : Bool) (size padding : ℕ) (content rest : Bytes)
    (s : System P Bytes) (hout : outNull = true → size = 0) (hconn : s.client.state = .connected)
    (hstream : s.client.config.stream = some stream) (hempty : s.client.pendingAppLength = 0)
    (hlong : size < content.length) (hfrag : fragLength content padding ≤ 16640)
    (hworld : s.world = sealedRecord P s.client.serverAppKeys contentApplicationData content
      padding ++ rest) :
    ∃ s', recv scriptEnv 1 false outNull size s = some (.ok (content.take size), s') ∧
      s'.client.pendingApp = content.drop size ∧ s'.client.pendingAppOffset = 0 ∧
      s'.client.pendingAppLength = content.length - size ∧
      s'.trace = s.trace ++ [.opened .serverApp s.client.serverAppKeys
        (sealedRecord P s.client.serverAppKeys contentApplicationData content padding),
        .appData content size, .delivered (content.take size)] := by
  obtain ⟨body, hbody, hrecord⟩ := sealedRecord_frame (P := P) s.client.serverAppKeys
    contentApplicationData content padding
  have hread := readRecord_script contentApplicationData body rest s hstream (by omega)
    (by rw [hworld, hrecord])
  have hheader := parseRecordHeader_header contentApplicationData body.length (by omega) body
  rw [← hrecord] at hread hheader
  have hopen := unprotectRecord_run .serverApp contentApplicationData (by decide) (by decide)
    content padding (⟨s.client, rest, s.trace⟩ : System P Bytes) hfrag
  have hrun : recv scriptEnv 1 false outNull size s = recvData scriptEnv content size
      (afterOpen ⟨s.client, rest, s.trace⟩ .serverApp (sealedRecord P s.client.serverAppKeys
        contentApplicationData content padding)) := by
    unfold recv
    rw [bind_of_ok rfl, if_neg, if_neg (by simp [hconn]), if_neg (by simp [hempty])]
    · unfold recvRecords
      rw [bind_of_ok (orFail_of_ok _ hread), bind_of_ok (orFail_of_ok _ (lift_of_ok hheader _))]
      dsimp only
      rw [if_neg (by decide), if_neg (by decide)]
      exact bind_of_ok (orFail_of_ok _ hopen)
    · rintro (h | ⟨h, hsize⟩)
      · cases h
      · exact hsize (hout h)
  obtain ⟨level, description, hkeep⟩ := recvData_script hlong (afterOpen ⟨s.client, rest, s.trace⟩
    .serverApp (sealedRecord P s.client.serverAppKeys contentApplicationData content padding))
  refine ⟨_, hrun.trans hkeep, rfl, rfl, rfl, ?_⟩
  simp only [afterOpen, List.append_assoc]
  rfl

/-- A run in which the server sends one application-data record, and the caller takes less
than it holds. -/
theorem scripted_recv (hP : KeyAgreementWorks P) (outNull : Bool) (size : ℕ) (content : Bytes)
    (hout : outNull = true → size = 0) (hlong : size < content.length)
    (hfrag : fragLength content 0 ≤ 16640) :
    ∃ (w : Bytes) (s₁ s : System P Bytes) (keys : TrafficKeys),
      Returns scriptEnv (.connect (scriptConfig 0)) (System.fresh P w) (.ok []) s₁ ∧
      Returns scriptEnv (.recv false outNull size) s₁ (.ok (content.take size)) s ∧
      s₁.client.state = .connected ∧
      s.trace = s₁.trace ++ [.opened .serverApp keys
        (sealedRecord P keys contentApplicationData content 0),
        .appData content size, .delivered (content.take size)] ∧
      s.client.pendingApp = content.drop size ∧ s.client.pendingAppOffset = 0 ∧
      s.client.pendingAppLength = content.length - size := by
  obtain ⟨script, keys, th, fin, -, hconnect⟩ := scripted_connect hP 0 [] (by decide)
  obtain ⟨_, s₁, hrun₁, hbare⟩ := hconnect 0
    (sealedRecord P keys contentApplicationData content 0)
  obtain ⟨s, hrun, happ, hoffset, hlength, htrace⟩ := recv_script outNull size 0 content [] s₁ hout
    hbare.state (by rw [hbare.config]; rfl) hbare.pending hlong hfrag
    (by rw [hbare.world, hbare.keys, List.append_nil])
  rw [hbare.keys] at htrace
  exact ⟨_, s₁, s, keys, ⟨2, bind_of_ok hrun₁⟩, ⟨1, hrun⟩, hbare.state, htrace, happ, hoffset,
    hlength⟩

/-- A record of three bytes read with room for one leaves two behind. -/
theorem pending_fits_of_three :
    ∃ s : System plainCrypto Bytes, s.client.pendingAppLength = 2 ∧
      s.client.pendingApp.length ≤ 16384 ∧
      s.client.pendingAppOffset + s.client.pendingAppLength ≤ 16384 := by
  obtain ⟨w, s₁, s, keys, hconnect, hrecv, -, htrace, -, -, hlength⟩ := scripted_recv
    keyAgreementWorks_plainCrypto false 1 [1, 2, 3] (by simp) (by decide) (by decide)
  have hfits : RecvFits s₁ (.recv false false 1) s := by
    intro evs hevs keys' record content hmem hopen
    rw [htrace, List.append_cancel_left_eq] at hevs
    rw [← hevs] at hmem
    simp only [List.mem_cons, Event.opened.injEq, reduceCtorEq, List.not_mem_nil, or_false,
      true_and] at hmem
    obtain ⟨rfl, rfl⟩ := hmem
    have hsealed := unprotect_sealedRecord (P := plainCrypto) keys' contentApplicationData
      (by decide) (by decide) [1, 2, 3] 0 (by decide)
    unfold HoldsAppData at hopen
    rw [hsealed] at hopen
    cases hopen
    decide
  have hnil := RunWhere.nil (E := scriptEnv) (C := RecvFits) (System.fresh plainCrypto w)
  have hrun := (hnil.snoc hconnect trivial).snoc hrecv hfits
  exact ⟨s, hlength, pending_fits_of_run scriptEnv w _ s hrun⟩

/-- A record of 16385 bytes read with no room leaves one byte more behind than the pending
buffer holds, whatever the crypto. -/
theorem pending_overflows_16385 :
    KeyAgreementWorks plainCrypto ∧ ∀ P : Crypto, KeyAgreementWorks P →
      ∃ (w : Bytes) (log : List (Call × Except Error Bytes)) (s : System P Bytes),
        Run scriptEnv (System.fresh P w) log s ∧
        log.getLast? = some (.recv false true 0, .ok []) ∧
        s.client.pendingApp.length = 16385 ∧
        16384 < s.client.pendingAppOffset + s.client.pendingAppLength := by
  refine ⟨keyAgreementWorks_plainCrypto, ?_⟩
  intro P hP
  have hlen : (List.replicate 16385 (0 : UInt8)).length = 16385 := List.length_replicate
  obtain ⟨w, s₁, s, keys, hconnect, hrecv, -, -, happ, hoffset, hlength⟩ := scripted_recv hP true 0
    (List.replicate 16385 0) (by simp) (by omega) (by unfold fragLength; omega)
  have hrun := ((Run.nil (E := scriptEnv) (System.fresh P w)).snoc hconnect).snoc hrecv
  refine ⟨w, _, s, hrun, ?_, ?_, ?_⟩
  · rw [List.getLast?_concat, List.take_zero]
  · rw [happ, List.drop_zero, hlen]
  · rw [hoffset, hlength, hlen]
    decide

end XboxTls.Analysis
