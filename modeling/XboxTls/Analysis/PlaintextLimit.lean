import XboxTls.Analysis.RecordInverse
import XboxTls.Analysis.SendDelivery

/-!
# Records and the plaintext limit

The record layer checks content, padding and fragment each against a bound of its own, and no
check is `2 ^ 14 + 1` for all of the plaintext.  A record goes beyond that exactly when content
and padding together are too long (`sealsWithin_iff`, `opensWithin_iff`).  Every record but those
of `send` is sealed without padding, so that in a run only `send` can go beyond the limit.
-/

set_option autoImplicit false

namespace XboxTls.Analysis

open Programs Programs.Prog XboxTls.Model XboxTls.Interface

variable {P : Crypto}

/-! ## Sealing -/

/-- Arguments that pass every check are sealed. -/
theorem protectRecordCall_of_seals {args : ProtectArgs} (h : Seals args) (keys : TrafficKeys) :
    protectRecordCall P args keys =
      (.ok (sealedRecord P keys args.innerType args.content args.padding), keys.advance) := by
  have htype : ¬ (args.innerType < 20 ∨ args.innerType > 23) := by
    rintro (hlt | hlt)
    · exact absurd h.typeLow (UInt8.not_le.mpr hlt)
    · exact absurd h.typeHigh (UInt8.not_le.mpr hlt)
  have hsizes : ¬ (args.content.length > 16384 ∨ args.padding > 255) := by
    have hcontent := h.content
    have hpadding := h.padding
    omega
  unfold protectRecordCall sealedRecord
  simp only [h.null, h.memory, Bool.false_eq_true, Bool.true_eq_false, if_false,
    innerPlaintext_length]
  rw [if_neg htype, if_neg hsizes, if_neg (Nat.not_lt.mpr h.fragment),
    if_neg (Nat.not_lt.mpr h.room)]

/-- What was sealed passed every check. -/
theorem seals_of_protectRecordCall {args : ProtectArgs} {keys keys' : TrafficKeys}
    {record : Bytes} (h : protectRecordCall P args keys = (.ok record, keys')) : Seals args := by
  unfold protectRecordCall at h
  dsimp only at h
  split at h
  · cases h
  split at h
  · cases h
  split at h
  · cases h
  split at h
  · cases h
  split at h
  · cases h
  split at h
  · cases h
  rename_i hnull htype hsizes hfragment hroom hmemory
  push Not at htype hsizes
  exact {
    null := by simpa using hnull
    typeLow := UInt8.not_lt.mp htype.1
    typeHigh := UInt8.not_lt.mp htype.2
    content := hsizes.1
    padding := hsizes.2
    fragment := Nat.not_lt.mp hfragment
    room := Nat.not_lt.mp hroom
    memory := by simpa using hmemory }

/-- The arguments that `send` passes. -/
theorem seals_appData {content : Bytes} {padding : ℕ} (hcontent : content.length ≤ 16384)
    (hpadding : padding ≤ 255) (hsum : content.length + padding ≤ 16623) :
    Seals ⟨false, contentApplicationData, content, padding, 16645, true⟩ where
  null := rfl
  typeLow := show (20 : UInt8) ≤ 23 by decide
  typeHigh := show (23 : UInt8) ≤ 23 by decide
  content := hcontent
  padding := hpadding
  fragment := by dsimp only; omega
  room := by dsimp only; omega
  memory := rfl

/-- A call stays within the limit exactly unless it seals too much. -/
theorem sealsWithin_iff (args : ProtectArgs) (keys : TrafficKeys) :
    SealsWithin P args keys ↔ ¬ SealsTooMuch args := by
  constructor
  · rintro hwithin ⟨hseals, htoo⟩
    have hlength := hwithin _ _ (protectRecordCall_of_seals hseals keys)
    rw [innerLength_sealedRecord _ _ hseals.fragment] at hlength
    unfold innerLimit at hlength
    omega
  · intro hnot record keys' hcall
    have hseals := seals_of_protectRecordCall hcall
    obtain ⟨-, rfl, -⟩ := protectRecordCall_ok P hcall
    have hfits : ¬ 2 ^ 14 < args.content.length + args.padding := fun htoo => hnot ⟨hseals, htoo⟩
    rw [innerLength_sealedRecord _ _ hseals.fragment]
    unfold innerLimit
    omega

/-! ## Opening -/

/-- A record that was opened is a sealed record and what follows it. -/
theorem sealed_of_unprotectRecordCall {null : Bool} {record content : Bytes} {capacity : ℕ}
    {t : UInt8} {keys keys' : TrafficKeys}
    (h : unprotectRecordCall P null record capacity keys = (.ok (t, content), keys')) :
    null = false ∧ 20 ≤ t ∧ t ≤ 23 ∧ ∃ padding rest,
      innerLength record = content.length + 1 + padding ∧
      fragLength content padding ≤ 16640 ∧ content.length + 1 + padding ≤ capacity ∧
      record = sealedRecord P keys t content padding ++ rest := by
  cases null with
  | true =>
    unfold unprotectRecordCall at h
    cases h
  | false =>
    obtain ⟨plaintext, hdec, hsplit, -⟩ := unprotectRecordCall_ok P h
    obtain ⟨hload, hmax, hcap, ct, tag, hrecord, henc⟩ := parts_of_decryptRecord P hdec
    obtain ⟨hlo, hhi, padding, rfl⟩ := innerPlaintext_of_splitInner hsplit
    rw [innerPlaintext_length] at hload hmax hcap
    refine ⟨rfl, hlo, hhi, padding, record.drop (5 + loadBe16 record 3), ?_, hmax, hcap, ?_⟩
    · unfold innerLength
      rw [hload, Nat.add_sub_cancel]
    · have hsealed : sealedRecord P keys t content padding =
          record.take (5 + loadBe16 record 3) := by
        unfold sealedRecord
        dsimp only
        rw [henc, hrecord]
      rw [hsealed, List.take_append_drop]

/-- A sealed record is opened, whatever follows it. -/
theorem unprotectRecordCall_append (keys : TrafficKeys) {t : UInt8} (hlo : 20 ≤ t) (hhi : t ≤ 23)
    {content : Bytes} {padding capacity : ℕ} (rest : Bytes)
    (hfrag : fragLength content padding ≤ 16640)
    (hcap : content.length + 1 + padding ≤ capacity) :
    unprotectRecordCall P false (sealedRecord P keys t content padding ++ rest) capacity keys =
      (.ok (t, content), keys.advance) := by
  have hload : 5 + loadBe16 (sealedRecord P keys t content padding) 3 =
      (sealedRecord P keys t content padding).length := by
    have hinner := innerLength_sealedRecord (P := P) keys t hfrag
    unfold innerLength at hinner
    rw [sealedRecord_length]
    unfold fragLength
    omega
  rw [unprotectRecordCall_eq, if_neg (by decide), unprotectRecordAes128Gcm,
    decryptRecord_append keys rest capacity (by omega),
    decryptRecord_sealedRecord keys t content padding capacity hfrag
      (by unfold fragLength; omega), except_ok_bind, splitInner_innerPlaintext t hlo hhi]
  rfl

/-- A call stays within the limit exactly unless it opens too much. -/
theorem opensWithin_iff (null : Bool) (record : Bytes) (capacity : ℕ) (keys : TrafficKeys) :
    OpensWithin P null record capacity keys ↔ ¬ OpensTooMuch P null record capacity keys := by
  constructor
  · rintro hwithin ⟨rfl, t, content, padding, rest, hlo, hhi, htoo, hfrag, hcap, rfl⟩
    have hcall := unprotectRecordCall_append (P := P) keys hlo hhi rest hfrag hcap
    have hload : innerLength (sealedRecord P keys t content padding ++ rest) =
        innerLength (sealedRecord P keys t content padding) := by
      unfold innerLength
      rw [loadBe16_append (by rw [sealedRecord_length]; omega)]
    obtain ⟨hlength, -⟩ := hwithin _ _ _ hcall
    rw [hload, innerLength_sealedRecord _ _ hfrag] at hlength
    unfold innerLimit at hlength
    omega
  · intro hnot t content keys' hcall
    obtain ⟨hnull, hlo, hhi, padding, rest, hinner, hfrag, hcap, hrecord⟩ :=
      sealed_of_unprotectRecordCall hcall
    have hfits : ¬ 2 ^ 14 < content.length + padding := fun htoo =>
      hnot ⟨hnull, t, content, padding, rest, hlo, hhi, htoo, hfrag, hcap, hrecord⟩
    rw [hinner]
    unfold innerLimit
    omega

/-! ## Runs -/

section Runs

variable {W : Type} (E : Env W)

/-- The limit holds of a longer trace if it holds of its parts. -/
theorem sealedWithin_append {a b : List Event} (ha : SealedWithin a) (hb : SealedWithin b) :
    SealedWithin (a ++ b) := by
  intro slot keys record hmem
  rcases List.mem_append.mp hmem with hold | hnew
  · exact ha slot keys record hold
  · exact hb slot keys record hnew

/-- No record was sealed. -/
theorem sealedWithin_other {s : System P W} {ev : Event}
    (h : ∀ slot keys record, ev ≠ .sealed slot keys record) (hs : SealedWithin s.trace) :
    SealedWithin (s.trace ++ [ev]) := by
  apply sealedWithin_append hs
  intro slot keys record hmem
  exact absurd (List.mem_singleton.mp hmem).symm (h slot keys record)

/-- A steady change seals nothing that is too long. -/
theorem sealedWithin_steady {s s' : System P W} (h : Steady s s') (hs : SealedWithin s.trace) :
    SealedWithin s'.trace := by
  obtain ⟨evs, htrace, hevs⟩ := h.trace
  rw [htrace]
  apply sealedWithin_append hs
  intro slot keys record hmem
  exact of_decide_eq_true (hevs _ hmem)

/-- Wiping the secrets seals nothing. -/
theorem sealedWithin_wiped {s s' : System P W} (h : Wiped s s') (hs : SealedWithin s.trace) :
    SealedWithin s'.trace := by
  rw [h.trace]
  exact hs

/-- `connect` seals without padding. -/
theorem keeps_sealedWithin_connect (fuel : ℕ) (config : ClientConfig) :
    Keeps (fun s => SealedWithin s.trace) (connect E fuel config : ClientM P W Unit) := by
  have hbody : Keeps (fun s => SealedWithin s.trace)
      (connectHandshake E fuel config : ClientM P W Unit) :=
    steady_connectHandshake E (fun _ _ => sealedWithin_steady) (fun _ _ => sealedWithin_wiped)
      fuel config
  unfold connect
  apply maintains_bind maintains_getClient
  intro c
  split
  · exact maintains_throw (fun _ h => h) _
  · intro s hs
    rw [wp_bind, wp_modifyClient, thenWp_ok, wp_bind, wp_emit, thenWp_ok]
    have hstart : SealedWithin (s.trace ++ [.connect config]) := sealedWithin_other (by simp) hs
    refine wp_bind_of_spec (hbody _ hstart) ?_ fun e s' hs' => hs'
    intro _ s' hs'
    rw [wp_modifyClient]
    exact hs'

/-- `recv` seals answers without padding. -/
theorem keeps_sealedWithin_recv (fuel : ℕ) (receivedNull outNull : Bool) (size : ℕ) :
    Keeps (fun s => SealedWithin s.trace)
      (recv E fuel receivedNull outNull size : ClientM P W Bytes) := by
  have hS : ∀ s s' : System P W, Steady s s' → SealedWithin s.trace → SealedWithin s'.trace :=
    fun _ _ => sealedWithin_steady
  have hW : ∀ s s' : System P W, Wiped s s' → SealedWithin s.trace → SealedWithin s'.trace :=
    fun _ _ => sealedWithin_wiped
  have hdata : ∀ (s : System P W) record content, SealedWithin s.trace →
      unprotectRecordAes128Gcm P s.client.serverAppKeys record 16640 =
        .ok ⟨contentApplicationData, content, s.client.serverAppKeys.advance⟩ →
      wp (recvData E content size)
        (ends (fun s => SealedWithin s.trace) fun s => SealedWithin s.trace)
        (afterOpen s .serverApp record) := by
    intro s record content hs _
    have hopened := hS _ _ (firm_afterOpen s .serverApp record).steady hs
    have htwo : ∀ (s : System P W) bytes, SealedWithin s.trace →
        SealedWithin (s.trace ++ [.appData content size] ++ [.delivered bytes]) := by
      intro s bytes hs
      apply sealedWithin_append
      · exact sealedWithin_other (by simp) hs
      · simp [SealedWithin]
    exact wp_recvData_of E (fun _ => htwo _ _ hopened) fun _ _ _ _ => htwo _ _ hopened
  have halert : ∀ content, Keeps (fun s => SealedWithin s.trace)
      (recvAlert E content : ClientM P W Bytes) := by
    intro content
    unfold recvAlert
    apply maintains_bind (maintains_handleAlert (Steady.still_closed hS) _)
    intro ae
    split
    · intro s hs r s' hrun
      rw [recvClosed_apply] at hrun
      cases hrun
      exact hs
    · exact maintains_failWith E hW _
  unfold recv
  apply maintains_bind maintains_getClient
  intro c
  split
  · exact maintains_throw (fun _ h => h) _
  · split
    · exact maintains_throw (fun _ h => h) _
    · split
      · intro s hs
        apply wp_recvPending_of
        intro bytes _
        exact sealedWithin_other (by simp) hs
      · exact steady_recvRecords E hS hW size hdata halert fuel

/-- Data and padding that stay within the limit are sealed within it. -/
theorem sealedWithin_sendLoop {data : Bytes} {s : System P W} {config : ClientConfig}
    (hstays : SendStaysWithin config data) (hs : SealedWithin s.trace) :
    wp (sendLoop E (min config.applicationRecordPadding 255)
      (16623 - min config.applicationRecordPadding 255) data.length data)
      (ends (fun s => SealedWithin s.trace) fun s => SealedWithin s.trace) s := by
  rcases hstays with hfits | ⟨hlarge, hpadding⟩
  · have hloop : Keeps (fun s : System P W => SealedWithin s.trace)
        (sendLoop E (min config.applicationRecordPadding 255)
          (16623 - min config.applicationRecordPadding 255) data.length data) := by
      apply firm_sendLoop E (fun _ _ h => sealedWithin_steady h.steady)
        (fun _ _ => sealedWithin_wiped)
      intro s keys content hlen hs
      apply sealedWithin_append hs
      intro slot keys' record hmem
      cases List.mem_singleton.mp hmem
      rw [innerLength_sealedRecord _ _ (by unfold fragLength; omega)]
      unfold innerLimit
      omega
    exact hloop s hs
  · -- The first part is refused, so that the loop ends before it seals anything.
    have hfails := sendLoop_fails E (min config.applicationRecordPadding 255)
      (16623 - min config.applicationRecordPadding 255) data.length data s (le_refl _) (by omega)
    intro r s' hrun
    rw [hfails] at hrun
    cases hrun
    exact hs

/-- A `send` that stays within the limit seals nothing that is too long. -/
theorem sealedWithin_send {null : Bool} {data : Bytes} {s : System P W}
    (hstays : null = false → s.client.state = .connected → SendStaysWithin s.client.config data)
    (hs : SealedWithin s.trace) :
    wp (send E null data) (ends (fun s => SealedWithin s.trace) fun s => SealedWithin s.trace)
      s := by
  unfold send
  rw [wp_bind, wp_getClient, thenWp_ok]
  split
  · rw [wp_throw]
    exact hs
  · next hconn =>
    split
    · rw [wp_throw]
      exact hs
    · next hnull =>
      cases null with
      | false => exact sealedWithin_sendLoop E (hstays rfl (by simpa using hconn)) hs
      | true =>
        have hnone : data.length = 0 := by simpa using hnull
        exact sealedWithin_sendLoop E (Or.inl (by omega)) hs

/-- A call seals within the limit, if a `send` stays within it. -/
theorem sealedWithin_of_returns {step : Step P W}
    (hret : Returns E step.call step.before step.result step.after) (hstays : StaysWithin step)
    (hs : SealedWithin step.before.trace) : SealedWithin step.after.trace := by
  obtain ⟨before, call, result, after⟩ := step
  obtain ⟨fuel, hrun⟩ := hret
  by_cases hsend : ∃ null data, call = .send null data
  · obtain ⟨null, data, rfl⟩ := hsend
    have hcall : wp ((Call.send null data).run E fuel)
        (ends (fun s => SealedWithin s.trace) fun s => SealedWithin s.trace) before := by
      refine wp_bind_of_spec (sealedWithin_send E (fun hnull hconn => ?_) hs) ?_
        fun e s' hs' => hs'
      · subst hnull
        exact hstays data rfl hconn
      · intro _ s' hs'
        rw [wp_pure]
        exact hs'
    have hend := hcall _ _ hrun
    cases result <;> exact hend
  · have hkeeps : Keeps (fun s => SealedWithin s.trace)
        (call.run E fuel : ClientM P W Bytes) := by
      refine keeps_call E (fun _ _ h => sealedWithin_steady h.steady) ?_
        (fun _ _ => sealedWithin_wiped) fuel call
        (fun config _ => keeps_sealedWithin_connect E fuel config)
        (fun null data h => absurd ⟨null, data, h⟩ hsend)
        (fun a b size _ => keeps_sealedWithin_recv E fuel a b size)
      intro s s' hended hs
      rw [hended.trace]
      exact hs
    exact Keeps.run hkeeps hs hrun

/-- A run whose sends stay within the limit seals nothing that is too long. -/
theorem sealedWithin_of_steps {w : W} {steps : List (Step P W)} {s : System P W}
    (hrun : Steps E (System.fresh P w) steps s) (hstays : ∀ step ∈ steps, StaysWithin step) :
    SealedWithin s.trace := by
  generalize hfresh : System.fresh P w = s₀ at hrun
  induction hrun with
  | nil =>
    subst hfresh
    simp [SealedWithin, System.fresh]
  | snoc hprev hret ih =>
    have hbefore := ih fun step hstep => hstays step (List.mem_append_left _ hstep)
    have hlast := hstays _ (List.mem_append_right _ (List.mem_singleton_self _))
    refine sealedWithin_of_returns E ?_ hlast hbefore
    exact hret

/-! ## What `send` seals -/

/-- **When `send` stays within the limit**, over a stream that accepts every write. -/
theorem send_within_iff (hE : Accepting E) {c : TlsClient P} (hreach : ReachableClient c)
    (hconn : c.state = .connected) (w : W) (trace : List Event) (data : Bytes)
    (htrace : SealedWithin trace) :
    (∀ r s', send E false data ⟨c, w, trace⟩ = some (r, s') → SealedWithin s'.trace) ↔
      SendStaysWithin c.config data := by
  constructor
  · intro hwithin
    by_contra hnot
    unfold SendStaysWithin at hnot
    obtain ⟨stream, hstream⟩ := stream_of_reachable hreach hconn
    generalize hpadding : min c.config.applicationRecordPadding 255 = padding at hnot
    obtain ⟨fuel, hfuel⟩ : ∃ n, data.length = n + 1 := ⟨data.length - 1, by omega⟩
    have hlen : (data.take (min data.length (16623 - padding))).length =
        min data.length (16623 - padding) := by
      rw [List.length_take]
      omega
    obtain ⟨s₁, hround, hclient, htrace₁⟩ := sendChunk_run hE
      (data.take (min data.length (16623 - padding))) padding ⟨c, w, trace⟩ hstream
      (checkProtect_appData _ (by omega) (by omega) (by omega))
    obtain ⟨s', evs, opened, hrest, -, htrace', -⟩ := sendLoop_run hE padding (16623 - padding)
      (by omega) (by omega) fuel (data.drop (min data.length (16623 - padding))) s₁
      (by rw [List.length_drop]; omega) (by rw [List.length_drop]; omega)
      (by rw [hclient]; exact hstream)
    have hsend : send E false data ⟨c, w, trace⟩ = some (.ok (), s') := by
      rw [send_connected E data _ hconn, hpadding, hfuel]
      unfold sendLoop
      rw [if_neg (by omega), bind_of_ok (orFail_of_ok E hround)]
      exact hrest
    have hrecord := hwithin _ _ hsend .clientApp c.clientAppKeys
      (sealedRecord P c.clientAppKeys contentApplicationData
        (data.take (min data.length (16623 - padding))) padding) (by
          rw [htrace', htrace₁]
          simp [chunkEvents])
    rw [innerLength_sealedRecord _ _ (by unfold fragLength; omega)] at hrecord
    unfold innerLimit at hrecord
    omega
  · intro hstays r s' hrun
    have hstart : SealedWithin (⟨c, w, trace⟩ : System P W).trace := htrace
    have hend := sealedWithin_send E (fun _ _ => hstays) hstart r s' hrun
    cases r <;> exact hend

end Runs

/-! ## The limit -/

/-- **When the plaintext limit holds.**  `protect_record_aes128_gcm` seals within it unless the
content and the padding, each of which passes, are too long together, and
`unprotect_record_aes128_gcm` opens within it unless the record was sealed so.  In every run in
which no `send` puts too much into a record every sealed record is within the limit, and a `send`
over a stream that accepts every write does exactly what `SendStaysWithin` says. -/
theorem plaintextLimit_iff (P : Crypto) :
    (∀ args keys, SealsWithin P args keys ↔ ¬ SealsTooMuch args) ∧
    (∀ null record capacity keys,
      OpensWithin P null record capacity keys ↔ ¬ OpensTooMuch P null record capacity keys) ∧
    (∀ (W : Type) (E : Env W) (w : W) (steps : List (Step P W)) (s : System P W),
      Steps E (System.fresh P w) steps s → (∀ step ∈ steps, StaysWithin step) →
        SealedWithin s.trace) ∧
    (∀ (W : Type) (E : Env W) (c : TlsClient P) (w : W) (trace : List Event) (data : Bytes),
      Accepting E → ReachableClient c → c.state = .connected → SealedWithin trace →
        ((∀ r s', send E false data ⟨c, w, trace⟩ = some (r, s') → SealedWithin s'.trace) ↔
          SendStaysWithin c.config data)) := by
  refine ⟨sealsWithin_iff, opensWithin_iff, ?_, ?_⟩
  · intro W E w steps s hrun hstays
    exact sealedWithin_of_steps E hrun hstays
  · intro W E c w trace data hE hreach hconn htrace
    exact send_within_iff E hE hreach hconn w trace data htrace

/-- With padding 255, 16129 bytes make a plaintext of 16385, the longest there may be:
`protect_record_aes128_gcm` and a connected client stay within the limit. -/
theorem plaintextLimit_iff_16385 :
    SealsWithin plainCrypto
      ⟨false, contentApplicationData, List.replicate 16129 0, 255, 16645, true⟩ .zero ∧
    ∃ s : System plainCrypto Bytes, s.client.state = .connected ∧
      s.client.config.applicationRecordPadding = 255 ∧ SealedWithin s.trace ∧
      ∀ r s', send scriptEnv false (List.replicate 16129 0) s = some (r, s') →
        SealedWithin s'.trace := by
  have hlen : (List.replicate 16129 (0 : UInt8)).length = 16129 := List.length_replicate
  generalize List.replicate 16129 (0 : UInt8) = content at hlen ⊢
  obtain ⟨hseals, -, hruns, hsends⟩ := plaintextLimit_iff plainCrypto
  refine ⟨(hseals _ _).mpr fun htoo => ?_, ?_⟩
  · have htotal := htoo.2
    dsimp only at htotal
    omega
  · obtain ⟨script, keys, th, fin, -, hscript⟩ :=
      scripted_reachable keyAgreementWorks_plainCrypto 255 [] (by decide)
    obtain ⟨s, hconnect, hrun, hbare⟩ := hscript []
    have hpadding : s.client.config.applicationRecordPadding = 255 := by
      rw [hbare.config]
      rfl
    have hreach : ReachableClient s.client := ⟨_, _, _, _, s, hrun, rfl⟩
    have hstep : Returns scriptEnv (.connect (scriptConfig 255))
        (System.fresh plainCrypto (script ++ [])) (.ok []) s := ⟨2, bind_of_ok hconnect⟩
    have hsealed : SealedWithin s.trace := by
      refine hruns _ scriptEnv (script ++ []) _ s ((Steps.nil _).snoc hstep) ?_
      intro step hmem data hcall
      rw [List.mem_singleton.mp hmem] at hcall
      cases hcall
    refine ⟨s, hbare.state, hpadding, hsealed, (hsends _ scriptEnv s.client s.world s.trace content
      accepting_scriptEnv hreach hbare.state hsealed).mpr (.inl ?_)⟩
    rw [hpadding, hlen]
    decide

/-- With padding 255, 16368 bytes make a plaintext of 16624: `protect_record_aes128_gcm` seals
it, `unprotect_record_aes128_gcm` opens it, and a connected client sends it. -/
theorem plaintext_of_16624 :
    ¬ SealsWithin plainCrypto
      ⟨false, contentApplicationData, List.replicate 16368 0, 255, 16645, true⟩ .zero ∧
    ¬ OpensWithin plainCrypto false
      (sealedRecord plainCrypto .zero contentApplicationData (List.replicate 16368 0) 255) 16640
      .zero ∧
    ∃ c : TlsClient plainCrypto, ReachableClient c ∧ c.state = .connected ∧
      c.config.applicationRecordPadding = 255 ∧ Accepting scriptEnv ∧
      ∃ r s', send scriptEnv false (List.replicate 16368 0) ⟨c, [], []⟩ = some (r, s') ∧
        ¬ SealedWithin s'.trace := by
  have hlen : (List.replicate 16368 (0 : UInt8)).length = 16368 := List.length_replicate
  generalize List.replicate 16368 (0 : UInt8) = content at hlen ⊢
  refine ⟨?_, ?_, ?_⟩
  · rw [sealsWithin_iff, not_not]
    exact ⟨seals_appData (by omega) (by omega) (by omega), by dsimp only; omega⟩
  · rw [opensWithin_iff, not_not]
    refine ⟨rfl, contentApplicationData, content, 255, [], by decide, by decide, by omega, by omega,
      by omega, ?_⟩
    rw [List.append_nil]
  · obtain ⟨script, keys, th, fin, -, hscript⟩ :=
      scripted_reachable keyAgreementWorks_plainCrypto 255 [] (by decide)
    obtain ⟨s, -, hrun, hbare⟩ := hscript []
    have hpadding : s.client.config.applicationRecordPadding = 255 := by
      rw [hbare.config]
      rfl
    have hreach : ReachableClient s.client := ⟨_, _, _, _, s, hrun, rfl⟩
    refine ⟨s.client, hreach, hbare.state, hpadding, accepting_scriptEnv, ?_⟩
    have hsend := send_within_iff scriptEnv accepting_scriptEnv hreach hbare.state [] [] content
      (by simp [SealedWithin])
    by_contra hnone
    have hstays := hsend.mp fun r s' hrun => by
      by_contra hseals
      exact hnone ⟨r, s', hrun, hseals⟩
    unfold SendStaysWithin at hstays
    rw [hlen, hpadding] at hstays
    omega

end XboxTls.Analysis
