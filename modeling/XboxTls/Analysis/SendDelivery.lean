import XboxTls.Analysis.Connected
import XboxTls.Analysis.RecordLayer
import XboxTls.Analysis.ScriptedHandshake
import XboxTls.Interface.RecordStream

/-!
# What `send` delivers

With a stream that accepts every write, `send` cuts the data into chunks of at most
`16623 - padding` bytes and each chunk becomes one record.  `protect_record_aes128_gcm`
refuses a content of more than 16384 bytes, so a chunk of that size fails the connection:
`send` delivers the data exactly when the data or, through the padding, the chunks are
small enough (`send_delivers_iff`).
-/

set_option autoImplicit false

namespace XboxTls.Analysis

open Programs Programs.Prog XboxTls.Model XboxTls.Interface

variable {P : Crypto} {W : Type} {E : Env W}

/-- The size checks pass for a chunk with its padding. -/
theorem checkProtect_appData (content : Bytes) {padding : ℕ} (hcontent : content.length ≤ 16384)
    (hpadding : padding ≤ 255) (hsum : content.length + padding ≤ 16623) :
    checkProtect contentApplicationData content padding 16645 = .ok () := by
  unfold checkProtect
  dsimp only
  rw [if_neg (by decide), if_neg (by omega), if_neg (by omega), if_neg (by omega)]

/-- Writing to a stream that accepts it. -/
theorem writeStream_run (hE : Accepting E) (stream : ℕ) (bytes : Bytes) (s : System P W) :
    ∃ w, writeStream E stream bytes s =
      some (.ok (), { s with world := w, trace := s.trace ++ [.wrote bytes] }) := by
  obtain ⟨w, hw⟩ := hE.sendAll stream bytes s.world
  refine ⟨w, ?_⟩
  simp only [writeStream, bind_apply, callWorld, hw, emit]

/-- What a round of `send` adds to the trace. -/
def chunkEvents (P : Crypto) (keys : TrafficKeys) (content : Bytes) (padding : ℕ) : List Event :=
  let record := sealedRecord P keys contentApplicationData content padding
  [.sealed .clientApp keys record, .wrote record]

/-- A chunk is written as one record. -/
theorem writtenRecords_chunkEvents (keys : TrafficKeys) (content : Bytes) (padding : ℕ) :
    writtenRecords (chunkEvents P keys content padding) =
      [sealedRecord P keys contentApplicationData content padding] := by
  simp [writtenRecords, chunkEvents]

/-- **One round of `send`.**  The chunk becomes one record under the client's keys, which
advance. -/
theorem sendChunk_run (hE : Accepting E) {stream : ℕ} (content : Bytes) (padding : ℕ)
    (s : System P W) (hstream : s.client.config.stream = some stream)
    (hcheck : checkProtect contentApplicationData content padding 16645 = .ok ()) :
    ∃ s', sendChunk E padding content s = some (.ok (), s') ∧
      s'.client = s.client.setKeys .clientApp s.client.clientAppKeys.advance ∧
      s'.trace = s.trace ++ chunkEvents P s.client.clientAppKeys content padding := by
  have hseal := protectRecord_run .clientApp contentApplicationData content padding s hcheck
    (hE.malloc _ _)
  generalize hw : (E.malloc (content.length + 1 + padding) s.world).2 = w at hseal
  generalize hrecord : sealedRecord P (s.client.keys .clientApp) contentApplicationData content
    padding = record at hseal
  obtain ⟨w', hwrite⟩ := writeStream_run hE stream record (afterSeal s .clientApp w record)
  have hderef : ∀ s₁ : System P W,
      (deref s.client.config.stream : ClientM P W ℕ) s₁ = some (.ok stream, s₁) := by
    intro s₁
    rw [hstream]
    rfl
  have hrun : sendChunk E padding content s =
      writeStream E stream record (afterSeal s .clientApp w record) := by
    unfold sendChunk
    rw [bind_of_ok hseal, bind_of_ok rfl]
    exact bind_of_ok (hderef _)
  refine ⟨_, hrun.trans hwrite, rfl, ?_⟩
  rw [chunkEvents, show s.client.clientAppKeys = s.client.keys .clientApp from rfl, hrecord]
  simp [afterSeal]

/-- **The loop of `send`.**  When every chunk passes the size checks, the records written
open to the data. -/
theorem sendLoop_run (hE : Accepting E) {stream : ℕ} (padding maxContent : ℕ)
    (hpadding : padding ≤ 255) (hmax : maxContent + padding = 16623) (fuel : ℕ) (data : Bytes)
    (s : System P W) (hfuel : data.length ≤ fuel) (hfit : min data.length maxContent ≤ 16384)
    (hstream : s.client.config.stream = some stream) :
    ∃ s' evs opened, sendLoop E padding maxContent fuel data s = some (.ok (), s') ∧
      s'.client.state = s.client.state ∧
      s'.trace = s.trace ++ evs ∧
      openAll P s.client.clientAppKeys (writtenRecords evs) = .ok opened ∧
      (∀ o ∈ opened, o.1 = contentApplicationData) ∧
      (opened.map Prod.snd).flatten = data := by
  induction fuel generalizing data s with
  | zero =>
    have hnil : data = [] := List.eq_nil_of_length_eq_zero (by omega)
    exact ⟨s, [], [], rfl, rfl, by simp, rfl, by simp, by simp [hnil]⟩
  | succ fuel ih =>
    unfold sendLoop
    by_cases hempty : data.length = 0
    · have hnil : data = [] := List.eq_nil_of_length_eq_zero hempty
      rw [if_pos hempty]
      exact ⟨s, [], [], rfl, rfl, by simp, rfl, by simp, by simp [hnil]⟩
    · rw [if_neg hempty]
      have hlen : (data.take (min data.length maxContent)).length =
          min data.length maxContent := by
        rw [List.length_take]
        omega
      have hcheck := checkProtect_appData (data.take (min data.length maxContent)) (by omega)
        hpadding (by omega)
      obtain ⟨s₁, hround, hclient, htrace₁⟩ := sendChunk_run hE _ padding s hstream hcheck
      rw [bind_of_ok (orFail_of_ok E hround)]
      have hstream₁ : s₁.client.config.stream = some stream := by
        rw [hclient]
        exact hstream
      obtain ⟨s', evs, opened, hrun, hstate, htrace, hopen, htypes, hdata⟩ :=
        ih (data.drop (min data.length maxContent)) s₁ (by rw [List.length_drop]; omega)
          (by rw [List.length_drop]; omega) hstream₁
      refine ⟨s', chunkEvents P s.client.clientAppKeys (data.take (min data.length maxContent))
        padding ++ evs, (contentApplicationData, data.take (min data.length maxContent)) :: opened,
        hrun, ?_, ?_, ?_, ?_, ?_⟩
      · rw [hstate, hclient]
        rfl
      · rw [htrace, htrace₁, List.append_assoc]
      · have hfrag : fragLength (data.take (min data.length maxContent)) padding ≤ 16640 := by
          unfold fragLength
          omega
        rw [hclient] at hopen
        rw [writtenRecords_append, writtenRecords_chunkEvents, List.singleton_append, openAll,
          unprotect_sealedRecord _ _ (by decide) (by decide) _ _ hfrag, except_ok_bind]
        show (openAll P s.client.clientAppKeys.advance (writtenRecords evs) >>= _) = _
        rw [show openAll P s.client.clientAppKeys.advance (writtenRecords evs) = .ok opened from
          hopen]
        rfl
      · intro o ho
        rcases List.mem_cons.mp ho with rfl | ho
        · rfl
        · exact htypes o ho
      · rw [List.map_cons, List.flatten_cons, hdata, List.take_append_drop]

/-- A chunk of more than 16384 bytes fails the connection. -/
theorem sendLoop_fails (E : Env W) (padding maxContent fuel : ℕ) (data : Bytes)
    (s : System P W) (hfuel : data.length ≤ fuel) (hlarge : 16384 < min data.length maxContent) :
    sendLoop E padding maxContent fuel data s =
      some (.error .badRecord, afterEnd E .failed s) := by
  obtain ⟨fuel, rfl⟩ : ∃ n, fuel = n + 1 := ⟨fuel - 1, by omega⟩
  have hcheck : checkProtect contentApplicationData (data.take (min data.length maxContent))
      padding 16645 = .error .badRecord := by
    unfold checkProtect
    dsimp only
    rw [if_neg (by decide), if_pos]
    left
    rw [List.length_take]
    omega
  have hround : sendChunk E padding (data.take (min data.length maxContent)) s =
      some (.error .badRecord, s) := by
    simp only [sendChunk, protectRecord, bind_apply, getClient, lift_apply, hcheck]
  unfold sendLoop
  rw [if_neg (by omega)]
  exact bind_of_error (orFail_of_error E hround)

/-- `send` to a connected client is its loop. -/
theorem send_connected (E : Env W) (data : Bytes) (s : System P W)
    (hconn : s.client.state = .connected) :
    send E false data s = sendLoop E (min s.client.config.applicationRecordPadding 255)
      (16623 - min s.client.config.applicationRecordPadding 255) data.length data s := by
  unfold send
  rw [bind_of_ok rfl, if_neg (by simp [hconn]), if_neg (by simp)]

/-- More than 16384 bytes with little padding fail the connection. -/
theorem send_fails (E : Env W) (data : Bytes) (s : System P W)
    (hconn : s.client.state = .connected) (hlarge : 16384 < data.length)
    (hpadding : s.client.config.applicationRecordPadding < 239) :
    send E false data s = some (.error .badRecord, afterEnd E .failed s) := by
  rw [send_connected E data s hconn]
  exact sendLoop_fails E _ _ _ data s (le_refl _) (by omega)

/-- **When `send` delivers.**  For every reachable connected client, every data and every
configured padding, over a stream that accepts every write: the data arrive exactly when
they fill at most one record of 16384 bytes or the padding cuts the chunks down to that
size. -/
theorem send_delivers_iff (c : TlsClient P) (hreach : ReachableClient c)
    (hconn : c.state = .connected) (hE : Accepting E) (w : W) (trace : List Event)
    (data : Bytes) :
    SendDelivers E ⟨c, w, trace⟩ data ↔
      data.length ≤ 16384 ∨ 239 ≤ c.config.applicationRecordPadding := by
  obtain ⟨stream, hstream⟩ := stream_of_reachable hreach hconn
  constructor
  · rintro ⟨s', evs, opened, hrun, -⟩
    by_contra hcond
    have hfail := send_fails E data ⟨c, w, trace⟩ hconn (by omega) (by dsimp only; omega)
    rw [hfail] at hrun
    simp at hrun
  · intro hcond
    obtain ⟨s', evs, opened, hrun, hstate, hrest⟩ := sendLoop_run hE
      (min c.config.applicationRecordPadding 255)
      (16623 - min c.config.applicationRecordPadding 255) (by omega) (by omega) data.length data
      ⟨c, w, trace⟩ (le_refl _) (by omega) hstream
    exact ⟨s', evs, opened, by rw [send_connected E data _ hconn, hrun],
      by rw [hstate]; exact hconn, hrest⟩

/-- The script accepts every write. -/
theorem accepting_scriptEnv : Accepting scriptEnv :=
  ⟨fun _ _ w => ⟨w, rfl⟩, fun _ _ => rfl⟩

/-- A short message of a client that the script has connected arrives. -/
theorem send_delivers_hi :
    ∃ s : System plainCrypto Bytes, ReachableClient s.client ∧ s.client.state = .connected ∧
      SendDelivers scriptEnv s [104, 105] := by
  obtain ⟨script, keys, th, fin, -, hscript⟩ :=
    scripted_reachable keyAgreementWorks_plainCrypto 0 [] (by decide)
  obtain ⟨s, -, hrun, hbare⟩ := hscript []
  have hreach : ReachableClient s.client := ⟨_, _, _, _, s, hrun, rfl⟩
  exact ⟨s, hreach, hbare.state, (send_delivers_iff s.client hreach hbare.state
    accepting_scriptEnv s.world s.trace [104, 105]).mpr (Or.inl (by decide))⟩

/-- With no padding, 16385 bytes do not arrive, whatever the crypto. -/
theorem send_loses_16385 :
    KeyAgreementWorks plainCrypto ∧ ∀ P : Crypto, KeyAgreementWorks P →
      ∃ s : System P Bytes, ReachableClient s.client ∧ s.client.state = .connected ∧
        s.client.config.applicationRecordPadding = 0 ∧ Accepting scriptEnv ∧
        ¬ SendDelivers scriptEnv s (List.replicate 16385 0) := by
  refine ⟨keyAgreementWorks_plainCrypto, fun P hP => ?_⟩
  obtain ⟨script, keys, th, fin, -, hscript⟩ := scripted_reachable hP 0 [] (by decide)
  obtain ⟨s, -, hrun, hbare⟩ := hscript []
  have hpadding : s.client.config.applicationRecordPadding = 0 := by
    rw [hbare.config]
    rfl
  refine ⟨s, ⟨_, _, _, _, s, hrun, rfl⟩, hbare.state, hpadding, accepting_scriptEnv, ?_⟩
  rintro ⟨s', evs, opened, hsend, -⟩
  have hfail := send_fails scriptEnv (List.replicate 16385 0) s hbare.state
    (by rw [List.length_replicate]; omega) (by omega)
  rw [hfail] at hsend
  simp at hsend

end XboxTls.Analysis
