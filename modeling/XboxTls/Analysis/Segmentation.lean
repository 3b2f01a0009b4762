import XboxTls.Analysis.RecordLayer
import XboxTls.Analysis.TwoRuns
import XboxTls.Interface.BlankServer
import XboxTls.Interface.Segmentation

/-!
# Segmentation does not matter

The loop of `read_record` collects exactly the bytes that are missing, however they are cut,
and leaves the rest on the stream.  So two streams with the same bytes give the same records,
and everything that is built on `read_record` does the same over both.
-/

set_option autoImplicit false

namespace XboxTls.Analysis

open Programs Programs.Prog XboxTls.Model XboxTls.Interface

variable {P : Crypto} {W : Type} {S : Segmentation} {ended : Option Error} {E : Env W}

/-! ## One stream -/

/-- The bytes that a read takes are the first of those that were left. -/
theorem next_take (n : ℕ) (t : S.State) :
    (S.next n t).1.val = (S.left t).take (S.next n t).1.val.length ∧
      S.left (S.next n t).2 = (S.left t).drop (S.next n t).1.val.length := by
  have hsplit := S.splits n t
  constructor
  · rw [hsplit, List.take_left]
  · conv_rhs => rw [hsplit, List.drop_left]

/-- The system over a stream with these bytes left. -/
structure Over (c : TlsClient P) (trace : List Event) (w : W) (left : Bytes)
    (s : System P (S.State × W)) : Prop where
  client : s.client = c
  trace : s.trace = trace
  beside : s.world.2 = w
  left : S.left s.world.1 = left

/-- What collecting `missing` bytes gives: the first bytes of what is left, or the end of the
stream. -/
def collected (ended : Option Error) (have_ left : Bytes) (missing : ℕ) :
    Except Error Bytes × Bytes :=
  if missing ≤ left.length then (.ok (have_ ++ left.take missing), left.drop missing)
  else (.error (ended.getD .closed), [])

/-- Nothing is missing. -/
theorem collected_zero (have_ left : Bytes) :
    collected ended have_ left 0 = (.ok have_, left) := by
  unfold collected
  rw [if_pos (Nat.zero_le _), List.take_zero, List.append_nil, List.drop_zero]

/-- Collecting in two steps. -/
theorem collected_step (have_ : Bytes) {left : Bytes} {missing n : ℕ} (hle : n ≤ missing)
    (hn : n ≤ left.length) :
    collected ended (have_ ++ left.take n) (left.drop n) (missing - n) =
      collected ended have_ left missing := by
  unfold collected
  by_cases henough : missing ≤ left.length
  · have hsum : missing = n + (missing - n) := by omega
    have htake : left.take missing = left.take n ++ (left.drop n).take (missing - n) := by
      conv_lhs => rw [hsum, List.take_add]
    have hdrop : left.drop missing = (left.drop n).drop (missing - n) := by
      rw [List.drop_drop, ← hsum]
    rw [if_pos henough, if_pos (by rw [List.length_drop]; omega), htake, hdrop,
      List.append_assoc]
  · rw [if_neg henough, if_neg (by rw [List.length_drop]; omega)]

/-- **The loop of `read_record` collects what is missing**, however it is cut. -/
theorem recvLoop_segmented (stream fuel total : ℕ) (have_ : Bytes) {c : TlsClient P}
    {trace : List Event} {w : W} {left : Bytes} {s : System P (S.State × W)}
    (hs : Over c trace w left s) (hfuel : total ≤ have_.length + fuel) :
    ∃ s', recvLoop (segmented S ended E) stream fuel total have_ s =
      some ((collected ended have_ left (total - have_.length)).1, s') ∧
      Over c trace w (collected ended have_ left (total - have_.length)).2 s' := by
  induction fuel generalizing have_ left s with
  | zero =>
    rw [show total - have_.length = 0 by omega, collected_zero]
    exact ⟨s, rfl, hs⟩
  | succ fuel ih =>
    unfold recvLoop
    by_cases hmore : have_.length < total
    swap
    · rw [if_neg hmore, show total - have_.length = 0 by omega, collected_zero]
      exact ⟨s, rfl, hs⟩
    rw [if_pos hmore]
    generalize hmissing : total - have_.length = missing at *
    by_cases hleft : left = []
    · -- the stream is at its end
      have hend : collected ended have_ left missing = (.error (ended.getD .closed), []) := by
        unfold collected
        rw [hleft, if_neg (by rw [List.length_nil]; omega)]
      rw [hend]
      refine ⟨s, ?_, hleft ▸ hs⟩
      have hempty : S.left s.world.1 = [] := hs.left.trans hleft
      rw [bind_apply]
      unfold callWorld segmented
      simp only [hempty, if_true]
      cases ended with
      | some e => rfl
      | none => rfl
    · obtain ⟨htake, hdrop⟩ := next_take missing s.world.1
      have hprogress := S.progress missing s.world.1 (by omega) (by rw [hs.left]; exact hleft)
      have hbound := (S.next missing s.world.1).1.property
      have hcall : (callWorld ((segmented S ended E).recvSome stream missing) :
          ClientM P (S.State × W) _) s = some (.ok (S.next missing s.world.1).1,
            { s with world := ((S.next missing s.world.1).2, s.world.2) }) := by
        unfold callWorld segmented
        simp only [hs.left, if_neg hleft]
      rw [bind_of_ok hcall]
      generalize (S.next missing s.world.1).1 = b at *
      rw [hs.left] at htake hdrop
      have hpos : 0 < b.val.length := List.length_pos_iff.mpr hprogress
      have hle : b.val.length ≤ left.length := by
        have hlength := congrArg List.length htake
        rw [List.length_take] at hlength
        omega
      rw [if_neg (by omega)]
      have hover : Over c trace w (left.drop b.val.length)
          { s with world := ((S.next missing s.world.1).2, s.world.2) } :=
        ⟨hs.client, hs.trace, hs.beside, hdrop⟩
      obtain ⟨s', hrun, hs'⟩ := ih (have_ ++ b.val) hover (by rw [List.length_append]; omega)
      have hrest : total - (have_ ++ b.val).length = missing - b.val.length := by
        rw [List.length_append]
        omega
      have hstep := @collected_step ended have_ _ _ _ hbound hle
      rw [← htake] at hstep
      rw [hrest, hstep] at hrun hs'
      exact ⟨s', hrun, hs'⟩

/-- What `read_record` does after the header. -/
def bodyOf (ended : Option Error) (capacity : ℕ) (header rest : Bytes) :
    Except Error Bytes × Bytes :=
  match parseRecordHeader header with
  | .error e => (.error e, rest)
  | .ok h =>
    if h.length > 16640 ∨ 5 + h.length > capacity then (.error .badRecord, rest)
    else collected ended header rest h.length

/-- What `read_record` does to the bytes that are left. -/
def recordOf (ended : Option Error) (stream : Option ℕ) (capacity : ℕ) (left : Bytes) :
    Except Error Bytes × Bytes :=
  if stream = none ∨ capacity < 5 then (.error .invalidArgument, left)
  else
    match collected ended [] left 5 with
    | (.error e, rest) => (.error e, rest)
    | (.ok header, rest) => bodyOf ended capacity header rest

/-- What was missing is taken from the front of what is left. -/
theorem collected_ok {have_ left header rest : Bytes} {missing : ℕ}
    (h : collected ended have_ left missing = (.ok header, rest)) :
    header = have_ ++ left.take missing ∧ rest = left.drop missing ∧ missing ≤ left.length := by
  unfold collected at h
  split at h
  · next hle =>
    cases h
    exact ⟨rfl, rfl, hle⟩
  · cases h

/-- **What `read_record` does depends on the bytes only.** -/
theorem readRecord_segmented (capacity : ℕ) {c : TlsClient P} {trace : List Event} {w : W}
    {left : Bytes} {s : System P (S.State × W)} (hs : Over c trace w left s) :
    ∃ s', readRecord (segmented S ended E) capacity s =
      some ((recordOf ended c.config.stream capacity left).1, s') ∧
      Over c trace w (recordOf ended c.config.stream capacity left).2 s' := by
  unfold readRecord recordOf
  rw [bind_of_ok (show getClient s = some (.ok c, s) by rw [← hs.client]; rfl)]
  cases c.config.stream with
  | none => exact ⟨s, rfl, hs⟩
  | some stream =>
    dsimp only
    by_cases hsmall : capacity < 5
    · rw [if_pos hsmall, if_pos (Or.inr hsmall)]
      exact ⟨s, rfl, hs⟩
    rw [if_neg hsmall, if_neg (by simpa using hsmall)]
    obtain ⟨s₁, hheader, hs₁⟩ := recvLoop_segmented stream 5 5 [] hs (le_refl _)
    simp only [List.length_nil, Nat.sub_zero] at hheader hs₁
    cases hcollected : collected ended [] left 5 with
    | mk r rest =>
      rw [hcollected] at hheader hs₁
      cases r with
      | error e =>
        rw [bind_of_error hheader]
        exact ⟨s₁, rfl, hs₁⟩
      | ok header =>
        rw [bind_of_ok hheader]
        obtain ⟨hbytes, -, hle⟩ := collected_ok hcollected
        have hlength : header.length = 5 := by
          rw [hbytes, List.nil_append, List.length_take]
          omega
        dsimp only
        unfold bodyOf
        cases parseRecordHeader header with
        | error e => exact ⟨s₁, rfl, hs₁⟩
        | ok h =>
          rw [bind_of_ok (show Prog.lift (.ok h) s₁ = some (.ok h, s₁) from rfl)]
          dsimp only
          by_cases hbad : h.length > 16640 ∨ 5 + h.length > capacity
          · rw [if_pos hbad, if_pos hbad]
            exact ⟨s₁, rfl, hs₁⟩
          · rw [if_neg hbad, if_neg hbad]
            obtain ⟨s₂, hbody, hs₂⟩ := recvLoop_segmented stream h.length (5 + h.length) header
              hs₁ (by omega)
            rw [show 5 + h.length - header.length = h.length by omega] at hbody hs₂
            exact ⟨s₂, hbody, hs₂⟩

/-- A record that was read is the front of what was left. -/
theorem recordOf_ok {stream : Option ℕ} {capacity : ℕ} {left record rest : Bytes}
    (h : recordOf ended stream capacity left = (.ok record, rest)) :
    left = record ++ rest ∧ IsRecord record := by
  unfold recordOf at h
  split at h
  · cases h
  cases hcollected : collected ended [] left 5 with
  | mk r rest₁ =>
    rw [hcollected] at h
    cases r with
    | error e => cases h
    | ok header =>
      obtain ⟨hheader, hrest, hle⟩ := collected_ok hcollected
      have hlength : header.length = 5 := by
        rw [hheader, List.nil_append, List.length_take]
        omega
      dsimp only at h
      unfold bodyOf at h
      cases hparse : parseRecordHeader header with
      | error e =>
        rw [hparse] at h
        cases h
      | ok rh =>
        rw [hparse] at h
        dsimp only at h
        split at h
        · cases h
        obtain ⟨hrecord, hlast, hbody⟩ := collected_ok h
        refine ⟨?_, ?_⟩
        · rw [hrecord, hlast, hheader, hrest, List.nil_append, List.append_assoc,
            List.take_append_drop, List.take_append_drop]
        · have hrh : rh.length = loadBe16 header 3 := by
            unfold parseRecordHeader at hparse
            split at hparse
            · cases hparse
            split at hparse
            · cases hparse
            · cases hparse
              rfl
          have hsame : loadBe16 record 3 = loadBe16 header 3 := by
            unfold loadBe16
            rw [hrecord, byteAt_append (by omega), byteAt_append (by omega)]
          unfold IsRecord
          rw [hsame, ← hrh, hrecord, List.length_append, hlength, List.length_take]
          omega

/-- **The records partition the bytes**: they are the front of the stream, cut after five
bytes and the length that these give. -/
theorem readRecords_segmented (capacity count : ℕ) {c : TlsClient P} {trace : List Event} {w : W}
    {left : Bytes} {s s' : System P (S.State × W)} {records : List Bytes}
    (hs : Over c trace w left s)
    (hrun : readRecords (segmented S ended E) capacity count s = some (.ok records, s')) :
    left = records.flatten ++ S.left s'.world.1 ∧ ∀ record ∈ records, IsRecord record := by
  induction count generalizing left s records with
  | zero =>
    cases hrun
    refine ⟨hs.left.symm, ?_⟩
    intro record hrecord
    cases hrecord
  | succ count ih =>
    unfold readRecords at hrun
    obtain ⟨s₁, hone, hs₁⟩ := readRecord_segmented capacity hs
    cases hrecord : recordOf ended c.config.stream capacity left with
    | mk r rest =>
      rw [hrecord] at hone hs₁
      cases r with
      | error e =>
        rw [bind_of_error hone] at hrun
        cases hrun
      | ok record =>
        rw [bind_of_ok hone, bind_eq_ok_iff] at hrun
        obtain ⟨others, s₂, hothers, hlast⟩ := hrun
        cases hlast
        obtain ⟨hleft, hrecords⟩ := ih hs₁ hothers
        obtain ⟨hfront, hisRecord⟩ := recordOf_ok hrecord
        refine ⟨?_, ?_⟩
        · rw [hfront, show rest = _ from hleft, List.flatten_cons, List.append_assoc]
        · intro r hr
          rcases List.mem_cons.mp hr with rfl | hr
          · exact hisRecord
          · exact hrecords r hr

/-! ## Two streams -/

variable {S₁ S₂ : Segmentation}

/-- A call beside the streams does the same on both. -/
theorem related_beside {α : Type} (x : Prog W Error α) :
    Related (SameLeft S₁ S₂) (beside x) (beside x) := by
  rintro ⟨t₁, w⟩ ⟨t₂, _⟩ ⟨hleft, rfl⟩
  unfold beside
  dsimp only
  cases x w with
  | none => exact .diverge
  | some out => exact .stop _ ⟨hleft, rfl⟩

/-- A record is the same in whatever pieces it comes. -/
theorem related_readRecord_segmented (capacity : ℕ) :
    Related (Alike (SameLeft S₁ S₂))
      (readRecord (segmented S₁ ended E) capacity : ClientM P (S₁.State × W) Bytes)
      (readRecord (segmented S₂ ended E) capacity) := by
  intro s t h
  have hs : Over s.client s.trace s.world.2 (S₁.left s.world.1) s := ⟨rfl, rfl, rfl, rfl⟩
  have ht : Over s.client s.trace s.world.2 (S₁.left s.world.1) t :=
    ⟨h.client.symm, h.trace.symm, h.world.2.symm, h.world.1.symm⟩
  obtain ⟨s', hrun, hs'⟩ := readRecord_segmented capacity hs
  obtain ⟨t', hrun', ht'⟩ := readRecord_segmented capacity ht
  rw [hrun, hrun']
  exact .stop _ ⟨hs'.client.trans ht'.client.symm, hs'.trace.trans ht'.trace.symm,
    hs'.left.trans ht'.left.symm, hs'.beside.trans ht'.beside.symm⟩

/-- Two ways of cutting the same bytes match. -/
theorem matching_segmented :
    Matching P (SameLeft S₁ S₂) (segmented S₁ ended E) (segmented S₂ ended E) where
  randomBytes platform n := related_beside (E.randomBytes platform n)
  sendAll stream bytes := related_beside (E.sendAll stream bytes)
  close stream w₁ w₂ h := ⟨h.1, congrArg (E.close stream) h.2⟩
  verifyChain verifier chain hostname := related_beside (E.verifyChain verifier chain hostname)
  verifySignature verifier scheme leaf message signature :=
    related_beside (E.verifySignature verifier scheme leaf message signature)
  malloc n w₁ w₂ h := by
    have hw : E.malloc n w₁.2 = E.malloc n w₂.2 := congrArg (E.malloc n) h.2
    exact ⟨congrArg Prod.fst hw, h.1, congrArg Prod.snd hw⟩
  sizeOfSize := rfl
  writeBehind bytes w₁ w₂ h := ⟨h.1, congrArg (E.writeBehind bytes) h.2⟩
  readBehind first n w₁ w₂ h := congrArg (E.readBehind first n) h.2
  readRecord := related_readRecord_segmented

/-- Any number of records are the same in whatever pieces they come. -/
theorem related_readRecords (capacity count : ℕ) :
    Related (Alike (SameLeft S₁ S₂))
      (readRecords (segmented S₁ ended E) capacity count : ClientM P (S₁.State × W) (List Bytes))
      (readRecords (segmented S₂ ended E) capacity count) := by
  induction count with
  | zero => exact related_pure []
  | succ count ih =>
    unfold readRecords
    apply related_bind (related_readRecord_segmented capacity)
    intro record
    exact related_bind ih fun records => related_pure _

/-- **Transport segmentation does not matter.**  Over two streams that hand out the same bytes
in different pieces, `read_record` gives the same records, which partition these bytes; every
call, `connect` and `recv` among them, ends with the same result, leaves the same client and
leaves the same bytes on the stream; and so does every run of calls. -/
theorem segmentation_independent (S₁ S₂ : Segmentation) (ended : Option Error) (E : Env W)
    (c : TlsClient P) (trace : List Event) (w : W) (t₁ : S₁.State) (t₂ : S₂.State)
    (hsame : S₁.left t₁ = S₂.left t₂) :
    (∀ capacity count, SameEnd (Alike (SameLeft S₁ S₂))
      (readRecords (segmented S₁ ended E) capacity count ⟨c, (t₁, w), trace⟩)
      (readRecords (segmented S₂ ended E) capacity count ⟨c, (t₂, w), trace⟩)) ∧
    (∀ capacity count records s, readRecords (segmented S₁ ended E) capacity count
        ⟨c, (t₁, w), trace⟩ = some (.ok records, s) →
      S₁.left t₁ = records.flatten ++ S₁.left s.world.1 ∧ ∀ r ∈ records, IsRecord r) ∧
    (∀ (fuel : ℕ) (call : Call), SameEnd (Alike (SameLeft S₁ S₂))
      (call.run (segmented S₁ ended E) fuel ⟨c, (t₁, w), trace⟩)
      (call.run (segmented S₂ ended E) fuel ⟨c, (t₂, w), trace⟩)) ∧
    ∀ log s, Run (segmented S₁ ended E) ⟨c, (t₁, w), trace⟩ log s →
      ∃ t, Run (segmented S₂ ended E) ⟨c, (t₂, w), trace⟩ log t ∧
        Alike (SameLeft S₁ S₂) s t := by
  have halike : Alike (SameLeft S₁ S₂) (⟨c, (t₁, w), trace⟩ : System P (S₁.State × W))
      ⟨c, (t₂, w), trace⟩ := ⟨rfl, rfl, hsame, rfl⟩
  refine ⟨?_, ?_, ?_, ?_⟩
  · intro capacity count
    exact related_readRecords capacity count _ _ halike
  · intro capacity count records s hrun
    exact readRecords_segmented capacity count ⟨rfl, rfl, rfl, rfl⟩ hrun
  · intro fuel call
    exact related_call matching_segmented fuel call _ _ halike
  · intro log s hrun
    exact related_of_run matching_segmented halike hrun

/-- A handshake whose bytes arrive one at a time, and as many at a time as `read_record` asks
for. -/
theorem segmentation_independent_pieces :
    SameEnd (Alike (SameLeft (pieces 1 Nat.one_pos) (pieces 16645 (Nat.succ_pos _))))
      (Call.run (segmented (pieces 1 Nat.one_pos) none scriptEnv) 5 (.connect (scriptConfig 0))
        ⟨.initial blankCrypto, (blankHandshake blankFinished, []), []⟩)
      (Call.run (segmented (pieces 16645 (Nat.succ_pos _)) none scriptEnv) 5
        (.connect (scriptConfig 0))
        ⟨.initial blankCrypto, (blankHandshake blankFinished, []), []⟩) :=
  (segmentation_independent (pieces 1 Nat.one_pos) (pieces 16645 (Nat.succ_pos _)) none scriptEnv
    (.initial blankCrypto) [] [] (blankHandshake blankFinished) (blankHandshake blankFinished)
    rfl).2.2.1 5 (.connect (scriptConfig 0))

end XboxTls.Analysis
