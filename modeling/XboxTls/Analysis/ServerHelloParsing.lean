import XboxTls.Analysis.RawExtensions
import XboxTls.Programs.Prog

/-!
# The ServerHello parser and its grammar

The extension loop reads exactly the strings of extensions whose data are well formed, and a
field holds what the last extension of its type says (`foldl_read`).  So
`parse_server_hello` accepts the messages that say something the client can go on with, and
reports what they say (`parseServerHello_iff`).
-/

set_option autoImplicit false

namespace XboxTls.Analysis

open Programs XboxTls.Model XboxTls.Interface

/-! ## One extension -/

open RawExtension RawExtensions

/-- What an extension does to the state of the loop. -/
def applied (retry : Bool) (st : ServerHelloScan) (e : RawExtension) : ServerHelloScan :=
  if e.type = 0x002b then
    { st with version := true, out := { st.out with selectedVersion := loadBe16 e.body 0 } }
  else if e.type = 0x0033 then { st with
    keyshare := true
    out := { st.out with
      group := ⟨loadBe16 e.body 0⟩
      keyShare := if retry then [] else e.body.drop 4 } }
  else if e.type = 0x002c then { st with out := { st.out with cookie := e.body.drop 2 } }
  else st

/-- An extension does not change which kind of hello it is. -/
@[simp] theorem applied_retry (retry : Bool) (st : ServerHelloScan) (e : RawExtension) :
    (applied retry st e).out.helloRetryRequest = st.out.helloRetryRequest := by
  unfold applied
  split_ifs <;> rfl

/-- A body whose length fits is that of a key share. -/
theorem body_of_keyShare {b : Bytes} (h : loadBe16 b 2 + 4 = b.length) :
    b = keyShareBody ⟨loadBe16 b 0⟩ (b.drop 4) := by
  have hlength : (b.drop 4).length = loadBe16 b 2 := by
    rw [List.length_drop]
    omega
  have hfront : b.take 4 = storeBe16 (loadBe16 b 0) ++ storeBe16 (loadBe16 b 2) := by
    rw [← slice_two (by omega), ← slice_two (by omega), slice_append_slice]
    simp [slice]
  unfold keyShareBody
  rw [hlength, ← hfront, List.take_append_drop]

/-- A body whose length fits is that of a cookie. -/
theorem body_of_cookie {b : Bytes} (h : loadBe16 b 0 + 2 = b.length) :
    b = cookieBody (b.drop 2) := by
  have hlength : (b.drop 2).length = loadBe16 b 0 := by
    rw [List.length_drop]
    omega
  have hfront : b.take 2 = storeBe16 (loadBe16 b 0) := by
    rw [← slice_two (by omega)]
    simp [slice]
  unfold cookieBody
  rw [hlength, ← hfront, List.take_append_drop]

/-- A body of two bytes is a number. -/
theorem body_of_two {b : Bytes} (h : b.length = 2) : b = storeBe16 (loadBe16 b 0) := by
  rw [← slice_two (by omega)]
  simp [slice, ← h]

/-- Group and length are loaded from the body of a key share. -/
theorem keyShareBody_loads {group : NamedGroup} {share : Bytes} (hgroup : group.code < 65536)
    (hshare : share.length ≤ 65) :
    loadBe16 (keyShareBody group share) 0 = group.code ∧
      loadBe16 (keyShareBody group share) 2 = share.length ∧
      (keyShareBody group share).drop 4 = share ∧
      (keyShareBody group share).length = share.length + 4 := by
  have hlength : (keyShareBody group share).length = share.length + 4 := by
    simp only [keyShareBody, List.length_append, storeBe16_length]
    omega
  refine ⟨?_, ?_, ?_, hlength⟩
  · rw [keyShareBody, List.append_assoc]
    exact loadBe16_storeBe16 _ hgroup _
  · have hdrop : (keyShareBody group share).drop 2 = storeBe16 share.length ++ share := by
      rw [keyShareBody, List.append_assoc]
      exact @List.drop_left _ (storeBe16 group.code) _
    have hload := loadBe16_drop (keyShareBody group share) 2 0
    rw [hdrop, loadBe16_storeBe16 _ (by omega)] at hload
    exact hload.symm
  · exact @List.drop_left _ (storeBe16 group.code ++ storeBe16 share.length) _

/-- The data of an extension, read where they are in the message. -/
structure At (h : Bytes) (p : ℕ) (body : Bytes) : Prop where
  slice_eq : slice h p body.length = body

namespace At

variable {h body : Bytes} {p : ℕ}

/-- A number inside the body is loaded from the hello. -/
theorem loadBe16_eq (ha : At h p body) {j : ℕ} (hj : j + 1 < body.length) :
    loadBe16 h (p + j) = loadBe16 body j := by
  rw [← loadBe16_slice hj, ha.slice_eq]

/-- The end of the body is a slice of the hello. -/
theorem slice_drop (ha : At h p body) {j : ℕ} (hj : j ≤ body.length) :
    slice h (p + j) (body.length - j) = body.drop j := by
  rw [← slice_slice (n := body.length) (by omega), ha.slice_eq]
  unfold slice
  exact List.take_of_length_le (by simp)

end At

section Extension

variable {h : Bytes} {p : ℕ} {e : RawExtension} {st st' : ServerHelloScan}

/-- An extension of a type that the loop does not know is skipped. -/
theorem scan_other (h43 : e.type ≠ 0x002b) (h51 : e.type ≠ 0x0033) (h44 : e.type ≠ 0x002c) :
    scanServerHelloExtension h p e.type e.body.length st = .ok st' ↔
      e.WellFormed st.out.helloRetryRequest ∧ applied st.out.helloRetryRequest st e = st' := by
  have hwell : e.WellFormed st.out.helloRetryRequest :=
    ⟨fun ht => absurd ht h43, fun ht => absurd ht h51, fun ht => absurd ht h51,
      fun ht => absurd ht h44⟩
  unfold scanServerHelloExtension applied
  dsimp only
  rw [if_neg h43, if_neg h51, if_neg h44, if_neg h43, if_neg h51, if_neg h44]
  simp [hwell]

/-- The scan of supported_versions. -/
theorem scan_version (ha : At h p e.body) (htype : e.type = 0x002b) :
    scanServerHelloExtension h p e.type e.body.length st = .ok st' ↔
      e.WellFormed st.out.helloRetryRequest ∧ applied st.out.helloRetryRequest st e = st' := by
  have hwell : e.WellFormed st.out.helloRetryRequest ↔ e.body.length = 2 := by
    constructor
    · intro hw
      obtain ⟨v, -, hbody⟩ := hw.version htype
      rw [hbody, storeBe16_length]
    · intro hlength
      refine ⟨fun _ => ⟨_, ?_, body_of_two hlength⟩, fun ht => ?_, fun ht => ?_, fun ht => ?_⟩
      · have := loadBe16_le e.body 0
        omega
      all_goals simp [htype] at ht
  unfold scanServerHelloExtension applied
  dsimp only
  rw [if_pos htype, if_pos htype, hwell]
  by_cases hlength : e.body.length = 2
  · have hload := ha.loadBe16_eq (j := 0) (by omega)
    rw [Nat.add_zero] at hload
    rw [if_neg (by simpa using hlength), hload]
    simp [hlength]
  · rw [if_pos hlength]
    simp [hlength]

/-- The scan of the group of a retry. -/
theorem scan_retryGroup (ha : At h p e.body) (htype : e.type = 0x0033)
    (hretry : st.out.helloRetryRequest = true) :
    scanServerHelloExtension h p e.type e.body.length st = .ok st' ↔
      e.WellFormed st.out.helloRetryRequest ∧ applied st.out.helloRetryRequest st e = st' := by
  have hwell : e.WellFormed true ↔ e.body.length = 2 := by
    constructor
    · intro hw
      obtain ⟨group, -, hbody⟩ := hw.retryGroup htype rfl
      rw [hbody, storeBe16_length]
    · intro hlength
      refine ⟨fun ht => ?_, fun _ hr => ?_,
        fun _ _ => ⟨⟨loadBe16 e.body 0⟩, ?_, body_of_two hlength⟩, fun ht => ?_⟩
      · simp [htype] at ht
      · cases hr
      · have := loadBe16_le e.body 0
        dsimp only
        omega
      · simp [htype] at ht
  have h43 : ¬ e.type = 0x002b := by simp [htype]
  rw [hretry, hwell]
  unfold scanServerHelloExtension applied
  dsimp only
  rw [if_neg h43, if_pos htype, if_pos hretry, if_neg h43, if_pos htype]
  by_cases hlength : e.body.length = 2
  · have hload := ha.loadBe16_eq (j := 0) (by omega)
    rw [Nat.add_zero] at hload
    rw [if_neg (by simpa using hlength), hload]
    simp [hlength]
  · rw [if_pos hlength]
    simp [hlength]

/-- The scan of a key share. -/
theorem scan_keyShare (ha : At h p e.body) (htype : e.type = 0x0033)
    (hretry : st.out.helloRetryRequest = false) :
    scanServerHelloExtension h p e.type e.body.length st = .ok st' ↔
      e.WellFormed st.out.helloRetryRequest ∧ applied st.out.helloRetryRequest st e = st' := by
  have hwell : e.WellFormed false ↔ 4 ≤ e.body.length ∧
      loadBe16 e.body 2 + 4 = e.body.length ∧ loadBe16 e.body 2 ≤ 65 := by
    constructor
    · intro hw
      obtain ⟨group, share, hgroup, hshare, hbody⟩ := hw.keyShare htype rfl
      obtain ⟨-, hload, -, hlength⟩ := keyShareBody_loads hgroup hshare
      rw [hbody, hload, hlength]
      omega
    · rintro ⟨-, hlength, hshare⟩
      refine ⟨fun ht => ?_,
        fun _ _ => ⟨⟨loadBe16 e.body 0⟩, _, ?_, ?_, body_of_keyShare hlength⟩,
        fun _ hr => ?_, fun ht => ?_⟩
      · simp [htype] at ht
      · have := loadBe16_le e.body 0
        dsimp only
        omega
      · rw [List.length_drop]
        omega
      · cases hr
      · simp [htype] at ht
  have h43 : ¬ e.type = 0x002b := by simp [htype]
  have hfresh : ¬ st.out.helloRetryRequest = true := by simp [hretry]
  rw [hretry, hwell]
  unfold scanServerHelloExtension applied
  dsimp only
  rw [if_neg h43, if_pos htype, if_neg hfresh, if_neg h43, if_pos htype]
  by_cases hshort : e.body.length < 4
  · rw [if_pos hshort]
    simp only [reduceCtorEq, false_iff]
    omega
  · have hgroup := ha.loadBe16_eq (j := 0) (by omega)
    rw [Nat.add_zero] at hgroup
    rw [if_neg hshort, hgroup, ha.loadBe16_eq (j := 2) (by omega)]
    by_cases hbad : loadBe16 e.body 2 + 4 ≠ e.body.length ∨ loadBe16 e.body 2 > 65
    · rw [if_pos hbad]
      simp only [reduceCtorEq, false_iff]
      omega
    · have hshare := ha.slice_drop (j := 4) (by omega)
      rw [show e.body.length - 4 = loadBe16 e.body 2 by omega] at hshare
      rw [if_neg hbad, hshare]
      have hall : 4 ≤ e.body.length ∧ loadBe16 e.body 2 + 4 = e.body.length ∧
          loadBe16 e.body 2 ≤ 65 := by omega
      simp [hall]

/-- The scan of a cookie. -/
theorem scan_cookie (ha : At h p e.body) (htype : e.type = 0x002c) :
    scanServerHelloExtension h p e.type e.body.length st = .ok st' ↔
      e.WellFormed st.out.helloRetryRequest ∧ applied st.out.helloRetryRequest st e = st' := by
  have hwell : e.WellFormed st.out.helloRetryRequest ↔ st.out.helloRetryRequest = true ∧
      2 ≤ e.body.length ∧ loadBe16 e.body 0 + 2 = e.body.length ∧ loadBe16 e.body 0 ≤ 512 := by
    constructor
    · intro hw
      obtain ⟨hretry, cookie, hbound, hbody⟩ := hw.cookie htype
      have hload : loadBe16 e.body 0 = cookie.length := by
        rw [hbody]
        exact loadBe16_storeBe16 _ (by omega) _
      have hlength : e.body.length = cookie.length + 2 := by
        rw [hbody, cookieBody, List.length_append, storeBe16_length, Nat.add_comm]
      refine ⟨hretry, ?_⟩
      omega
    · rintro ⟨hretry, -, hlength, hbound⟩
      refine ⟨fun ht => ?_, fun ht => ?_, fun ht => ?_,
        fun _ => ⟨hretry, _, ?_, body_of_cookie hlength⟩⟩
      · simp [htype] at ht
      · simp [htype] at ht
      · simp [htype] at ht
      · rw [List.length_drop]
        omega
  have h43 : ¬ e.type = 0x002b := by simp [htype]
  have h51 : ¬ e.type = 0x0033 := by simp [htype]
  rw [hwell]
  unfold scanServerHelloExtension applied
  dsimp only
  rw [if_neg h43, if_neg h51, if_pos htype, if_neg h43, if_neg h51, if_pos htype]
  cases hretry : st.out.helloRetryRequest with
  | false => simp
  | true =>
    by_cases hshort : e.body.length < 2
    · rw [if_pos (.inr hshort)]
      simp only [reduceCtorEq, false_iff]
      omega
    · have hcookie := ha.loadBe16_eq (j := 0) (by omega)
      rw [Nat.add_zero] at hcookie
      rw [if_neg (by simpa using hshort), hcookie]
      by_cases hbad : loadBe16 e.body 0 + 2 ≠ e.body.length ∨ loadBe16 e.body 0 > 512
      · rw [if_pos hbad]
        simp only [reduceCtorEq, false_iff]
        omega
      · have hdrop := ha.slice_drop (j := 2) (by omega)
        rw [show e.body.length - 2 = loadBe16 e.body 0 by omega] at hdrop
        rw [if_neg hbad, hdrop]
        have hall : 2 ≤ e.body.length ∧ loadBe16 e.body 0 + 2 = e.body.length ∧
            loadBe16 e.body 0 ≤ 512 := by omega
        simp [hall]

/-- The loop takes an extension exactly if its data are well formed, and applies it. -/
theorem scanServerHelloExtension_iff (ha : At h p e.body) :
    scanServerHelloExtension h p e.type e.body.length st = .ok st' ↔
      e.WellFormed st.out.helloRetryRequest ∧ applied st.out.helloRetryRequest st e = st' := by
  by_cases h43 : e.type = 0x002b
  · exact scan_version ha h43
  by_cases h51 : e.type = 0x0033
  · cases hretry : st.out.helloRetryRequest with
    | true =>
      rw [← hretry]
      exact scan_retryGroup ha h51 hretry
    | false =>
      rw [← hretry]
      exact scan_keyShare ha h51 hretry
  by_cases h44 : e.type = 0x002c
  · exact scan_cookie ha h44
  exact scan_other h43 h51 h44

end Extension

/-! ## The loop -/

/-- The bytes of the first extension at `p`. -/
theorem at_of_drop {h : Bytes} {p : ℕ} {e : RawExtension} {rest : Bytes}
    (hdrop : h.drop p = e.encode ++ rest) :
    p + 4 + e.body.length ≤ h.length ∧ loadBe16 h p = e.type ∧
      loadBe16 h (p + 2) = e.body.length ∧ At h (p + 4) e.body ∧
      h.drop (p + 4 + e.body.length) = rest := by
  have hlength := congrArg List.length hdrop
  rw [List.length_drop, List.length_append, encode_length] at hlength
  have hbody : h.drop (p + 4) = e.body ++ rest := by
    rw [← List.drop_drop, hdrop, drop_encode]
  refine ⟨by omega, ?_, ?_, ⟨?_⟩, ?_⟩
  · have hload := loadBe16_drop h p 0
    rw [hdrop, loadType] at hload
    exact hload.symm
  · have hload := loadBe16_drop h p 2
    rw [hdrop, loadLength] at hload
    exact hload.symm
  · unfold slice
    rw [hbody, List.take_left]
  · rw [← List.drop_drop, hbody, List.drop_left]

/-- The loop takes extensions exactly if their data are well formed, and applies them in
order. -/
theorem scanServerHelloExtensions_iff {h : Bytes} (es : List RawExtension) :
    ∀ (p fuel : ℕ) (st st' : ServerHelloScan), h.drop p = encodeAll es → es.length ≤ fuel →
      (scanServerHelloExtensions h fuel p st = .ok st' ↔
        (∀ e ∈ es, e.WellFormed st.out.helloRetryRequest) ∧
          es.foldl (applied st.out.helloRetryRequest) st = st') := by
  induction es with
  | nil =>
    intro p fuel st st' hdrop _
    have hend : p ≥ h.length := List.drop_eq_nil_iff.mp hdrop
    have hscan : scanServerHelloExtensions h fuel p st = .ok st := by
      cases fuel with
      | zero => rfl
      | succ fuel =>
        unfold scanServerHelloExtensions
        rw [if_pos hend]
    rw [hscan]
    simp
  | cons e es ih =>
    intro p fuel st st' hdrop hfuel
    obtain ⟨fuel, rfl⟩ := Nat.exists_eq_succ_of_ne_zero
      (Nat.ne_of_gt (Nat.lt_of_lt_of_le (Nat.succ_pos _) hfuel))
    rw [encodeAll_cons] at hdrop
    obtain ⟨hfits, htype, hlength, hat, hrest⟩ := at_of_drop hdrop
    unfold scanServerHelloExtensions
    rw [if_neg (by omega), if_neg (by omega)]
    dsimp only
    rw [htype, hlength, if_neg (by omega), except_bind_eq_ok]
    constructor
    · rintro ⟨st₁, hfirst, hothers⟩
      obtain ⟨hwell, rfl⟩ := (scanServerHelloExtension_iff hat).mp hfirst
      obtain ⟨hall, hfold⟩ := (ih _ _ _ _ hrest (Nat.le_of_succ_le_succ hfuel)).mp hothers
      rw [applied_retry] at hall hfold
      exact ⟨List.forall_mem_cons.mpr ⟨hwell, hall⟩, hfold⟩
    · rintro ⟨hall, hfold⟩
      obtain ⟨hwell, hall⟩ := List.forall_mem_cons.mp hall
      refine ⟨_, (scanServerHelloExtension_iff hat).mpr ⟨hwell, rfl⟩, ?_⟩
      apply (ih _ _ _ _ hrest (Nat.le_of_succ_le_succ hfuel)).mpr
      rw [applied_retry]
      exact ⟨hall, hfold⟩

/-- What the loop accepts is a string of extensions. -/
theorem extensions_of_scan {h : Bytes} (fuel : ℕ) :
    ∀ (p : ℕ) (st st' : ServerHelloScan), scanServerHelloExtensions h fuel p st = .ok st' →
      p ≤ h.length → h.length - p ≤ fuel → ∃ es, h.drop p = encodeAll es := by
  induction fuel with
  | zero =>
    intro p st st' _ hp hfuel
    exact ⟨[], List.drop_eq_nil_iff.mpr (by omega)⟩
  | succ fuel ih =>
    intro p st st' hscan hp hfuel
    unfold scanServerHelloExtensions at hscan
    split at hscan
    · exact ⟨[], List.drop_eq_nil_iff.mpr (by omega)⟩
    split at hscan
    · cases hscan
    dsimp only at hscan
    split at hscan
    · cases hscan
    next hshort hfits =>
    obtain ⟨st₁, -, hothers⟩ := (except_bind_eq_ok _ _ _).mp hscan
    obtain ⟨es, hes⟩ := ih _ _ _ hothers (by omega) (by omega)
    obtain ⟨e, he⟩ := exists_extension (b := h.drop p)
      (by rw [List.length_drop]; omega) (by rw [List.length_drop, loadBe16_drop]; omega)
    rw [loadBe16_drop, List.drop_drop, ← Nat.add_assoc, hes] at he
    exact ⟨e :: es, by rw [he, encodeAll_cons]⟩

/-! ## The fields after the loop -/

section Fields

variable (retry : Bool) (es : List RawExtension) (st : ServerHelloScan)

/-- A field that no extension sets stays. -/
theorem foldl_fixed {β : Type} (read : ServerHelloScan → β)
    (hread : ∀ s e, read (applied retry s e) = read s) :
    read (es.foldl (applied retry) st) = read st := by
  induction es generalizing st with
  | nil => rfl
  | cons e es ih => rw [List.foldl_cons, ih, hread]

/-- Whether there is a version is decided by the extensions of that type. -/
theorem foldl_version : (es.foldl (applied retry) st).version =
    (((lastBody 0x002b es).map fun _ => true).getD st.version) := by
  apply foldl_read (applied retry) ServerHelloScan.version 0x002b fun _ => true
  intro s e
  unfold applied
  split_ifs <;> rfl

/-- The last version counts. -/
theorem foldl_selectedVersion : (es.foldl (applied retry) st).out.selectedVersion =
    ((lastBody 0x002b es).map fun b => loadBe16 b 0).getD st.out.selectedVersion := by
  apply foldl_read (applied retry) (fun s => s.out.selectedVersion) 0x002b fun b => loadBe16 b 0
  intro s e
  unfold applied
  split_ifs <;> rfl

/-- Whether there is a share is decided by the extensions of that type. -/
theorem foldl_keyshare : (es.foldl (applied retry) st).keyshare =
    (((lastBody 0x0033 es).map fun _ => true).getD st.keyshare) := by
  apply foldl_read (applied retry) ServerHelloScan.keyshare 0x0033 fun _ => true
  intro s e
  unfold applied
  by_cases h43 : e.type = 0x002b
  · simp [h43]
  · simp only [if_neg h43]
    split_ifs <;> rfl

/-- The group of the last share counts. -/
theorem foldl_group : (es.foldl (applied retry) st).out.group =
    ((lastBody 0x0033 es).map fun b => (⟨loadBe16 b 0⟩ : NamedGroup)).getD st.out.group := by
  apply foldl_read (applied retry) (fun s => s.out.group) 0x0033 fun b => ⟨loadBe16 b 0⟩
  intro s e
  unfold applied
  by_cases h43 : e.type = 0x002b
  · simp [h43]
  · simp only [if_neg h43]
    split_ifs <;> rfl

/-- The last share counts. -/
theorem foldl_share : (es.foldl (applied retry) st).out.keyShare =
    ((lastBody 0x0033 es).map fun b => if retry then [] else b.drop 4).getD
      st.out.keyShare := by
  apply foldl_read (applied retry) (fun s => s.out.keyShare) 0x0033
    fun b => if retry then [] else b.drop 4
  intro s e
  unfold applied
  by_cases h43 : e.type = 0x002b
  · simp [h43]
  · simp only [if_neg h43]
    split_ifs <;> rfl

/-- The last cookie counts. -/
theorem foldl_cookie : (es.foldl (applied retry) st).out.cookie =
    ((lastBody 0x002c es).map (List.drop 2)).getD st.out.cookie := by
  apply foldl_read (applied retry) (fun s => s.out.cookie) 0x002c (List.drop 2)
  intro s e
  unfold applied
  by_cases h43 : e.type = 0x002b
  · simp [h43]
  · by_cases h51 : e.type = 0x0033
    · simp [h51]
    · simp only [if_neg h43, if_neg h51]
      split_ifs <;> rfl

end Fields

/-- What the checks after the loop ask for. -/
theorem checkServerHello_iff {st : ServerHelloScan} {info : ServerHelloInfo} :
    checkServerHello st = .ok info ↔ st.version = true ∧ st.out.selectedVersion = 0x0304 ∧
      st.keyshare = true ∧ st.out.cipherSuite = tlsAes128GcmSha256 ∧
      (st.out.helloRetryRequest = true →
        st.out.group = .x25519 ∨ st.out.group = .secp256r1) ∧
      (st.out.helloRetryRequest = false →
        (st.out.group = .x25519 ∧ st.out.keyShare.length = 32) ∨
          (st.out.group = .secp256r1 ∧ st.out.keyShare.length = 65 ∧
            byteAt st.out.keyShare 0 = 0x04)) ∧
      st.out = info := by
  unfold checkServerHello
  dsimp only
  by_cases hseen : st.version = false ∨ st.out.selectedVersion ≠ 0x0304 ∨ st.keyshare = false
  · rw [if_pos hseen]
    simp only [reduceCtorEq, false_iff]
    rintro ⟨hversion, hselected, hkeyshare, -⟩
    simp [hversion, hselected, hkeyshare] at hseen
  · simp only [not_or, Bool.not_eq_false, ne_eq, not_not] at hseen
    obtain ⟨hversion, hselected, hkeyshare⟩ := hseen
    rw [if_neg (by simp [hversion, hselected, hkeyshare])]
    by_cases hsuite : st.out.cipherSuite = tlsAes128GcmSha256
    · rw [if_neg (by simpa using hsuite)]
      cases hretry : st.out.helloRetryRequest with
      | true =>
        rw [if_pos rfl]
        by_cases hgroup : st.out.group = .x25519 ∨ st.out.group = .secp256r1
        · rw [if_neg (by tauto)]
          simp [hversion, hselected, hkeyshare, hsuite, hgroup]
        · rw [if_pos (by tauto)]
          simp [hgroup]
      | false =>
        rw [if_neg (by simp)]
        by_cases hx : st.out.group = .x25519 ∧ st.out.keyShare.length = 32
        · rw [if_pos hx]
          simp [hversion, hselected, hkeyshare, hsuite, hx]
        · rw [if_neg hx]
          by_cases hp : st.out.group = .secp256r1 ∧ st.out.keyShare.length = 65 ∧
              byteAt st.out.keyShare 0 = 0x04
          · rw [if_pos hp]
            simp [hversion, hselected, hkeyshare, hsuite, hp]
          · rw [if_neg hp]
            simp [hx, hp]
    · rw [if_pos hsuite]
      simp [hsuite]

/-! ## The message -/

/-- The state of the loop at its start. -/
def startScan (m : HelloParts) : ServerHelloScan where
  version := false
  keyshare := false
  out :=
    { random := m.random.val
      sessionId := m.sessionId
      cipherSuite := m.cipherSuite
      selectedVersion := 0
      group := .x25519
      keyShare := []
      helloRetryRequest := m.isRetry
      cookie := [] }

/-- The bytes before the extensions. -/
def helloFront (m : HelloParts) : Bytes :=
  [hsServerHello] ++ storeBe24 m.encodeBody.length ++ storeBe16 0x0303 ++ m.random.val ++
    [UInt8.ofNat m.sessionId.length] ++ m.sessionId ++ storeBe16 m.cipherSuite ++ [0] ++
    storeBe16 (encodeAll m.extensions).length

/-- The encoding is the front and the extensions. -/
theorem encode_eq (m : HelloParts) : m.encode = helloFront m ++ encodeAll m.extensions := by
  simp only [HelloParts.encode, HelloParts.encodeBody, helloFront, List.append_assoc]

/-- The body has forty bytes, the session id and the extensions. -/
theorem encodeBody_length (m : HelloParts) :
    m.encodeBody.length = 40 + m.sessionId.length + (encodeAll m.extensions).length := by
  simp only [HelloParts.encodeBody, List.length_append, storeBe16_length, m.random.property,
    List.length_singleton]
  omega

/-- The front has forty-four bytes and the session id. -/
theorem helloFront_length (m : HelloParts) :
    (helloFront m).length = 44 + m.sessionId.length := by
  simp only [helloFront, List.length_append, storeBe16_length, storeBe24_length,
    m.random.property, List.length_singleton]
  omega

/-- The length of the encoding is that of its parts. -/
theorem encode_length_eq (m : HelloParts) :
    m.encode.length = 44 + m.sessionId.length + (encodeAll m.extensions).length := by
  rw [encode_eq, List.length_append, helloFront_length]

/-- Dropping what is in front. -/
theorem drop_front {a b c : Bytes} {n : ℕ} (h : c = a ++ b) (hn : a.length = n) :
    c.drop n = b := by
  rw [h, ← hn, List.drop_left]

/-- The fields of a message, where the parser reads them. -/
structure FieldsOf (m : HelloParts) (h : Bytes) : Prop where
  type : byteAt h 0 = hsServerHello
  length : loadBe24 h 1 = m.encodeBody.length
  version : loadBe16 h 4 = 0x0303
  random : slice h 6 32 = m.random.val
  sessionLength : (byteAt h 38).toNat = m.sessionId.length
  sessionId : slice h 39 m.sessionId.length = m.sessionId
  cipherSuite : loadBe16 h (39 + m.sessionId.length) = m.cipherSuite
  compression : byteAt h (39 + m.sessionId.length + 2) = 0
  extensionsLength : loadBe16 h (39 + m.sessionId.length + 3) = (encodeAll m.extensions).length

/-- The fields are read from the encoding. -/
theorem fieldsOf_encode (m : HelloParts) : FieldsOf m m.encode := by
  have hbody := encodeBody_length m
  have hsession := m.sessionBound
  have hexts := m.extensionsBound
  have hdrop : ∀ {a b : Bytes} {n : ℕ}, m.encode = a ++ b → a.length = n →
      m.encode.drop n = b := fun h hn => drop_front h hn
  have h1 : m.encode.drop 1 = storeBe24 m.encodeBody.length ++ m.encodeBody :=
    hdrop (a := [hsServerHello]) (List.append_assoc _ _ _) rfl
  have h4 : m.encode.drop 4 = storeBe16 0x0303 ++ (m.random.val ++
      ([UInt8.ofNat m.sessionId.length] ++ (m.sessionId ++ (storeBe16 m.cipherSuite ++ ([0] ++
        (storeBe16 (encodeAll m.extensions).length ++ encodeAll m.extensions)))))) := by
    refine hdrop (a := [hsServerHello] ++ storeBe24 m.encodeBody.length) ?_ rfl
    simp only [HelloParts.encode, HelloParts.encodeBody, List.append_assoc]
  have h6 := drop_front (n := 2) h4 rfl
  rw [List.drop_drop] at h6
  have h38 := drop_front (n := 32) h6 m.random.property
  rw [List.drop_drop] at h38
  have h39 := drop_front (n := 1) h38 rfl
  rw [List.drop_drop] at h39
  have hsuite := drop_front h39 rfl
  rw [List.drop_drop] at hsuite
  have hcompression := drop_front (n := 2) hsuite rfl
  rw [List.drop_drop] at hcompression
  have hlength := drop_front (n := 1) hcompression rfl
  rw [List.drop_drop] at hlength
  change m.encode.drop 6 = _ at h6
  change m.encode.drop 38 = _ at h38
  change m.encode.drop 39 = _ at h39
  change m.encode.drop (39 + m.sessionId.length) = _ at hsuite
  change m.encode.drop (39 + m.sessionId.length + 2) = _ at hcompression
  change m.encode.drop (39 + m.sessionId.length + 3) = _ at hlength
  have hload16 : ∀ n, loadBe16 m.encode n = loadBe16 (m.encode.drop n) 0 := by
    intro n
    rw [loadBe16_drop, Nat.add_zero]
  have hbyte : ∀ n, byteAt m.encode n = byteAt (m.encode.drop n) 0 := by
    intro n
    rw [byteAt_drop, Nat.add_zero]
  constructor
  · rfl
  · have hload : loadBe24 (m.encode.drop 1) 0 = m.encodeBody.length := by
      rw [h1]
      exact loadBe24_storeBe24 _ (by omega) _
    unfold loadBe24 at hload ⊢
    simpa only [byteAt_drop] using hload
  · rw [hload16, h4]
    exact loadBe16_storeBe16 _ (by omega) _
  · unfold slice
    rw [h6]
    exact List.take_left' m.random.property
  · rw [hbyte, h38]
    show (UInt8.ofNat m.sessionId.length).toNat = _
    rw [UInt8.toNat_ofNat']
    omega
  · unfold slice
    rw [h39, List.take_left]
  · rw [hload16, hsuite]
    exact loadBe16_storeBe16 _ m.suiteBound _
  · rw [hbyte, hcompression]
    rfl
  · rw [hload16, hlength]
    exact loadBe16_storeBe16 _ hexts _

/-- A message of this shape is accepted as its extensions are. -/
theorem parseServerHello_encode (m : HelloParts) (info : ServerHelloInfo) :
    parseServerHello m.encode = .ok info ↔ (∀ e ∈ m.extensions, e.WellFormed m.isRetry) ∧
      checkServerHello (m.extensions.foldl (applied m.isRetry) (startScan m)) = .ok info := by
  obtain ⟨htype, hlength, hversion, hrandom, hsid, hsession, hsuite, hcompression, hexts⟩ :=
    fieldsOf_encode m
  have hbody := encodeBody_length m
  have htotal := encode_length_eq m
  have hbound := m.sessionBound
  have hdrop : m.encode.drop (39 + m.sessionId.length + 5) = encodeAll m.extensions :=
    drop_front (encode_eq m) (by rw [helloFront_length]; omega)
  have hscan := scanServerHelloExtensions_iff m.extensions (39 + m.sessionId.length + 5)
    (encodeAll m.extensions).length (startScan m) (h := m.encode)
  unfold parseServerHello
  rw [if_neg (by simp [htype]; omega)]
  dsimp only
  rw [hlength, if_neg (by omega), hversion, if_neg (by simp), if_neg (by omega), hsid,
    if_neg (by omega), hcompression, if_neg (by simp), hexts, if_neg (by omega), hrandom,
    hsession, hsuite, except_bind_eq_ok]
  constructor
  · rintro ⟨st, hst, hcheck⟩
    obtain ⟨hwell, hfold⟩ := (hscan st hdrop (length_le_encodeAll _)).mp hst
    refine ⟨hwell, ?_⟩
    rw [show m.isRetry = (startScan m).out.helloRetryRequest from rfl, hfold]
    exact hcheck
  · rintro ⟨hwell, hcheck⟩
    exact ⟨_, (hscan _ hdrop (length_le_encodeAll _)).mpr ⟨hwell, rfl⟩, hcheck⟩

/-- Bytes with a fixed value at a place. -/
theorem slice_one {b : Bytes} {i : ℕ} (h : i < b.length) : slice b i 1 = [byteAt b i] := by
  rw [slice_succ h]
  simp [slice]

/-- Two slices that meet are one. -/
theorem slice_front {b : Bytes} {n m k j : ℕ} (hk : k = n) (hj : j = n + m) :
    slice b 0 n ++ slice b k m = slice b 0 j := by
  have hjoin := slice_append_slice b 0 n m
  rw [Nat.zero_add] at hjoin
  rw [hk, hj, hjoin]

/-- What is accepted has the shape of a message. -/
theorem exists_parts {h : Bytes} {info : ServerHelloInfo} (hparse : parseServerHello h = .ok info) :
    ∃ m : HelloParts, h = m.encode := by
  unfold parseServerHello at hparse
  split at hparse
  · cases hparse
  next htype =>
  dsimp only at hparse
  split at hparse
  · cases hparse
  next hbody =>
  split at hparse
  · cases hparse
  next hversion =>
  split at hparse
  · cases hparse
  next hlong =>
  split at hparse
  · cases hparse
  next hsid =>
  split at hparse
  · cases hparse
  next hcompression =>
  split at hparse
  · cases hparse
  next hexts =>
  obtain ⟨st, hscan, -⟩ := (except_bind_eq_ok _ _ _).mp hparse
  obtain ⟨es, hes⟩ := extensions_of_scan _ _ _ _ hscan (by omega) (by omega)
  have hextsBound := loadBe16_le h (39 + (byteAt h 38).toNat + 3)
  have hesLength := congrArg List.length hes
  rw [List.length_drop] at hesLength
  have hsessionLength : (slice h 39 (byteAt h 38).toNat).length = (byteAt h 38).toNat :=
    slice_length (by omega)
  have hsuiteBound := loadBe16_le h (39 + (byteAt h 38).toNat)
  let m : HelloParts :=
    { random := ⟨slice h 6 32, slice_length (by omega)⟩
      sessionId := slice h 39 (byteAt h 38).toNat
      cipherSuite := loadBe16 h (39 + (byteAt h 38).toNat)
      extensions := es
      sessionBound := by omega
      suiteBound := by omega
      extensionsBound := by omega }
  have hbodyLength : m.encodeBody.length = loadBe24 h 1 := by
    have hm := encodeBody_length m
    have hmSession : m.sessionId.length = (byteAt h 38).toNat := hsessionLength
    have hmExts : (encodeAll m.extensions).length = (encodeAll es).length := rfl
    omega
  refine ⟨m, ?_⟩
  have hfront : helloFront m = h.take (39 + (byteAt h 38).toNat + 5) := by
    have hzero : h.take (39 + (byteAt h 38).toNat + 5) =
        slice h 0 (39 + (byteAt h 38).toNat + 5) := by simp [slice]
    have hexts : (encodeAll es).length = loadBe16 h (39 + (byteAt h 38).toNat + 3) := by omega
    unfold helloFront
    rw [hbodyLength]
    show [hsServerHello] ++ storeBe24 (loadBe24 h 1) ++ storeBe16 0x0303 ++ slice h 6 32 ++
      [UInt8.ofNat (slice h 39 (byteAt h 38).toNat).length] ++ slice h 39 (byteAt h 38).toNat ++
      storeBe16 (loadBe16 h (39 + (byteAt h 38).toNat)) ++ [0] ++
      storeBe16 (encodeAll es).length = _
    rw [hsessionLength, UInt8.ofNat_toNat, hexts]
    rw [not_or, Nat.not_lt, not_not] at htype
    rw [not_not] at hversion hcompression
    rw [← htype.2, ← hversion, ← hcompression, ← slice_one (by omega), ← slice_one (by omega),
      ← slice_one (by omega), ← slice_two (by omega), ← slice_two (by omega),
      ← slice_two (by omega), ← slice_three (by omega), hzero]
    rw [slice_front (j := 4), slice_front (j := 6), slice_front (j := 38),
      slice_front (j := 39), slice_front (j := 39 + (byteAt h 38).toNat),
      slice_front (j := 39 + (byteAt h 38).toNat + 2),
      slice_front (j := 39 + (byteAt h 38).toNat + 3),
      slice_front (j := 39 + (byteAt h 38).toNat + 5)]
    all_goals omega
  rw [encode_eq, hfront]
  show h = h.take _ ++ encodeAll es
  rw [← hes, List.take_append_drop]

/-! ## What is said -/

/-- The last version of a message with well-formed extensions. -/
theorem version_of_lastBody {m : HelloParts} (hwell : ∀ e ∈ m.extensions, e.WellFormed m.isRetry)
    {body : Bytes} (hlast : lastBody 0x002b m.extensions = some body) :
    body = storeBe16 (loadBe16 body 0) := by
  obtain ⟨e, hmem, htype, rfl⟩ := exists_mem_of_lastBody hlast
  obtain ⟨v, -, hbody⟩ := (hwell e hmem).version htype
  exact body_of_two (by rw [hbody, storeBe16_length])

/-- The group and the share that the loop leaves are those of the last key share. -/
theorem shares_iff {m : HelloParts} (hwell : ∀ e ∈ m.extensions, e.WellFormed m.isRetry)
    {body : Bytes} (hlast : lastBody 0x0033 m.extensions = some body) (info : ServerHelloInfo) :
    (body = (if m.isRetry then storeBe16 info.group.code
        else keyShareBody info.group info.keyShare) ∧ (m.isRetry = true → info.keyShare = []) ∧
        info.group.code < 65536 ∧ info.keyShare.length ≤ 65) ↔
      (⟨loadBe16 body 0⟩ : NamedGroup) = info.group ∧
        (if m.isRetry then [] else body.drop 4) = info.keyShare := by
  obtain ⟨e, hmem, htype, rfl⟩ := exists_mem_of_lastBody hlast
  cases hretry : m.isRetry with
  | true =>
    obtain ⟨group, hgroup, hbody⟩ := (hwell e hmem).retryGroup htype hretry
    have hload : loadBe16 e.body 0 = group.code := by
      rw [hbody]
      simpa using loadBe16_storeBe16 group.code hgroup []
    simp only [if_true, forall_const]
    constructor
    · rintro ⟨hsame, hnone, hcode, -⟩
      refine ⟨?_, hnone.symm⟩
      have hcodes : group.code = info.group.code := storeBe16_inj hgroup hcode (hbody ▸ hsame)
      rw [hload, hcodes]
    · rintro ⟨hsame, hnone⟩
      rw [← hsame, ← hnone, hload]
      exact ⟨hbody, rfl, hgroup, Nat.zero_le _⟩
  | false =>
    obtain ⟨group, share, hgroup, hshare, hbody⟩ := (hwell e hmem).keyShare htype hretry
    obtain ⟨hload, -, hdrop, -⟩ := keyShareBody_loads hgroup hshare
    rw [hbody, hload, hdrop]
    simp only [Bool.false_eq_true, if_false, false_implies, true_and]
    constructor
    · rintro ⟨hsame, hcode, hlength⟩
      obtain ⟨hload', -, hdrop', -⟩ := keyShareBody_loads hcode hlength
      rw [hsame, hload'] at hload
      rw [hsame, hdrop'] at hdrop
      exact ⟨by rw [← hload], hdrop.symm⟩
    · rintro ⟨hsame, rfl⟩
      rw [← hsame]
      exact ⟨rfl, hgroup, hshare⟩

/-- **What is accepted and reported**: a message of this shape that says something the client
can go on with, and what it says. -/
theorem parseServerHello_said (m : HelloParts) (info : ServerHelloInfo) :
    parseServerHello m.encode = .ok info ↔ m.Says info := by
  rw [parseServerHello_encode, checkServerHello_iff]
  have hrandom := foldl_fixed m.isRetry m.extensions (startScan m) (fun s => s.out.random)
    (by intro s e; unfold applied; split_ifs <;> rfl)
  have hsession := foldl_fixed m.isRetry m.extensions (startScan m) (fun s => s.out.sessionId)
    (by intro s e; unfold applied; split_ifs <;> rfl)
  have hsuite := foldl_fixed m.isRetry m.extensions (startScan m) (fun s => s.out.cipherSuite)
    (by intro s e; unfold applied; split_ifs <;> rfl)
  have hretry := foldl_fixed m.isRetry m.extensions (startScan m)
    (fun s => s.out.helloRetryRequest) (by intro s e; simp)
  have hversion := foldl_version m.isRetry m.extensions (startScan m)
  have hselected := foldl_selectedVersion m.isRetry m.extensions (startScan m)
  have hkeyshare := foldl_keyshare m.isRetry m.extensions (startScan m)
  have hgroup := foldl_group m.isRetry m.extensions (startScan m)
  have hshare := foldl_share m.isRetry m.extensions (startScan m)
  have hcookie := foldl_cookie m.isRetry m.extensions (startScan m)
  generalize m.extensions.foldl (applied m.isRetry) (startScan m) = st at *
  change st.out.helloRetryRequest = m.isRetry at hretry
  constructor
  · rintro ⟨hwell, hseen, hv, hks, hcs, hr, hs, rfl⟩
    cases hlast : lastBody 0x002b m.extensions with
    | none => simp [hversion, hlast, startScan] at hseen
    | some version =>
      cases hkey : lastBody 0x0033 m.extensions with
      | none => simp [hkeyshare, hkey, startScan] at hks
      | some key =>
        rw [hlast] at hselected
        rw [hkey] at hgroup hshare
        have hload : loadBe16 version 0 = 0x0304 := by
          rw [← hv, hselected]
          rfl
        have hversionBody := version_of_lastBody hwell hlast
        rw [hload] at hversionBody
        obtain ⟨hbody, hnone, -, -⟩ := (shares_iff hwell hkey st.out).mpr
          ⟨hgroup.symm, hshare.symm⟩
        refine ⟨hrandom, hsession, hsuite, hretry, ?_, hwell, ?_, hv, ?_, hcookie⟩
        · rw [← hcs, hsuite]
          rfl
        · rw [hlast, hversionBody]
        · unfold HelloParts.Shares
          rw [hkey, hbody]
          rw [hretry] at hr hs
          cases hflag : m.isRetry with
          | true => exact ⟨rfl, hr hflag, hnone hflag⟩
          | false => exact ⟨rfl, hs hflag⟩
  · intro hsaid
    have hshares := hsaid.share
    unfold HelloParts.Shares at hshares
    rw [hsaid.version] at hversion hselected
    have hload : loadBe16 (storeBe16 0x0304) 0 = 0x0304 := by decide
    have hv : st.out.selectedVersion = 0x0304 := hselected.trans hload
    obtain ⟨key, hkey, hbody, hnone, hsupported⟩ : ∃ key,
        lastBody 0x0033 m.extensions = some key ∧
        key = (if m.isRetry then storeBe16 info.group.code
          else keyShareBody info.group info.keyShare) ∧
        (m.isRetry = true → info.keyShare = []) ∧
        (m.isRetry = true → info.group = .x25519 ∨ info.group = .secp256r1) ∧
        (m.isRetry = false → (info.group = .x25519 ∧ info.keyShare.length = 32) ∨
          (info.group = .secp256r1 ∧ info.keyShare.length = 65 ∧
            byteAt info.keyShare 0 = 0x04)) := by
      cases hflag : m.isRetry with
      | true =>
        rw [if_pos hflag] at hshares
        exact ⟨_, hshares.1, rfl, fun _ => hshares.2.2, fun _ => hshares.2.1, by simp⟩
      | false =>
        rw [if_neg (by simp [hflag])] at hshares
        exact ⟨_, hshares.1, rfl, by simp, by simp, fun _ => hshares.2⟩
    have hcode : info.group.code < 65536 ∧ info.keyShare.length ≤ 65 := by
      cases hflag : m.isRetry with
      | true =>
        rw [hnone hflag]
        rcases hsupported.1 hflag with h | h <;> rw [h] <;> decide
      | false =>
        rcases hsupported.2 hflag with ⟨h, hlength⟩ | ⟨h, hlength, -⟩ <;> rw [h, hlength] <;>
          decide
    obtain ⟨hsameGroup, hsameShare⟩ := (shares_iff hsaid.wellFormed hkey info).mp
      ⟨hbody, hnone, hcode⟩
    rw [hkey] at hkeyshare hgroup hshare
    have hgroup : st.out.group = info.group := hgroup.trans hsameGroup
    have hshare : st.out.keyShare = info.keyShare := hshare.trans hsameShare
    refine ⟨hsaid.wellFormed, hversion, hv, hkeyshare, hsuite.trans hsaid.suite, ?_, ?_, ?_⟩
    · rw [hretry, hgroup]
      exact hsupported.1
    · rw [hretry, hgroup, hshare]
      exact hsupported.2
    · have hcookie : st.out.cookie = info.cookie := hcookie.trans hsaid.cookie.symm
      have hrandom : st.out.random = info.random := hrandom.trans hsaid.random.symm
      have hsession : st.out.sessionId = info.sessionId := hsession.trans hsaid.sessionId.symm
      have hsuite : st.out.cipherSuite = info.cipherSuite := hsuite.trans hsaid.cipherSuite.symm
      have hretry : st.out.helloRetryRequest = info.helloRetryRequest :=
        hretry.trans hsaid.retry.symm
      have hv : st.out.selectedVersion = info.selectedVersion :=
        hv.trans hsaid.selectedVersion.symm
      generalize st.out = out at *
      cases out
      cases info
      simp_all

/-- A ServerHello is read exactly where its bytes say what is read. -/
theorem parseServerHello_iff (h : Bytes) (info : ServerHelloInfo) :
    parseServerHello h = .ok info ↔ ∃ m : HelloParts, h = m.encode ∧ m.Says info := by
  constructor
  · intro hparse
    obtain ⟨m, rfl⟩ := exists_parts hparse
    exact ⟨m, rfl, (parseServerHello_said m info).mp hparse⟩
  · rintro ⟨m, rfl, hsaid⟩
    exact (parseServerHello_said m info).mpr hsaid

/-! ## The supported profile -/

/-- The type and the data of an extension. -/
def pair (e : RawExtension) : ℕ × Bytes := (e.type, e.body)

/-- The last body of a type, found among pairs. -/
theorem lastBody_eq_pairs (t : ℕ) (es : List RawExtension) :
    lastBody t es = (((es.map pair).filter fun x => x.1 = t).getLast?).map Prod.snd := by
  unfold lastBody
  rw [List.filter_map, List.getLast?_map, Option.map_map]
  rfl

/-- An extension that is the only one of its type counts wherever it is. -/
theorem lastBody_of_perm {t : ℕ} {es others : List RawExtension} {own : List (ℕ × Bytes)}
    (hperm : (es.map pair).Perm (own ++ others.map pair)) (hothers : ∀ e ∈ others, e.type ≠ t) :
    (∀ body, (own.filter fun x => x.1 = t) = [(t, body)] → lastBody t es = some body) ∧
      ((own.filter fun x => x.1 = t) = [] → lastBody t es = none) := by
  have hnone : (others.map pair).filter (fun x => x.1 = t) = [] := by
    rw [List.filter_eq_nil_iff]
    intro x hx
    obtain ⟨e, he, rfl⟩ := List.mem_map.mp hx
    simp [pair, hothers e he]
  have hfilter := hperm.filter fun x => x.1 = t
  rw [List.filter_append, hnone, List.append_nil] at hfilter
  rw [lastBody_eq_pairs]
  constructor
  · intro body hown
    rw [hown] at hfilter
    rw [List.perm_singleton.mp hfilter]
    rfl
  · intro hown
    rw [hown] at hfilter
    rw [List.perm_nil.mp hfilter]
    rfl

/-- The extensions of a kind are well formed. -/
theorem ofKind_wellFormed {m : HelloParts} {k : HelloKind} (h : m.OfKind k) :
    ∀ e ∈ m.extensions, e.WellFormed m.isRetry := by
  obtain ⟨others, hothers, hperm⟩ := h.extensions
  intro e he
  have hpair : pair e ∈ k.extensions ++ others.map pair :=
    hperm.mem_iff.mp (List.mem_map_of_mem he)
  have hrandom : m.random.val = k.random.val := by rw [h.random]
  rcases List.mem_append.mp hpair with hown | hother
  · cases k with
    | serverHello random fresh share =>
      have hretry : m.isRetry = false := by
        unfold HelloParts.isRetry
        rw [hrandom]
        exact decide_eq_false fresh
      have hbound : share.group.code < 65536 ∧ share.share.length ≤ 65 := by
        rcases share.supported with ⟨hg, hl⟩ | ⟨hg, hl, -⟩ <;> rw [hg, hl] <;> decide
      rw [hretry]
      rcases List.mem_cons.mp hown with hversion | hkey
      · obtain ⟨htype, hbody⟩ := Prod.mk.inj hversion
        refine ⟨fun _ => ⟨0x0304, by decide, hbody⟩, fun ht => ?_, fun ht => ?_, fun ht => ?_⟩
        all_goals rw [htype] at ht; cases ht
      · obtain ⟨htype, hbody⟩ := Prod.mk.inj (List.mem_singleton.mp hkey)
        refine ⟨fun ht => ?_, fun _ _ => ⟨_, _, hbound.1, hbound.2, hbody⟩, fun _ hr => ?_,
          fun ht => ?_⟩
        · rw [htype] at ht
          cases ht
        · cases hr
        · rw [htype] at ht
          cases ht
    | retry group supported cookie cookieBound =>
      have hretry : m.isRetry = true := by
        unfold HelloParts.isRetry
        rw [hrandom]
        exact decide_eq_true rfl
      have hgroup : group.code < 65536 := by
        rcases supported with rfl | rfl <;> decide
      rw [hretry]
      rcases List.mem_append.mp hown with hfront | hcookie
      · rcases List.mem_cons.mp hfront with hversion | hkey
        · obtain ⟨htype, hbody⟩ := Prod.mk.inj hversion
          refine ⟨fun _ => ⟨0x0304, by decide, hbody⟩, fun ht => ?_, fun ht => ?_,
            fun ht => ?_⟩
          all_goals rw [htype] at ht; cases ht
        · obtain ⟨htype, hbody⟩ := Prod.mk.inj (List.mem_singleton.mp hkey)
          refine ⟨fun ht => ?_, fun _ hr => ?_, fun _ _ => ⟨group, hgroup, hbody⟩,
            fun ht => ?_⟩
          · rw [htype] at ht
            cases ht
          · cases hr
          · rw [htype] at ht
            cases ht
      · cases cookie with
        | none => cases hcookie
        | some cookie =>
          obtain ⟨htype, hbody⟩ := Prod.mk.inj (List.mem_singleton.mp hcookie)
          refine ⟨fun ht => ?_, fun ht => ?_, fun ht => ?_,
            fun _ => ⟨rfl, cookie, cookieBound cookie rfl, hbody⟩⟩
          all_goals rw [htype] at ht; cases ht
  · obtain ⟨e', he', hsame⟩ := List.mem_map.mp hother
    have htype : e.type ∉ knownTypes := by
      rw [← (Prod.mk.inj hsame).1]
      exact hothers e' he'
    refine ⟨fun ht => ?_, fun ht => ?_, fun ht => ?_, fun ht => ?_⟩
    all_goals exact absurd (by rw [ht]; decide) htype

/-- A message of the profile says what its kind says, in whatever order. -/
theorem says_of_kind {m : HelloParts} {k : HelloKind} (h : m.OfKind k) :
    m.Says (k.info m.sessionId) := by
  obtain ⟨others, hothers, hperm⟩ := h.extensions
  have hlast := fun t (ht : t ∈ knownTypes) => lastBody_of_perm (t := t) hperm
    fun e he hsame => hothers e he (hsame ▸ ht)
  have hrandom : m.random.val = k.random.val := by rw [h.random]
  cases k with
  | serverHello random fresh share =>
    have hretry : m.isRetry = false := by
      unfold HelloParts.isRetry
      rw [hrandom]
      exact decide_eq_false fresh
    refine ⟨hrandom.symm, rfl, h.suite.symm, hretry.symm, h.suite, ofKind_wellFormed h,
      (hlast 0x002b (by decide)).1 _ rfl, rfl, ?_, ?_⟩
    · unfold HelloParts.Shares
      rw [if_neg (by simp [hretry])]
      exact ⟨(hlast 0x0033 (by decide)).1 _ rfl, share.supported⟩
    · rw [(hlast 0x002c (by decide)).2 rfl]
      rfl
  | retry group supported cookie cookieBound =>
    have hretry : m.isRetry = true := by
      unfold HelloParts.isRetry
      rw [hrandom]
      exact decide_eq_true rfl
    refine ⟨hrandom.symm, rfl, h.suite.symm, hretry.symm, h.suite, ofKind_wellFormed h, ?_, rfl,
      ?_, ?_⟩
    · cases cookie <;> exact (hlast 0x002b (by decide)).1 _ rfl
    · unfold HelloParts.Shares
      rw [if_pos hretry]
      refine ⟨?_, supported, rfl⟩
      cases cookie <;> exact (hlast 0x0033 (by decide)).1 _ rfl
    · cases cookie with
      | none =>
        rw [(hlast 0x002c (by decide)).2 rfl]
        rfl
      | some cookie =>
        rw [(hlast 0x002c (by decide)).1 (cookieBody cookie) rfl]
        exact (@List.drop_left _ (storeBe16 cookie.length) _).symm

/-- **Every message of the profile is read as it was written**, whatever the order of its
extensions and whatever is between them; and every input that is accepted is a message whose
lengths cover it exactly, with the version, the suite and a share of the profile. -/
theorem parseServerHello_profile :
    (∀ (k : HelloKind) (m : HelloParts), m.OfKind k →
      parseServerHello m.encode = .ok (k.info m.sessionId)) ∧
    ∀ (h : Bytes) (info : ServerHelloInfo), parseServerHello h = .ok info →
      ∃ m : HelloParts, h = m.encode ∧
        (∀ e ∈ m.extensions, e.WellFormed info.helloRetryRequest) ∧
        info.selectedVersion = 0x0304 ∧ info.cipherSuite = tlsAes128GcmSha256 ∧
        (info.helloRetryRequest = false → (info.group = .x25519 ∧ info.keyShare.length = 32) ∨
          (info.group = .secp256r1 ∧ info.keyShare.length = 65 ∧
            byteAt info.keyShare 0 = 0x04)) := by
  constructor
  · intro k m h
    exact (parseServerHello_said m _).mpr (says_of_kind h)
  · intro h info hparse
    obtain ⟨m, hencode, hsaid⟩ := (parseServerHello_iff h info).mp hparse
    refine ⟨m, hencode, ?_, hsaid.selectedVersion, hsaid.cipherSuite.trans hsaid.suite, ?_⟩
    · rw [hsaid.retry]
      exact hsaid.wellFormed
    · intro hfresh
      have hshares := hsaid.share
      unfold HelloParts.Shares at hshares
      rw [if_neg (by rw [← hsaid.retry, hfresh]; simp)] at hshares
      exact hshares.2

/-- A HelloRetryRequest for P-256 with its cookie first and another extension in the middle. -/
def mixedRetry : HelloParts where
  random := HelloKind.retryRandom
  sessionId := [7, 7]
  cipherSuite := tlsAes128GcmSha256
  extensions := [⟨0x002c, [0, 3, 1, 2, 3], by decide, by decide⟩,
    .keyShare [0, 0x17] (by decide), ⟨0x0005, [9], by decide, by decide⟩, .supportedVersion]
  sessionBound := by decide
  suiteBound := tlsAes128GcmSha256_lt
  extensionsBound := by decide

/-- A retry with a foreign extension is read. -/
theorem parseServerHello_mixedRetry : parseServerHello mixedRetry.encode = .ok
    (HelloKind.info (.retry .secp256r1 (.inr rfl) (some [1, 2, 3]) (by simp)) [7, 7]) :=
  parseServerHello_profile.1 (.retry .secp256r1 (.inr rfl) (some [1, 2, 3]) (by simp)) mixedRetry
    ⟨rfl, rfl, [⟨0x0005, [9], by decide, by decide⟩], by decide, by decide⟩

end XboxTls.Analysis
