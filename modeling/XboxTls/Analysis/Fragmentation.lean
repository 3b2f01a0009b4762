import XboxTls.Analysis.Connected
import XboxTls.Analysis.FlightMessages
import XboxTls.Analysis.HandshakeRun
import XboxTls.Interface.BlankServer

/-!
# The way of cutting does not matter

Two runs of `connect` over streams that differ in how the encrypted flight is cut into records
do the same up to the flight, and from there on both do what the messages of the flight make
them do.  So they end with the same result and with the same secrets.
-/

set_option autoImplicit false

namespace XboxTls.Analysis

open Programs Programs.Prog XboxTls.Model XboxTls.Interface

variable {P : Crypto} {W : Type} {S₁ S₂ : Segmentation} {ended : Option Error} {E : Env W}
  {α : Type}

/-! ## More fuel -/

/-- More fuel changes no outcome of the hello loop. -/
theorem extends_helloLoop {n m : ℕ} (hle : n ≤ m) (h : HelloLocals) :
    Extends (helloLoop E n h : ClientM P W (ServerHelloInfo × HelloLocals))
      (helloLoop E m h) := by
  induction n generalizing m h with
  | zero => exact extends_diverge _
  | succ n ih =>
    obtain ⟨m, rfl⟩ : ∃ k, m = k + 1 := ⟨m - 1, by omega⟩
    have hle : n ≤ m := Nat.le_of_succ_le_succ hle
    unfold helloLoop
    apply extends_bind (extends_refl _)
    intro c
    cases c.deframer.peek with
    | error e =>
      by_cases he : e = .bufferTooSmall
      · subst he
        exact extends_bind (extends_refl _) fun _ => ih hle h
      · cases e with
        | bufferTooSmall => exact absurd rfl he
        | _ => exact extends_refl _
    | ok hm =>
      apply extends_ite (extends_refl _)
      apply extends_bind (extends_refl _)
      intro sh
      apply extends_ite (extends_refl _)
      apply extends_ite
      · exact extends_bind (extends_refl _) fun h' => ih hle h'
      · exact extends_refl _

/-- More fuel changes no outcome of the flight loop. -/
theorem extends_flightLoop {n m : ℕ} (hle : n ≤ m) (l : FlightLocals) :
    Extends (flightLoop E n l : ClientM P W Unit) (flightLoop E m l) := by
  induction n generalizing m l with
  | zero => exact extends_diverge _
  | succ n ih =>
    obtain ⟨m, rfl⟩ : ∃ k, m = k + 1 := ⟨m - 1, by omega⟩
    unfold flightLoop
    apply extends_ite (extends_refl _)
    exact extends_bind (extends_refl _) fun l' => ih (Nat.le_of_succ_le_succ hle) l'

/-- `connect` as its two phases. -/
theorem connect_eq (E : Env W) (fuel : ℕ) (config : ClientConfig) (s : System P W) :
    connect E fuel config s = (helloPhase E fuel config >>= fun _ => do
      orFail E (processServerHandshake E fuel)
      modifyClient fun c => { c with state := .connected }) s := by
  unfold connect helloPhase connectHandshake
  rw [bind_assoc_apply, bind_of_ok rfl, bind_of_ok rfl]
  by_cases hguard : s.client.state ≠ .idle ∨ config.usable = false
  · rw [if_pos hguard, if_pos hguard]
    rfl
  rw [if_neg hguard, if_neg hguard]
  simp only [bind_apply, modifyClient, emit]
  generalize startHello E config _ = started
  cases started with
  | none => rfl
  | some out =>
    obtain ⟨r, s₁⟩ := out
    cases r with
    | error e => rfl
    | ok h =>
      dsimp only
      cases helloLoop E fuel h s₁ with
      | none => rfl
      | some out =>
        obtain ⟨r, s₂⟩ := out
        cases r with
        | error e => rfl
        | ok hello =>
          dsimp only
          cases deriveHandshakeKeys E hello.1 hello.2.activeGroup s₂ with
          | none => rfl
          | some out =>
            obtain ⟨r, s₃⟩ := out
            cases r with
            | error e => rfl
            | ok u => rfl

/-- More fuel changes no outcome of the hellos. -/
theorem extends_helloPhase {n m : ℕ} (hle : n ≤ m) (config : ClientConfig) :
    Extends (helloPhase E n config : ClientM P W Unit) (helloPhase E m config) := by
  unfold helloPhase
  apply extends_bind (extends_refl _)
  intro c
  apply extends_ite (extends_refl _)
  apply extends_bind (extends_refl _)
  intro _
  apply extends_bind (extends_refl _)
  intro _
  apply extends_bind (extends_refl _)
  intro h
  exact extends_bind (extends_helloLoop hle h) fun _ => extends_refl _

/-- More fuel changes no outcome of `connect`. -/
theorem extends_connect {n m : ℕ} (hle : n ≤ m) (config : ClientConfig) :
    Extends (connect E n config : ClientM P W Unit) (connect E m config) := by
  unfold connect connectHandshake processServerHandshake
  apply extends_bind (extends_refl _)
  intro c
  apply extends_ite (extends_refl _)
  apply extends_bind (extends_refl _)
  intro _
  apply extends_bind (extends_refl _)
  intro _
  apply extends_bind
  · apply extends_bind (extends_refl _)
    intro h
    apply extends_bind (extends_helloLoop hle h)
    rintro ⟨sh, h'⟩
    apply extends_bind (extends_refl _)
    intro _
    apply extends_onError
    exact extends_bind (extends_flightLoop hle _) fun _ => extends_refl _
  · intro _
    exact extends_refl _

/-! ## The client when it has the handshake keys -/

/-- What `connect` starts its hello from. -/
def startOf (config : ClientConfig) (s : System P W) : System P W :=
  ⟨beginConnect config s.client, s.world, s.trace ++ [.connect config]⟩

/-- What holds of a client with handshake keys. -/
theorem wpOk_helloPhase (E : Env W) (fuel : ℕ) (config : ClientConfig) (s : System P W) :
    wpOk (helloPhase E fuel config)
      (fun _ s' => config.usable = true ∧ ∃ h, KeysDone (startOf config s) config h s') s := by
  unfold helloPhase
  rw [wpOk_bind, wpOk_getClient]
  split
  · exact wpOk_throw _ _ _
  · next hguard =>
    have husable : config.usable = true := by
      by_contra h
      exact hguard (Or.inr (by simpa using h))
    rw [wpOk_bind, wpOk_modifyClient, wpOk_bind, wpOk_emit]
    have hpristine : Pristine (startOf config s) := ⟨rfl, rfl⟩
    refine wpOk_bind_of_spec (wpOk_startHello E config hpristine) ?_
    intro l s₁ hs₁
    refine wpOk_bind_of_spec (wpOk_helloLoop E fuel hs₁) ?_
    rintro ⟨sh, l'⟩ s₂ hs₂
    exact wpOk_mono (wpOk_deriveHandshakeKeys E hs₂) fun _ _ h => ⟨husable, h⟩

/-- The hellos keep the lengths of what is stored. -/
theorem keeps_stored_helloPhase (E : Env W) (fuel : ℕ) (config : ClientConfig) :
    Keeps (fun s => Stored s.client) (helloPhase E fuel config : ClientM P W Unit) := by
  have hW : ∀ s s' : System P W, Wiped s s' → Stored s.client → Stored s'.client :=
    fun _ _ => stored_wiped
  have hread : Keeps (fun s => Stored s.client) (readHelloRecord E : ClientM P W Unit) :=
    maintains_readHelloRecord E (Firm.still_closed stored_between.firm) hW (fun _ _ hs => hs)
      fun content => between_appendFragment stored_between (fun _ h => h) _ content
  unfold helloPhase
  apply maintains_bind maintains_getClient
  intro c
  split
  · exact maintains_throw (fun _ h => h) _
  · intro s hs
    rw [wp_bind, wp_modifyClient, thenWp_ok, wp_bind, wp_emit, thenWp_ok]
    have hbody := maintains_bind (maintains_startHello E hW stored_hello config) fun h =>
      maintains_bind (maintains_helloLoop E hW stored_hello hread fuel h) fun out =>
        between_deriveHandshakeKeys E stored_between hW out.1 out.2.activeGroup
    exact hbody _ ⟨hs.capacity, Or.inl rfl⟩

/-! ## Two streams with the same beginning -/

/-- The streams are at related places, and what is beside them is the same. -/
def Streams (T : S₁.State → S₂.State → Prop) (w₁ : S₁.State × W) (w₂ : S₂.State × W) : Prop :=
  T w₁.1 w₂.1 ∧ w₁.2 = w₂.2

/-- A call beside the streams does the same on both. -/
theorem related_streams (T : S₁.State → S₂.State → Prop) (x : Prog W Error α) :
    Related (Streams T) (beside x) (beside x) := by
  rintro ⟨t₁, w⟩ ⟨t₂, _⟩ ⟨hT, rfl⟩
  unfold beside
  dsimp only
  cases x w with
  | none => exact .diverge
  | some out => exact .stop _ ⟨hT, rfl⟩

/-- The two streams belong to one environment. -/
theorem joined_segmented (T : S₁.State → S₂.State → Prop) :
    Joined (Streams T) (segmented S₁ ended E) (segmented S₂ ended E) where
  randomBytes platform n := related_streams T (E.randomBytes platform n)
  sendAll stream bytes := related_streams T (E.sendAll stream bytes)
  close stream w₁ w₂ h := ⟨h.1, congrArg (E.close stream) h.2⟩
  verifyChain verifier chain hostname := related_streams T (E.verifyChain verifier chain hostname)
  verifySignature verifier scheme leaf message signature :=
    related_streams T (E.verifySignature verifier scheme leaf message signature)
  malloc n w₁ w₂ h := by
    have hw : E.malloc n w₁.2 = E.malloc n w₂.2 := congrArg (E.malloc n) h.2
    exact ⟨congrArg Prod.fst hw, h.1, congrArg Prod.snd hw⟩
  sizeOfSize := rfl
  writeBehind bytes w₁ w₂ h := ⟨h.1, congrArg (E.writeBehind bytes) h.2⟩
  readBehind first n w₁ w₂ h := congrArg (E.readBehind first n) h.2

/-- The same records are left, with `f₁` behind them on the one stream and `f₂` on the other. -/
def Before (plain : List Bytes) (f₁ f₂ : Bytes) (a : S₁.State) (b : S₂.State) : Prop :=
  S₁.left a = plain.flatten ++ f₁ ∧ S₂.left b = plain.flatten ++ f₂

/-- The clients have done the same so far, wherever the streams are. -/
def SoFar (s : System P (S₁.State × W)) (t : System P (S₂.State × W)) : Prop :=
  Alike (Streams fun _ _ => True) s t

/-- Runs that are alike have come equally far. -/
theorem Alike.soFar {T : S₁.State → S₂.State → Prop} {s : System P (S₁.State × W)}
    {t : System P (S₂.State × W)} (h : Alike (Streams T) s t) : SoFar s t :=
  ⟨h.client, h.trace, trivial, h.world.2⟩

/-- The bytes begin with a protected record. -/
def Protected (f : Bytes) : Prop :=
  ∃ record rest rh, f = record ++ rest ∧ IsRecord record ∧ parseRecordHeader record = .ok rh ∧
    rh.type = contentApplicationData

/-- A flight has at least one record. -/
theorem Protected.ne_nil {f : Bytes} (h : Protected f) : f ≠ [] := by
  obtain ⟨record, rest, rh, rfl, hrecord, -, -⟩ := h
  intro hnil
  unfold IsRecord at hrecord
  rw [(List.append_eq_nil_iff.mp hnil).1, List.length_nil] at hrecord
  omega

/-- What the hello loop reports when it finds no more records for it. -/
def stopCode (ended : Option Error) (stream : Option ℕ) (f : Bytes) : Error :=
  if stream = none then .invalidArgument else if f = [] then ended.getD .closed else .badHandshake

/-- Behind the last byte a read fails. -/
theorem recordOf_nil (ended : Option Error) (stream : ℕ) :
    recordOf ended (some stream) 16645 [] = (.error (ended.getD .closed), []) := by
  unfold recordOf
  rw [if_neg (by simp)]
  rfl

/-- Nothing comes after a failure. -/
theorem failWith_bind {β : Type} (E : Env W) (e : Error) (f : α → ClientM P W β)
    (s : System P W) : (failWith E e >>= f) s = (failWith E e : ClientM P W β) s := by
  rw [bind_of_error (failWith_apply E e s), failWith_apply]

variable (ended E) in
/-- A record of the flight is no record of the hello loop. -/
theorem readHelloRecord_stops {S : Segmentation} {c : TlsClient P} {trace : List Event} {w : W}
    {f : Bytes} {s : System P (S.State × W)} (hs : Over c trace w f s)
    (hf : c.config.stream = none ∨ f = [] ∨ Protected f) :
    ∃ s' rest, (readHelloRecord (segmented S ended E) s : Option (Except Error Unit × _)) =
      failWith (segmented S ended E) (stopCode ended c.config.stream f) s' ∧
      Over c trace w rest s' := by
  obtain ⟨s', hread, hs'⟩ := hs.readRecord ended E
  have hfails : ∀ e, readRecord (segmented S ended E) 16645 s = some (.error e, s') →
      (readHelloRecord (segmented S ended E) s : Option (Except Error Unit × _)) =
        failWith (segmented S ended E) e s' := by
    intro e hread
    unfold readHelloRecord orFail
    rw [bind_apply, onError_of_error hread, ← bind_apply, failWith_bind]
  unfold stopCode
  cases hstream : c.config.stream with
  | none =>
    rw [hstream] at hread hs'
    rw [if_pos rfl]
    exact ⟨s', _, hfails _ hread, hs'⟩
  | some stream =>
    rw [hstream] at hread hs'
    rw [if_neg (by simp)]
    obtain hnone | rfl | hprotected := hf
    · rw [hstream] at hnone
      cases hnone
    · rw [recordOf_nil] at hread hs'
      rw [if_pos rfl]
      exact ⟨s', _, hfails _ hread, hs'⟩
    · rw [if_neg hprotected.ne_nil]
      obtain ⟨record, rest, rh, rfl, hrecord, hparse, htype⟩ := hprotected
      rw [recordOf_record hrecord, hparse] at hread hs'
      refine ⟨s', _, ?_, hs'⟩
      unfold readHelloRecord orFail
      rw [bind_of_ok (onError_of_ok hread), bind_of_ok (onError_of_ok (lift_of_ok hparse s')),
        if_neg (by rw [htype]; decide), if_neg (by rw [htype]; decide),
        if_pos (by rw [htype]; decide)]

/-! ## The hello on two streams -/

/-- The flights on the two streams: none, or a protected record on each. -/
def Flights (f₁ f₂ : Bytes) : Prop := (f₁ = [] ∧ f₂ = []) ∨ (Protected f₁ ∧ Protected f₂)

/-- How a part of the hello ends: with a value, at most `n` records are left in front of the
flights. -/
def HelloEnds (f₁ f₂ : Bytes) (n : ℕ) (r : Except Error α) (s : System P (S₁.State × W))
    (t : System P (S₂.State × W)) : Prop :=
  SoFar s t ∧ ∀ a, r = .ok a → ∃ plain : List Bytes, (∀ record ∈ plain, IsPlain record) ∧
    plain.length ≤ n ∧ Alike (Streams (Before plain f₁ f₂)) s t

variable {f₁ f₂ : Bytes} {s : System P (S₁.State × W)} {t : System P (S₂.State × W)}

/-- Both runs take the failing exit. -/
theorem coupled_failWith (n : ℕ) (e : Error) (h : SoFar s t) :
    Coupled (HelloEnds f₁ f₂ n) ((failWith (segmented S₁ ended E) e : ClientM P _ α) s)
      ((failWith (segmented S₂ ended E) e : ClientM P _ α) t) := by
  have hrelated : Related SoFar (failWith (segmented S₁ ended E) e : ClientM P _ α)
      (failWith (segmented S₂ ended E) e) :=
    related_failWith (joined_segmented fun _ _ => True) e
  have hend := hrelated s t h
  rw [failWith_apply, failWith_apply] at hend ⊢
  cases hend with
  | stop r h => exact .stop _ ⟨h, fun a ha => by cases ha⟩

/-- A part of the hello that reads nothing. -/
theorem coupled_related {plain : List Bytes} (hplain : ∀ record ∈ plain, IsPlain record)
    {n : ℕ} (hn : plain.length ≤ n) {x : ClientM P (S₁.State × W) α}
    {y : ClientM P (S₂.State × W) α}
    (hxy : Related (Alike (Streams (Before plain f₁ f₂))) x y)
    (h : Alike (Streams (Before plain f₁ f₂)) s t) : Coupled (HelloEnds f₁ f₂ n) (x s) (y t) :=
  (hxy.coupled h).mono fun _ _ _ hend => ⟨hend.soFar, fun _ _ => ⟨plain, hplain, hn, hend⟩⟩

/-- Both runs read the same plain record, or both come to the flight. -/
theorem coupled_readHelloRecord (hf : Flights f₁ f₂) {plain : List Bytes}
    (hplain : ∀ record ∈ plain, IsPlain record)
    (h : Alike (Streams (Before plain f₁ f₂)) s t) :
    Coupled (HelloEnds f₁ f₂ plain.length)
      (readHelloRecord (segmented S₁ ended E) s : Option (Except Error Unit × _))
      (readHelloRecord (segmented S₂ ended E) t) := by
  have hs : Over s.client s.trace s.world.2 (plain.flatten ++ f₁) s := ⟨rfl, rfl, rfl, h.world.1.1⟩
  have ht : Over s.client s.trace s.world.2 (plain.flatten ++ f₂) t :=
    ⟨h.client.symm, h.trace.symm, h.world.2.symm, h.world.1.2⟩
  have hsoFar : ∀ {l₁ l₂ : Bytes} {s' : System P (S₁.State × W)} {t' : System P (S₂.State × W)},
      Over s.client s.trace s.world.2 l₁ s' → Over s.client s.trace s.world.2 l₂ t' →
      SoFar s' t' :=
    fun hs' ht' => ⟨hs'.client.trans ht'.client.symm, hs'.trace.trans ht'.trace.symm, trivial,
      hs'.beside.trans ht'.beside.symm⟩
  by_cases hnone : s.client.config.stream = none
  · obtain ⟨s', _, hrun, hs'⟩ := readHelloRecord_stops ended E hs (.inl hnone)
    obtain ⟨t', _, hrun', ht'⟩ := readHelloRecord_stops ended E ht (.inl hnone)
    rw [hrun, hrun', hnone]
    exact coupled_failWith _ _ (hsoFar hs' ht')
  obtain ⟨stream, hstream⟩ := Option.ne_none_iff_exists'.mp hnone
  cases plain with
  | nil =>
    rw [List.flatten_nil, List.nil_append] at hs ht
    have hcode : stopCode ended s.client.config.stream f₁ =
        stopCode ended s.client.config.stream f₂ := by
      obtain ⟨rfl, rfl⟩ | ⟨h₁, h₂⟩ := hf
      · rfl
      · unfold stopCode
        rw [if_neg h₁.ne_nil, if_neg h₂.ne_nil]
    obtain ⟨s', _, hrun, hs'⟩ := readHelloRecord_stops ended E hs
      (.inr (hf.imp And.left And.left))
    obtain ⟨t', _, hrun', ht'⟩ := readHelloRecord_stops ended E ht
      (.inr (hf.imp And.right And.right))
    rw [hrun, hrun', hcode]
    exact coupled_failWith _ _ (hsoFar hs' ht')
  | cons record plain =>
    obtain ⟨hrecord, -⟩ := hplain record List.mem_cons_self
    obtain ⟨s', hread, hs'⟩ := hs.readRecord ended E
    obtain ⟨t', hread', ht'⟩ := ht.readRecord ended E
    rw [hstream, List.flatten_cons, List.append_assoc, recordOf_record hrecord] at hread hs'
    rw [hstream, List.flatten_cons, List.append_assoc, recordOf_record hrecord] at hread' ht'
    unfold readHelloRecord
    cases hparse : parseRecordHeader record with
    | error e =>
      rw [hparse] at hread hread' hs' ht'
      unfold orFail
      rw [bind_apply, onError_of_error hread, ← bind_apply, failWith_bind, bind_apply,
        onError_of_error hread', ← bind_apply, failWith_bind]
      exact coupled_failWith _ _ (hsoFar hs' ht')
    | ok rh =>
      rw [hparse] at hread hread' hs' ht'
      unfold orFail
      rw [bind_of_ok (onError_of_ok hread), bind_of_ok (onError_of_ok hread')]
      refine coupled_related (fun r hr => hplain r (List.mem_cons_of_mem _ hr))
        (Nat.le_succ _) (related_takeHelloRecord (joined_segmented _) record) ?_
      exact ⟨hs'.client.trans ht'.client.symm, hs'.trace.trans ht'.trace.symm,
        ⟨hs'.left, ht'.left⟩, hs'.beside.trans ht'.beside.symm⟩

/-- Both runs of the hello loop end alike. -/
theorem coupled_helloLoop (hf : Flights f₁ f₂) (fuel : ℕ) (h : HelloLocals) {plain : List Bytes}
    (hplain : ∀ record ∈ plain, IsPlain record)
    (halike : Alike (Streams (Before plain f₁ f₂)) s t) :
    Coupled (HelloEnds f₁ f₂ plain.length)
      (helloLoop (segmented S₁ ended E) fuel h s :
        Option (Except Error (ServerHelloInfo × HelloLocals) × _))
      (helloLoop (segmented S₂ ended E) fuel h t) := by
  induction fuel generalizing h plain s t with
  | zero => exact .diverge
  | succ fuel ih =>
    have hjoined : Joined (Streams (Before plain f₁ f₂)) (segmented S₁ ended E)
      (segmented S₂ ended E) := joined_segmented _
    have herr : ∀ {β : Type} (e : Error) (s' : System P (S₁.State × W))
        (t' : System P (S₂.State × W)), Alike (Streams (Before plain f₁ f₂)) s' t' →
        HelloEnds f₁ f₂ plain.length (.error e : Except Error β) s' t' :=
      fun e _ _ h => ⟨h.soFar, fun a ha => by cases ha⟩
    unfold helloLoop
    rw [bind_of_ok rfl, bind_of_ok rfl, ← halike.client]
    cases s.client.deframer.peek with
    | error e =>
      by_cases he : e = .bufferTooSmall
      · subst he
        refine coupled_bind (coupled_readHelloRecord hf hplain halike) ?_
          fun e s' t' hend => ⟨hend.1, fun a ha => by cases ha⟩
        intro _ s' t' hend
        obtain ⟨plain', hplain', hle, halike'⟩ := hend.2 () rfl
        refine (ih h hplain' halike').mono fun r s'' t'' hend' => ⟨hend'.1, fun a ha => ?_⟩
        obtain ⟨plain'', hplain'', hle', halike''⟩ := hend'.2 a ha
        exact ⟨plain'', hplain'', hle'.trans hle, halike''⟩
      · cases e with
        | bufferTooSmall => exact absurd rfl he
        | _ => exact coupled_failWith _ _ halike.soFar
    | ok hm =>
      dsimp only
      by_cases htype : hm.type ≠ hsServerHello
      · rw [if_pos htype, if_pos htype]
        exact coupled_failWith _ _ halike.soFar
      rw [if_neg htype, if_neg htype]
      refine (related_orFail hjoined (related_lift _)).coupled_bind halike ?_ herr
      intro sh s' t' halike'
      by_cases hsid : sh.sessionId ≠ h.sid.val
      · rw [if_pos hsid, if_pos hsid]
        exact coupled_failWith _ _ halike'.soFar
      rw [if_neg hsid, if_neg hsid]
      by_cases hretry : sh.helloRetryRequest = true
      · rw [if_pos hretry, if_pos hretry]
        refine (related_retryHello hjoined h hm sh).coupled_bind halike' ?_ herr
        intro h' s'' t'' halike''
        exact ih h' hplain halike''
      · rw [if_neg hretry, if_neg hretry]
        refine coupled_related hplain le_rfl ?_ halike'
        apply related_bind (related_hashMessage _)
        intro _
        apply related_bind (related_consumeHello hjoined)
        intro _
        exact related_bind (related_emit _) fun _ => related_pure _

/-- Both runs end the hellos alike. -/
theorem coupled_helloPhase (hf : Flights f₁ f₂) (fuel : ℕ) (config : ClientConfig)
    {plain : List Bytes} (hplain : ∀ record ∈ plain, IsPlain record)
    (halike : Alike (Streams (Before plain f₁ f₂)) s t) :
    Coupled (HelloEnds f₁ f₂ plain.length)
      (helloPhase (segmented S₁ ended E) fuel config s : Option (Except Error Unit × _))
      (helloPhase (segmented S₂ ended E) fuel config t) := by
  have hjoined : ∀ plain, Joined (Streams (Before plain f₁ f₂)) (segmented S₁ ended E)
      (segmented S₂ ended E) := fun _ => joined_segmented _
  have herr : ∀ {β : Type} (e : Error) (s' : System P (S₁.State × W))
      (t' : System P (S₂.State × W)), Alike (Streams (Before plain f₁ f₂)) s' t' →
      HelloEnds f₁ f₂ plain.length (.error e : Except Error β) s' t' :=
    fun e _ _ h => ⟨h.soFar, fun a ha => by cases ha⟩
  unfold helloPhase
  rw [bind_of_ok rfl, bind_of_ok rfl, ← halike.client]
  by_cases hguard : s.client.state ≠ .idle ∨ config.usable = false
  · rw [if_pos hguard, if_pos hguard]
    exact coupled_related hplain le_rfl (related_throw _) halike
  rw [if_neg hguard, if_neg hguard]
  refine (related_modifyClient _).coupled_bind halike ?_ herr
  intro _ s₁ t₁ h₁
  refine (related_emit _).coupled_bind h₁ ?_ herr
  intro _ s₂ t₂ h₂
  refine (related_startHello (hjoined plain) config).coupled_bind h₂ ?_ herr
  intro h s₃ t₃ h₃
  refine coupled_bind (coupled_helloLoop hf fuel h hplain h₃) ?_
    fun e s' t' hend => ⟨hend.1, fun a ha => by cases ha⟩
  rintro ⟨sh, h'⟩ s₄ t₄ hend
  obtain ⟨plain', hplain', hle, h₄⟩ := hend.2 _ rfl
  exact coupled_related hplain' hle (related_deriveHandshakeKeys (hjoined plain') sh _) h₄

/-! ## Both flights -/

/-- The clients differ in what the way of cutting leaves in them only. -/
def SameUncut (s : System P (S₁.State × W)) (t : System P (S₂.State × W)) : Prop :=
  uncut s.client = uncut t.client ∧ s.world.2 = t.world.2

/-- Runs that have come equally far differ in nothing but the cuts. -/
theorem SoFar.sameUncut (h : SoFar s t) : SameUncut s t :=
  ⟨congrArg uncut h.client, h.world.2⟩

/-- Flights that were taken alike differ in nothing but the cuts. -/
theorem FlightTaken.sameUncut {keys : TrafficKeys} {rest rest' : Bytes} {r : Except Error Unit}
    {u : System P W} (hs : FlightTaken keys False rest r s u)
    (ht : FlightTaken keys False rest' r t u) : SameUncut s t := by
  obtain ⟨D, k, left, hcapacity, hkey, hiv, hs, -⟩ := hs
  obtain ⟨D', k', left', hcapacity', hkey', hiv', ht, -⟩ := ht
  have hreset : ∀ d : HandshakeDeframer, d.capacity = 32768 → d.reset = .empty 32768 := by
    rintro ⟨capacity, buffer, bound⟩ rfl
    rfl
  have hview : ∀ (d : HandshakeDeframer) (k : TrafficKeys), d.capacity = 32768 →
      k.key = keys.key → k.iv = keys.iv →
      uncut { u.client with deframer := d, serverHsKeys := k } = { u.client with
        deframer := .empty 32768
        serverHsKeys := ⟨keys.key, keys.iv, 0⟩ } := by
    intro d k hd hk hi
    unfold uncut
    dsimp only
    rw [hreset d hd, hk, hi]
  refine ⟨?_, hs.world.trans ht.world.symm⟩
  rw [hs.client, ht.client, hview D k hcapacity hkey hiv, hview D' k' hcapacity' hkey' hiv']

/-- Failed runs differ in nothing but the cuts. -/
theorem SameUncut.failed (h : SameUncut s t) :
    SameUncut (afterEnd (segmented S₁ ended E) .failed s)
      (afterEnd (segmented S₂ ended E) .failed t) := by
  have hview : (uncut s.client).config = (uncut t.client).config := congrArg TlsClient.config h.1
  have hconfig : s.client.config = t.client.config := hview
  refine ⟨?_, ?_⟩
  · have hwiped : ∀ c : TlsClient P, uncut { c.wipeSecrets with state := .failed } =
        { (uncut c).wipeSecrets with state := .failed } := fun _ => rfl
    show uncut { s.client.wipeSecrets with state := .failed } =
      uncut { t.client.wipeSecrets with state := .failed }
    rw [hwiped, hwiped, h.1]
  · unfold afterEnd closedWorld
    dsimp only
    rw [hconfig]
    cases t.client.config.stream with
    | none => exact h.2
    | some stream => exact congrArg (E.close stream) h.2

/-- Two cuts of the same messages are flights. -/
theorem flights_of_cuts {keys : TrafficKeys} {messages : List OutgoingMessage}
    {cut₁ cut₂ : List FlightRecord} (h₁ : Cuts messages cut₁) (h₂ : Cuts messages cut₂) :
    Flights (sealFlight P keys cut₁) (sealFlight P keys cut₂) := by
  have hnil : ∀ {cut cut' : List FlightRecord}, Cuts messages cut → Cuts messages cut' →
      cut = [] → cut' = [] := by
    rintro _ cut' hcut hcut' rfl
    have hempty : contents cut' = [] := hcut'.contents.trans hcut.contents.symm
    cases cut' with
    | nil => rfl
    | cons r cut' =>
      have hr := (hcut'.size r List.mem_cons_self).1
      rw [(List.append_eq_nil_iff.mp hempty).1] at hr
      exact absurd hr (by decide)
  have hprotected : ∀ {cut : List FlightRecord}, Cuts messages cut → cut ≠ [] →
      Protected (sealFlight P keys cut) := by
    intro cut hcut hne
    cases cut with
    | nil => exact absurd rfl hne
    | cons r cut =>
      obtain ⟨hrecord, hparse⟩ := isRecord_sealedRecord (P := P) keys contentHandshake
        (hcut.padding r List.mem_cons_self)
      exact ⟨_, _, _, rfl, hrecord, hparse, rfl⟩
  by_cases hempty : cut₁ = []
  · obtain rfl := hnil h₁ h₂ hempty
    subst hempty
    exact .inl ⟨rfl, rfl⟩
  · exact .inr ⟨hprotected h₁ hempty, hprotected h₂ fun h => hempty (hnil h₂ h₁ h)⟩

/-- Two runs of the flight with its two ways of cutting. -/
theorem coupled_processServerHandshake {keys : TrafficKeys} {messages : List OutgoingMessage}
    {cut₁ cut₂ : List FlightRecord} (h₁ : Cuts messages cut₁) (h₂ : Cuts messages cut₂)
    {plain : List Bytes} (hplain : ∀ record ∈ plain, IsPlain record) {fuel stream : ℕ}
    (hfuel₁ : plain.length + cut₁.length < fuel) (hfuel₂ : plain.length + cut₂.length < fuel)
    (h : Alike (Streams (Before plain (sealFlight P keys cut₁) (sealFlight P keys cut₂))) s t)
    (hkeys : s.client.serverHsKeys = keys) (hstream : s.client.config.stream = some stream)
    (hcapacity : s.client.deframer.capacity = 32768) (hempty : s.client.deframer.buffer = []) :
    CoupledUnless .bufferTooSmall (¬ HasRoom messages cut₁) (¬ HasRoom messages cut₂)
      (fun _ => SameUncut)
      (processServerHandshake (segmented S₁ ended E) fuel s : Option (Except Error Unit × _))
      (processServerHandshake (segmented S₂ ended E) fuel t) := by
  subst hkeys
  let u : System P W := ⟨s.client, s.world.2, s.trace⟩
  have hs : Beside s.client.deframer s.client.serverHsKeys
      (plain.flatten ++ (sealFlight P s.client.serverHsKeys cut₁ ++ [])) s u := by
    rw [List.append_nil]
    exact ⟨rfl, rfl, h.world.1.1⟩
  have ht : Beside s.client.deframer s.client.serverHsKeys
      (plain.flatten ++ (sealFlight P s.client.serverHsKeys cut₂ ++ [])) t u := by
    rw [List.append_nil]
    exact ⟨h.client.symm, h.world.2.symm, h.world.1.2⟩
  have hrun : ∀ {S : Segmentation} {cut : List FlightRecord} {v : System P (S.State × W)},
      Cuts messages cut → plain.length + cut.length < fuel →
      Beside s.client.deframer s.client.serverHsKeys
        (plain.flatten ++ (sealFlight P s.client.serverHsKeys cut ++ [])) v u →
      CoupledUnless .bufferTooSmall (¬ HasRoom messages cut) False
        (FlightTaken s.client.serverHsKeys False [])
        (processServerHandshake (segmented S ended E) fuel v : Option (Except Error Unit × _)) _ :=
    fun hcut hfuel hv => processServerHandshake_messages plain fuel hv hplain hstream
      hcapacity hempty hcut not_not.mp hfuel (fun h => h.elim) fun _ => follows_end _ _ _
  exact (hrun h₁ hfuel₁ hs).trans (hrun h₂ hfuel₂ ht)
    fun _ _ _ _ hends hends' => hends.sameUncut hends'

/-! ## The whole handshake -/

/-- Both runs of `connect` end alike. -/
theorem coupled_connect {keys : TrafficKeys} {messages : List OutgoingMessage}
    {cut₁ cut₂ : List FlightRecord} (h₁ : Cuts messages cut₁) (h₂ : Cuts messages cut₂)
    {plain : List Bytes} (hplain : ∀ record ∈ plain, IsPlain record) {fuel : ℕ}
    (config : ClientConfig)
    (hfuel₁ : plain.length + cut₁.length < fuel) (hfuel₂ : plain.length + cut₂.length < fuel)
    (hstored : Stored s.client)
    (hkeys : wpOk (helloPhase (segmented S₁ ended E) fuel config)
      (fun _ s' => s'.client.serverHsKeys = keys) s)
    (h : Alike (Streams (Before plain (sealFlight P keys cut₁) (sealFlight P keys cut₂))) s t) :
    CoupledUnless .bufferTooSmall (¬ HasRoom messages cut₁) (¬ HasRoom messages cut₂)
      (fun _ => SameUncut)
      (connect (segmented S₁ ended E) fuel config s : Option (Except Error Unit × _))
      (connect (segmented S₂ ended E) fuel config t) := by
  have hfacts : wp (helloPhase (segmented S₁ ended E) fuel config) (fun r s' => r = .ok () →
      s'.client.serverHsKeys = keys ∧ (∃ stream, s'.client.config.stream = some stream) ∧
        s'.client.deframer.capacity = 32768 ∧ s'.client.deframer.buffer = []) s := by
    intro r s' hrun hr
    subst hr
    obtain ⟨husable, _, hdone⟩ := wpOk_helloPhase _ fuel config s () s' hrun
    have hconfig : s'.client.config = config := hdone.configured
    have hstream : config.stream.isSome = true := by
      unfold ClientConfig.usable at husable
      simp only [Bool.and_eq_true] at husable
      exact husable.1.1.2
    refine ⟨hkeys () s' hrun, ?_, ?_, hdone.deframer⟩
    · rw [hconfig]
      exact Option.isSome_iff_exists.mp hstream
    · exact Stored.capacity ((keeps_stored_helloPhase _ fuel config).run_ok hstored hrun)
  rw [connect_eq, connect_eq]
  refine coupledUnless_bind (.inl ((coupled_helloPhase (flights_of_cuts h₁ h₂) fuel config hplain
    h).symm.and_wp hfacts).symm) ?_ fun e s' t' hend => hend.1.1.sameUncut
  intro _ s₁ t₁ hend
  obtain ⟨⟨-, hleft⟩, hfacts⟩ := hend
  obtain ⟨plain', hplain', hle, halike⟩ := hleft () rfl
  obtain ⟨hkeys, ⟨stream, hstream⟩, hcapacity, hempty⟩ := hfacts rfl
  have hflight : CoupledUnless .bufferTooSmall (¬ HasRoom messages cut₁)
      (¬ HasRoom messages cut₂) (fun _ => SameUncut)
      (orFail (segmented S₁ ended E) (processServerHandshake (segmented S₁ ended E) fuel) s₁)
      (orFail (segmented S₂ ended E) (processServerHandshake (segmented S₂ ended E) fuel) t₁) := by
    refine coupledUnless_onError (coupled_processServerHandshake h₁ h₂ hplain' (by omega)
      (by omega) halike hkeys hstream hcapacity hempty) (fun _ _ _ h => h) ?_
      (fun s' => ⟨_, failWith_apply _ _ s'⟩) fun t' => ⟨_, failWith_apply _ _ t'⟩
    intro e s' t' hsame
    rw [failWith_apply, failWith_apply]
    exact .stop _ hsame.failed
  refine coupledUnless_bind hflight ?_ fun _ _ _ h => h
  intro _ s' t' hsame
  refine .inl (.stop _ ⟨?_, hsame.2⟩)
  have hconnected : ∀ c : TlsClient P, uncut { c with state := .connected } =
      { uncut c with state := .connected } := fun _ => rfl
  show uncut { s'.client with state := .connected } = uncut { t'.client with state := .connected }
  rw [hconnected, hconnected, hsame.1]

/-- More fuel does not change how `connect` ends. -/
theorem extends_connectCall {W' : Type} (E : Env W') {fuel fuel' : ℕ} (hle : fuel ≤ fuel')
    (config : ClientConfig) : Extends (Call.run E fuel (.connect config) : ClientM P W' Bytes)
      (Call.run E fuel' (.connect config)) :=
  extends_bind (extends_connect hle config) fun _ => extends_refl _

/-- Runs of `connect` that are coupled with enough fuel: where the first one returns, the second
one does. -/
theorem returns_of_coupled {W₁ W₂ : Type} {E₁ : Env W₁} {E₂ : Env W₂} {config : ClientConfig}
    {A B : Prop} {Q : Except Error Bytes → System P W₁ → System P W₂ → Prop} {s : System P W₁}
    {t : System P W₂} (n : ℕ) (hcoupled : ∀ fuel, n ≤ fuel →
      CoupledUnless .bufferTooSmall A B Q (Call.run E₁ fuel (.connect config) s)
        (Call.run E₂ fuel (.connect config) t)) {r : Except Error Bytes} {s' : System P W₁}
    (h : Returns E₁ (.connect config) s r s') :
    (∃ t', Returns E₂ (.connect config) t r t' ∧ Q r s' t') ∨
      (A ∧ r = .error .bufferTooSmall) ∨
      B ∧ ∃ t', Returns E₂ (.connect config) t (.error .bufferTooSmall) t' := by
  obtain ⟨fuel, hrun⟩ := h
  have hrun' := extends_connectCall E₁ (Nat.le_add_right fuel n) config s _ hrun
  obtain hboth | ⟨hA, s'', hfirst⟩ | ⟨hB, t', hsecond⟩ :=
    hcoupled (fuel + n) (Nat.le_add_left n fuel)
  · rw [hrun'] at hboth
    obtain ⟨t', ht', hend⟩ := hboth.run
    exact .inl ⟨t', ⟨_, ht'⟩, hend⟩
  · rw [hrun'] at hfirst
    cases hfirst
    exact .inr (.inl ⟨hA, rfl⟩)
  · exact .inr (.inr ⟨hB, t', _, hsecond⟩)

/-- The two calls end alike, or one of them for a full deframer. -/
theorem coupled_connectCall {keys : TrafficKeys} {messages : List OutgoingMessage}
    {cut₁ cut₂ : List FlightRecord} (h₁ : Cuts messages cut₁) (h₂ : Cuts messages cut₂)
    {plain : List Bytes} (hplain : ∀ record ∈ plain, IsPlain record) {config : ClientConfig}
    (hstored : Stored s.client)
    (hkeys : ∀ fuel, wpOk (helloPhase (segmented S₁ ended E) fuel config)
      (fun _ s' => s'.client.serverHsKeys = keys) s)
    (h : Alike (Streams (Before plain (sealFlight P keys cut₁) (sealFlight P keys cut₂))) s t)
    {fuel : ℕ} (hfuel : plain.length + cut₁.length + cut₂.length + 1 ≤ fuel) :
    CoupledUnless .bufferTooSmall (¬ HasRoom messages cut₁) (¬ HasRoom messages cut₂)
      (fun _ => SameUncut) (Call.run (segmented S₁ ended E) fuel (.connect config) s)
      (Call.run (segmented S₂ ended E) fuel (.connect config) t) :=
  coupledUnless_bind (coupled_connect h₁ h₂ hplain config (by omega) (by omega) hstored
    (hkeys fuel) h) (fun _ _ _ hend => .inl (.stop _ hend)) fun _ _ _ hend => hend

/-- `connect` returns one way whichever way the flight is cut. -/
theorem returns_of_cut {keys : TrafficKeys} {messages : List OutgoingMessage}
    {cut₁ cut₂ : List FlightRecord} (h₁ : Cuts messages cut₁) (h₂ : Cuts messages cut₂)
    (hroom₁ : HasRoom messages cut₁) (hroom₂ : HasRoom messages cut₂) {plain : List Bytes}
    (hplain : ∀ record ∈ plain, IsPlain record) {config : ClientConfig}
    (hstored : Stored s.client)
    (hkeys : ∀ fuel, wpOk (helloPhase (segmented S₁ ended E) fuel config)
      (fun _ s' => s'.client.serverHsKeys = keys) s)
    (h : Alike (Streams (Before plain (sealFlight P keys cut₁) (sealFlight P keys cut₂))) s t)
    {r : Except Error Bytes} :
    (∀ s', Returns (segmented S₁ ended E) (.connect config) s r s' →
      ∃ t', Returns (segmented S₂ ended E) (.connect config) t r t' ∧ SameUncut s' t') ∧
    ∀ t', Returns (segmented S₂ ended E) (.connect config) t r t' →
      ∃ s', Returns (segmented S₁ ended E) (.connect config) s r s' ∧ SameUncut s' t' := by
  constructor
  · intro s' hs'
    obtain hsame | ⟨hfull, -⟩ | ⟨hfull, -⟩ := returns_of_coupled _
      (fun _ => coupled_connectCall h₁ h₂ hplain hstored hkeys h) hs'
    · exact hsame
    · exact absurd hroom₁ hfull
    · exact absurd hroom₂ hfull
  · intro t' ht'
    obtain hsame | ⟨hfull, -⟩ | ⟨hfull, -⟩ := returns_of_coupled _
      (fun _ hfuel => (coupled_connectCall h₁ h₂ hplain hstored hkeys h hfuel).symm) ht'
    · exact hsame
    · exact absurd hroom₂ hfull
    · exact absurd hroom₁ hfull

/-- When no message is longer than 16385 bytes, every way of cutting has room. -/
theorem hasRoom_of_small {messages : List OutgoingMessage} {cut : List FlightRecord}
    (hcut : Cuts messages cut) (hsmall : ∀ m ∈ messages, m.encode.length ≤ 16385) :
    HasRoom messages cut := by
  rintro before r after done m todo held rfl rfl - hheld
  have hm := hsmall m (List.mem_append_right _ List.mem_cons_self)
  have hr := (hcut.size r (List.mem_append_right _ List.mem_cons_self)).2
  omega

/-- A client that can be reached, and a server that sends `plain` and then the messages sealed
with the keys that the client has derived: `connect` does the same for every two ways of cutting
the messages into records that have room, on streams that hand out their bytes in any pieces. -/
theorem fragmentation_independent (S₁ S₂ : Segmentation) (ended : Option Error) (E : Env W)
    (config : ClientConfig) {c : TlsClient P} (hreach : ReachableClient c) (trace : List Event)
    (w : W) {plain : List Bytes} (hplain : ∀ record ∈ plain, IsPlain record)
    {messages : List OutgoingMessage} {cut₁ cut₂ : List FlightRecord} (h₁ : Cuts messages cut₁)
    (h₂ : Cuts messages cut₂) (hroom₁ : HasRoom messages cut₁) (hroom₂ : HasRoom messages cut₂)
    {keys : TrafficKeys} {a : S₁.State} {b : S₂.State}
    (ha : S₁.left a = plain.flatten ++ sealFlight P keys cut₁)
    (hb : S₂.left b = plain.flatten ++ sealFlight P keys cut₂)
    (hkeys : ∀ fuel s, helloPhase (segmented S₁ ended E) fuel config ⟨c, (a, w), trace⟩ =
      some (.ok (), s) → s.client.serverHsKeys = keys) (r : Except Error Bytes) :
    (∀ s, Returns (segmented S₁ ended E) (.connect config) ⟨c, (a, w), trace⟩ r s →
      ∃ t, Returns (segmented S₂ ended E) (.connect config) ⟨c, (b, w), trace⟩ r t ∧
        uncut s.client = uncut t.client ∧ s.world.2 = t.world.2) ∧
    ∀ t, Returns (segmented S₂ ended E) (.connect config) ⟨c, (b, w), trace⟩ r t →
      ∃ s, Returns (segmented S₁ ended E) (.connect config) ⟨c, (a, w), trace⟩ r s ∧
        uncut s.client = uncut t.client ∧ s.world.2 = t.world.2 := by
  have halike : Alike (Streams (Before plain (sealFlight P keys cut₁) (sealFlight P keys cut₂)))
      (⟨c, (a, w), trace⟩ : System P (S₁.State × W)) ⟨c, (b, w), trace⟩ :=
    ⟨rfl, rfl, ⟨ha, hb⟩, rfl⟩
  refine returns_of_cut h₁ h₂ hroom₁ hroom₂ hplain (stored_of_reachable hreach) ?_ halike
  intro fuel _ s hrun
  exact hkeys fuel s hrun

/-- The messages of a small flight. -/
def smallFlight : List OutgoingMessage :=
  [⟨hsEncryptedExtensions, [0, 0], by decide⟩, ⟨hsFinished, List.replicate 32 0, by decide⟩]

/-- The keys under which `blankCrypto` seals it. -/
def blankKeys : TrafficKeys := ⟨.zero 16, .zero 12, 0⟩

/-- Both messages in one record. -/
def wholeCut : List FlightRecord := [⟨flightBytes smallFlight, 0⟩]

/-- The cut goes through the head of the second message. -/
def splitCut : List FlightRecord :=
  [⟨(flightBytes smallFlight).take 9, 2⟩, ⟨(flightBytes smallFlight).drop 9, 0⟩]

/-- The flight in one record. -/
theorem cuts_wholeCut : Cuts smallFlight wholeCut :=
  ⟨by decide, by decide, by decide⟩

/-- The flight in two records. -/
theorem cuts_splitCut : Cuts smallFlight splitCut :=
  ⟨by decide, by decide, by decide⟩

/-- The client before the handshake, with the flight in front of it. -/
def beforeFlight (cut : List FlightRecord) : System blankCrypto (Bytes × Bytes) :=
  ⟨.initial blankCrypto,
    (plainRecord 22 scriptServerHello ++ sealFlight blankCrypto blankKeys cut, []), []⟩

/-- The client reads the flight in one record as fast as it asks for it. -/
theorem returns_wholeCut :
    ∃ s, Returns (segmented (pieces 16645 (Nat.succ_pos _)) none scriptEnv)
      (.connect (scriptConfig 0)) (beforeFlight wholeCut) (.ok []) s ∧
        s.client.state = .connected := by
  have hrun : (Call.run (segmented (pieces 16645 (Nat.succ_pos _)) none scriptEnv) 8
      (.connect (scriptConfig 0)) (beforeFlight wholeCut)).map
        (fun out => (out.1, out.2.client.state)) = some (.ok [], .connected) := by
    decide +kernel
  obtain ⟨⟨r, s⟩, hrun, hresult⟩ := Option.map_eq_some_iff.mp hrun
  obtain ⟨hr, hconnected⟩ := Prod.mk.inj hresult
  dsimp only at hr
  subst hr
  exact ⟨s, ⟨8, hrun⟩, hconnected⟩

/-- The keys that the client derives are those that the flight is sealed with. -/
theorem keys_wholeCut (fuel : ℕ) (s : System blankCrypto (Bytes × Bytes))
    (hs : helloPhase (segmented (pieces 16645 (Nat.succ_pos _)) none scriptEnv) fuel
      (scriptConfig 0) (beforeFlight wholeCut) = some (.ok (), s)) :
    s.client.serverHsKeys = blankKeys := by
  have hhello : (helloPhase (segmented (pieces 16645 (Nat.succ_pos _)) none scriptEnv) 2
      (scriptConfig 0) (beforeFlight wholeCut)).map (fun out => out.2.client.serverHsKeys) =
        some blankKeys := by
    decide +kernel
  obtain ⟨⟨r, u⟩, hhello, hblank⟩ := Option.map_eq_some_iff.mp hhello
  have hmore := extends_helloPhase (Nat.le_add_right fuel 2) (scriptConfig 0) _ _ hs
  rw [extends_helloPhase (Nat.le_add_left 2 fuel) (scriptConfig 0) _ _ hhello] at hmore
  cases hmore
  exact hblank

/-- The ServerHello of the script is a record in the clear. -/
theorem isPlain_scriptServerHello :
    ∀ record ∈ [plainRecord 22 scriptServerHello], IsPlain record := by
  intro record hrecord
  rw [List.mem_singleton] at hrecord
  subst hrecord
  unfold IsPlain IsRecord
  decide +kernel

/-- The client before its first call. -/
theorem reachable_blank : ReachableClient (.initial blankCrypto) :=
  ⟨Bytes, scriptEnv, [], [], _, Run.nil _, rfl⟩

/-- The flight in one record that arrives as it is asked for, and in two records that arrive
byte by byte. -/
theorem fragmentation_independent_split :
    ∃ t, Returns (segmented (pieces 1 Nat.one_pos) none scriptEnv) (.connect (scriptConfig 0))
      (beforeFlight splitCut) (.ok []) t ∧ t.client.state = .connected := by
  obtain ⟨s, hs, hconnected⟩ := returns_wholeCut
  obtain ⟨t, ht, hsame, -⟩ := (fragmentation_independent _ (pieces 1 Nat.one_pos) none scriptEnv
    (scriptConfig 0) reachable_blank [] [] isPlain_scriptServerHello cuts_wholeCut cuts_splitCut
    (hasRoom_of_small cuts_wholeCut (by decide)) (hasRoom_of_small cuts_splitCut (by decide))
    rfl rfl keys_wholeCut (.ok [])).1 s hs
  refine ⟨t, ht, ?_⟩
  have hstate : (uncut s.client).state = (uncut t.client).state := congrArg TlsClient.state hsame
  exact hstate.symm.trans hconnected

end XboxTls.Analysis
