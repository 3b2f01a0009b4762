import XboxTls.Analysis.PeerTraffic
import XboxTls.Interface.Deframing
import XboxTls.Programs.Framing

/-!
# The deframer reassembles any fragmentation

The methods over the storage do what the methods over the bytes in use do
(`Represents`).  Handshake messages are a `Framing`, so what was received of them is whole
messages and an unfinished one, and the loop of the users takes the whole ones.
-/

set_option autoImplicit false

namespace XboxTls.Analysis

open Programs Programs.Prog XboxTls.Model XboxTls.Interface

/-! ## The storage -/

/-- A write inside the storage leaves its length. -/
theorem writeAt_length {storage bytes : Bytes} {i : ℕ} (h : i + bytes.length ≤ storage.length) :
    (writeAt storage i bytes).length = storage.length := by
  simp only [writeAt, List.length_append, List.length_take, List.length_drop]
  omega

/-- The storage up to the end of a write. -/
theorem take_writeAt {storage bytes : Bytes} {i : ℕ} (h : i + bytes.length ≤ storage.length) :
    (writeAt storage i bytes).take (i + bytes.length) = storage.take i ++ bytes := by
  have hlength : (storage.take i ++ bytes).length = i + bytes.length := by
    simp only [List.length_append, List.length_take]
    omega
  unfold writeAt
  rw [← hlength, List.take_left]

/-- The stored deframer `d` holds the bytes of `v`. -/
structure Represents (d : StoredDeframer) (v : HandshakeDeframer) : Prop where
  usable : ¬(d.null ∧ d.storage.length ≠ 0)
  capacity : v.capacity = d.storage.length
  used_le : d.used ≤ d.storage.length
  buffer : v.buffer = d.storage.take d.used

namespace Represents

variable {d : StoredDeframer} {v : HandshakeDeframer}

/-- The bytes of the deframer are those in use. -/
theorem buffer_length (h : Represents d v) : v.buffer.length = d.used := by
  rw [h.buffer, List.length_take]
  exact min_eq_left h.used_le

/-- The stored deframer parses the bytes of the deframer. -/
theorem parse_eq (h : Represents d v) : d.parse = parseHandshakeMessage v.buffer := by
  have husable : ¬(d.null ∧ d.used ≠ 0) := by
    rintro ⟨hnull, hused⟩
    have := h.used_le
    exact h.usable ⟨hnull, by omega⟩
  unfold StoredDeframer.parse
  rw [if_neg husable, h.buffer]

/-- The stored deframer peeks what the deframer peeks. -/
theorem peek (h : Represents d v) : StoredDeframer.peek d = some (v.peek, d) := by
  unfold StoredDeframer.peek HandshakeDeframer.peek
  simp only [bind_apply, get_apply, lift_apply, h.parse_eq]
  cases parseHandshakeMessage v.buffer with
  | error e => rfl
  | ok m => rfl

/-- Bytes that fit are stored behind those in use. -/
theorem append_ok (h : Represents d v) {bytes : Bytes} {v' : HandshakeDeframer}
    (happend : v.append bytes = .ok v') :
    ∃ d', StoredDeframer.append false bytes d = some (.ok (), d') ∧ Represents d' v' := by
  have hlength := h.buffer_length
  have hused := h.used_le
  unfold HandshakeDeframer.append at happend
  split at happend
  · cases happend
  · rename_i hfits
    rw [h.capacity, hlength] at hfits
    cases happend
    have hroom : d.used + bytes.length ≤ d.storage.length := by omega
    have hwritten : (if bytes.length ≠ 0 then writeAt d.storage d.used bytes else d.storage) =
        writeAt d.storage d.used bytes := by
      split
      · rfl
      · rename_i hempty
        have : bytes = [] := by simpa using hempty
        simp [this, writeAt]
    refine ⟨⟨d.null, writeAt d.storage d.used bytes, d.used + bytes.length⟩, ?_, ?_, ?_, ?_, ?_⟩
    · unfold StoredDeframer.append
      simp only [bind_apply, get_apply]
      rw [if_neg (by simpa using h.usable), if_neg hfits, modify_apply, hwritten]
    · show ¬(d.null ∧ (writeAt d.storage d.used bytes).length ≠ 0)
      rw [writeAt_length hroom]
      exact h.usable
    · show v.capacity = (writeAt d.storage d.used bytes).length
      rw [writeAt_length hroom, h.capacity]
    · show d.used + bytes.length ≤ (writeAt d.storage d.used bytes).length
      rw [writeAt_length hroom]
      exact hroom
    · show v.buffer ++ bytes = (writeAt d.storage d.used bytes).take (d.used + bytes.length)
      rw [take_writeAt hroom, h.buffer]

/-- Moving the rest of the bytes to the front of the storage drops the first message. -/
theorem consume_ok (h : Represents d v) {v' : HandshakeDeframer} (hconsume : v.consume = .ok v') :
    ∃ d', StoredDeframer.consume d = some (.ok (), d') ∧ Represents d' v' := by
  have hused := h.used_le
  unfold HandshakeDeframer.consume at hconsume
  cases hparse : parseHandshakeMessage v.buffer with
  | error e =>
    rw [hparse] at hconsume
    cases hconsume
  | ok m =>
    rw [hparse] at hconsume
    cases hconsume
    have hmoved : (slice d.storage m.2 (d.used - m.2)).length = d.used - m.2 := by
      simp only [slice, List.length_take, List.length_drop]
      omega
    have hroom : 0 + (slice d.storage m.2 (d.used - m.2)).length ≤ d.storage.length := by omega
    -- nothing is moved when the message is all there is
    have hstorage : ∃ storage, storage = (if m.2 < d.used then
          writeAt d.storage 0 (slice d.storage m.2 (d.used - m.2)) else d.storage) ∧
        storage.length = d.storage.length ∧
        storage.take (d.used - m.2) = slice d.storage m.2 (d.used - m.2) := by
      refine ⟨_, rfl, ?_⟩
      split
      · refine ⟨writeAt_length hroom, ?_⟩
        have htake := take_writeAt hroom
        rw [hmoved] at htake
        simpa using htake
      · have hnone : d.used - m.2 = 0 := by omega
        simp [slice, hnone]
    obtain ⟨storage, hwritten, hlength, htake⟩ := hstorage
    refine ⟨⟨d.null, storage, d.used - m.2⟩, ?_, ?_, ?_, ?_, ?_⟩
    · unfold StoredDeframer.consume
      simp only [bind_apply, get_apply, lift_apply, h.parse_eq, hparse, modify_apply]
      rw [hwritten]
    · show ¬(d.null ∧ storage.length ≠ 0)
      rw [hlength]
      exact h.usable
    · show v.capacity = storage.length
      rw [hlength, h.capacity]
    · show d.used - m.2 ≤ storage.length
      omega
    · show v.buffer.drop m.2 = storage.take (d.used - m.2)
      rw [htake, h.buffer, slice, List.drop_take]

end Represents

/-! ## Messages as a framing -/

/-- A message is its header and its body. -/
theorem outgoingMessage_length (m : OutgoingMessage) : m.encode.length = m.body.length + 4 := by
  simp only [OutgoingMessage.encode, List.length_append, storeBe24_length, List.length_singleton]
  omega

/-- The front of a message, and not all of it, is not a message yet. -/
theorem parseHandshakeMessage_part (m : OutgoingMessage) {part rest : Bytes}
    (h : part ++ rest = m.encode) (hrest : rest ≠ []) :
    parseHandshakeMessage part = .error .bufferTooSmall := by
  have hlength := congrArg List.length h
  have hpos := List.length_pos_of_ne_nil hrest
  rw [List.length_append, outgoingMessage_length] at hlength
  unfold parseHandshakeMessage
  by_cases hshort : part.length < 4
  · rw [if_pos hshort]
  · have hfits := m.fits
    have hload : loadBe24 part 1 = m.body.length := by
      have hwhole : loadBe24 (part ++ rest) 1 = m.body.length := by
        rw [h]
        simp only [OutgoingMessage.encode, loadBe24, byteAt, storeBe24, List.cons_append,
          List.nil_append, List.getD_cons_succ, List.getD_cons_zero, UInt8.toNat_ofNat']
        omega
      rw [← hwhole]
      unfold loadBe24
      rw [byteAt_append (by omega), byteAt_append (by omega), byteAt_append (by omega)]
    rw [if_neg hshort]
    dsimp only
    rw [hload, if_neg (by omega), if_pos (by omega)]

/-- The handshake messages as a framing. -/
def handshakeFraming : Framing OutgoingMessage UInt8 HandshakeMessage where
  encode := OutgoingMessage.encode
  image := OutgoingMessage.received
  parse input := (parseHandshakeMessage input).toOption
  encode_ne_nil m := by simp [OutgoingMessage.encode]
  parse_encode m rest := by
    have hframe := parseHandshakeMessage_frame m.type m.body rest m.fits
    have hlength := outgoingMessage_length m
    rw [OutgoingMessage.encode] at hlength ⊢
    rw [hframe, hlength]
    rfl
  parse_nil := rfl
  parse_part m part rest h hrest := by
    rw [parseHandshakeMessage_part m h hrest]
    rfl

/-! ## The loop -/

/-- The whole messages at the front are taken in order, and the loop stops at the unfinished
one. -/
theorem takeMessages_of_split (front : List OutgoingMessage) {tail : Bytes}
    (htail : handshakeFraming.parse tail = none) (fuel : ℕ) (hfuel : front.length < fuel)
    (d : StoredDeframer) (v : HandshakeDeframer) (h : Represents d v)
    (hbuffer : v.buffer = handshakeFraming.encodeAll front ++ tail) :
    ∃ d' v', takeMessages fuel d = some (.ok (front.map OutgoingMessage.received), d') ∧
      Represents d' v' ∧ v'.capacity = v.capacity ∧ v'.buffer = tail := by
  induction front generalizing fuel d v with
  | nil =>
    obtain ⟨fuel, rfl⟩ := Nat.exists_eq_succ_of_ne_zero (Nat.ne_of_gt hfuel)
    have hpeek : ∃ e, v.peek = .error e := by
      unfold HandshakeDeframer.peek
      rw [hbuffer]
      simp only [Framing.encodeAll_nil, List.nil_append]
      cases hparse : parseHandshakeMessage tail with
      | error e => exact ⟨e, rfl⟩
      | ok m =>
        have hsome : (parseHandshakeMessage tail).toOption = none := htail
        rw [hparse] at hsome
        cases hsome
    obtain ⟨e, hpeek⟩ := hpeek
    refine ⟨d, v, ?_, h, rfl, hbuffer⟩
    have hattempt : (attempt StoredDeframer.peek : Prog StoredDeframer Error _) d =
        some (.ok (.error e), d) := by
      unfold attempt
      rw [h.peek, hpeek]
    unfold takeMessages
    rw [bind_of_ok hattempt]
    rfl
  | cons m front ih =>
    obtain ⟨fuel, rfl⟩ := Nat.exists_eq_succ_of_ne_zero (Nat.ne_of_gt (Nat.zero_lt_of_lt hfuel))
    have hparse : parseHandshakeMessage v.buffer = .ok (m.received, m.encode.length) := by
      have hsome := handshakeFraming.parse_encode m (handshakeFraming.encodeAll front ++ tail)
      rw [← List.append_assoc, ← Framing.encodeAll_cons, ← hbuffer] at hsome
      change (parseHandshakeMessage v.buffer).toOption = _ at hsome
      cases hparse : parseHandshakeMessage v.buffer with
      | error e =>
        rw [hparse] at hsome
        cases hsome
      | ok r =>
        rw [hparse] at hsome
        exact congrArg Except.ok (Option.some.inj hsome)
    have hpeek := peek_of_parse hparse
    obtain ⟨v₁, hcapacity, hrest, hconsume⟩ := consume_of_parse hparse
    obtain ⟨d₁, hconsumed, h₁⟩ := h.consume_ok hconsume
    have hbuffer₁ : v₁.buffer = handshakeFraming.encodeAll front ++ tail := by
      rw [hrest, hbuffer, Framing.encodeAll_cons, List.append_assoc]
      exact List.drop_left
    obtain ⟨d', v', hrun, h', hcapacity', htail'⟩ :=
      ih fuel (Nat.lt_of_succ_lt_succ hfuel) d₁ v₁ h₁ hbuffer₁
    refine ⟨d', v', ?_, h', hcapacity'.trans hcapacity, htail'⟩
    have hattempt : (attempt StoredDeframer.peek : Prog StoredDeframer Error _) d =
        some (.ok (.ok m.received), d) := by
      unfold attempt
      rw [h.peek, hpeek]
    unfold takeMessages
    rw [bind_of_ok hattempt]
    dsimp only
    rw [bind_of_ok hconsumed, bind_of_ok hrun]
    rfl

/-- Between two fragments the deframer holds an unfinished message, which leaves room for the
next fragment. -/
theorem feed_of_split {M F : ℕ} (fuel : ℕ) (fragments : List Bytes) :
    ∀ (messages : List OutgoingMessage) (d : StoredDeframer) (v : HandshakeDeframer),
      Represents d v → handshakeFraming.Unfinished messages v.buffer →
      v.buffer ++ fragments.flatten = handshakeFraming.encodeAll messages →
      (∀ m ∈ messages, m.encode.length ≤ M) → (∀ f ∈ fragments, f.length ≤ F) →
      M + F ≤ v.capacity + 1 → v.capacity < fuel →
      ∃ d' v', feed fuel fragments d =
          some (.ok (messages.map OutgoingMessage.received), d') ∧
        Represents d' v' ∧ v'.capacity = v.capacity ∧ v'.buffer = [] := by
  induction fragments with
  | nil =>
    intro messages d v h hunfinished hflat _ _ _ _
    rw [List.flatten_nil, List.append_nil] at hflat
    cases messages with
    | nil => exact ⟨d, v, rfl, h, rfl, hflat⟩
    | cons m messages =>
      have hnone := hunfinished.parse_eq
      rw [hflat, Framing.encodeAll_cons, handshakeFraming.parse_encode] at hnone
      cases hnone
  | cons fragment fragments ih =>
    intro messages d v h hunfinished hflat hM hF hroom hfuel
    rw [List.flatten_cons, ← List.append_assoc] at hflat
    have hfragment := hF fragment List.mem_cons_self
    have hfits : v.buffer.length + fragment.length ≤ v.capacity := by
      cases messages with
      | nil =>
        have hlength := congrArg List.length hflat
        simp only [List.length_append, Framing.encodeAll_nil, List.length_nil] at hlength
        omega
      | cons m messages =>
        have hheld := hunfinished.length_lt handshakeFraming hM
        have hpos : 0 < m.encode.length := handshakeFraming.encode_length_pos m
        have hm := hM m List.mem_cons_self
        omega
    obtain ⟨v₁, hcapacity₁, hbuffer₁, happend⟩ := append_of_room hfits
    obtain ⟨d₁, happended, h₁⟩ := h.append_ok happend
    obtain ⟨front, back, tail, hmessages, hreceived, hrest, htail⟩ :=
      handshakeFraming.exists_split messages _ _ hflat
    have hfront : front.length < fuel := by
      have hcount := handshakeFraming.length_le_encodeAll front
      have hlength := congrArg List.length hreceived
      simp only [List.length_append] at hlength
      omega
    obtain ⟨d₂, v₂, htaken, h₂, hcapacity₂, hbuffer₂⟩ :=
      takeMessages_of_split front htail.parse_eq fuel hfront d₁ v₁ h₁
        (hbuffer₁.trans hreceived)
    have hcapacity := hcapacity₂.trans hcapacity₁
    obtain ⟨d', v', hfed, h', hcapacity', hempty⟩ := ih back d₂ v₂ h₂
      (by rw [hbuffer₂]; exact htail) (by rw [hbuffer₂]; exact hrest)
      (fun m hm => hM m (by rw [hmessages]; exact List.mem_append_right front hm))
      (fun f hf => hF f (List.mem_cons_of_mem fragment hf))
      (by rw [hcapacity]; exact hroom) (by rw [hcapacity]; exact hfuel)
    refine ⟨d', v', ?_, h', hcapacity'.trans hcapacity, hempty⟩
    unfold feed
    rw [bind_of_ok happended, bind_of_ok htaken, bind_of_ok hfed, hmessages, List.map_append]
    rfl

/-! ## Any use of the deframer -/

/-- A call that reports an error leaves the deframer as it was. -/
theorem call_error (c : DeframerCall) {d d' : StoredDeframer} {e : Error}
    (hcall : c.run d = some (.error e, d')) : d' = d := by
  cases c with
  | append null bytes =>
    simp only [DeframerCall.run, StoredDeframer.append, bind_apply, get_apply] at hcall
    split at hcall
    · cases hcall
      rfl
    · split at hcall
      · cases hcall
        rfl
      · cases hcall
  | peek =>
    simp only [DeframerCall.run, StoredDeframer.peek, bind_apply, get_apply, lift_apply] at hcall
    cases hparse : d.parse with
    | error e' =>
      rw [hparse] at hcall
      cases hcall
      rfl
    | ok m =>
      rw [hparse] at hcall
      cases hcall
  | consume =>
    simp only [DeframerCall.run, StoredDeframer.consume, bind_apply, get_apply,
      lift_apply] at hcall
    cases hparse : d.parse with
    | error e' =>
      rw [hparse] at hcall
      cases hcall
      rfl
    | ok m =>
      rw [hparse] at hcall
      cases hcall
  | reset => cases hcall
  | buffered => cases hcall

/-- No call changes the size of the storage or uses more than there is. -/
theorem call_bound (c : DeframerCall) {d d' : StoredDeframer} {r : Except Error Unit}
    (hcall : c.run d = some (r, d')) (hused : d.used ≤ d.storage.length) :
    d'.storage.length = d.storage.length ∧ d'.used ≤ d'.storage.length := by
  cases c with
  | append null bytes =>
    simp only [DeframerCall.run, StoredDeframer.append, bind_apply, get_apply] at hcall
    split at hcall
    · cases hcall
      exact ⟨rfl, hused⟩
    · split at hcall
      · cases hcall
        exact ⟨rfl, hused⟩
      · rename_i hfits
        cases hcall
        have hroom : d.used + bytes.length ≤ d.storage.length := by omega
        have hlength : (if bytes.length ≠ 0 then writeAt d.storage d.used bytes
            else d.storage).length = d.storage.length := by
          split
          · exact writeAt_length hroom
          · rfl
        exact ⟨hlength, hroom.trans_eq hlength.symm⟩
  | peek =>
    simp only [DeframerCall.run, StoredDeframer.peek, bind_apply, get_apply, lift_apply] at hcall
    cases hparse : d.parse <;> rw [hparse] at hcall <;> cases hcall <;> exact ⟨rfl, hused⟩
  | consume =>
    simp only [DeframerCall.run, StoredDeframer.consume, bind_apply, get_apply,
      lift_apply] at hcall
    cases hparse : d.parse with
    | error e =>
      rw [hparse] at hcall
      cases hcall
      exact ⟨rfl, hused⟩
    | ok m =>
      rw [hparse] at hcall
      cases hcall
      have hlength : (if m.2 < d.used then
          writeAt d.storage 0 (slice d.storage m.2 (d.used - m.2)) else d.storage).length =
          d.storage.length := by
        split
        · have hmoved := slice_length_le d.storage m.2 (d.used - m.2)
          exact writeAt_length (by omega)
        · rfl
      exact ⟨hlength, (Nat.sub_le d.used m.2).trans (hused.trans_eq hlength.symm)⟩
  | reset =>
    cases hcall
    exact ⟨rfl, Nat.zero_le _⟩
  | buffered =>
    cases hcall
    exact ⟨rfl, hused⟩

/-- Over any calls in any order, the bytes in use stay within the storage. -/
theorem deframerRun_bound {null : Bool} {storage : Bytes} {d : StoredDeframer}
    (hrun : DeframerRun null storage d) :
    d.storage.length = storage.length ∧ d.used ≤ d.storage.length := by
  induction hrun with
  | construct => exact ⟨rfl, Nat.zero_le _⟩
  | call before c r step ih =>
    obtain ⟨hlength, hused⟩ := call_bound c step ih.2
    exact ⟨hlength.trans ih.1, hused⟩

/-! ## The main result -/

/-- A storage that holds an unfinished message and a fragment is enough to reassemble any
messages from any fragments, and whatever is done with the deframer, its bytes stay within the
storage and survive every call that fails. -/
theorem deframer_reassembles :
    (∀ (storage : Bytes) (M F fuel : ℕ) (messages : List OutgoingMessage)
      (fragments : List Bytes),
      fragments.flatten = messages.flatMap OutgoingMessage.encode →
      (∀ m ∈ messages, m.encode.length ≤ M) → (∀ f ∈ fragments, f.length ≤ F) →
      M + F ≤ storage.length + 1 → storage.length < fuel →
      ∃ d, feed fuel fragments (.construct false storage) =
          some (.ok (messages.map OutgoingMessage.received), d) ∧
        d.used = 0 ∧ d.storage.length = storage.length) ∧
    ∀ (null : Bool) (storage : Bytes) (d : StoredDeframer), DeframerRun null storage d →
      d.used ≤ storage.length ∧ d.storage.length = storage.length ∧
      ∀ (c : DeframerCall) (e : Error) (d' : StoredDeframer),
        c.run d = some (.error e, d') → d' = d := by
  constructor
  · intro storage M F fuel messages fragments hflat hM hF hroom hfuel
    have hstart : Represents (.construct false storage) (.empty storage.length) :=
      ⟨by simp [StoredDeframer.construct], rfl, Nat.zero_le _, rfl⟩
    obtain ⟨d, v, hfed, hd, hcapacity, hempty⟩ := feed_of_split fuel fragments messages _ _ hstart
      ⟨handshakeFraming.parse_nil, .inl rfl⟩ hflat hM hF hroom hfuel
    refine ⟨d, hfed, ?_, ?_⟩
    · rw [← hd.buffer_length, hempty]
      rfl
    · rw [← hd.capacity, hcapacity]
      rfl
  · intro null storage d hrun
    obtain ⟨hlength, hused⟩ := deframerRun_bound hrun
    exact ⟨hused.trans_eq hlength, hlength, fun c e d' => call_error c⟩

/-- Two messages in pieces that cut the first header and hold the end of one message together
with the front of the next. -/
theorem deframer_reassembles_pieces :
    ∃ d, feed 17 [[8, 0], [], [0, 2, 0, 0, 20, 0], [0, 0]]
        (.construct false (List.replicate 16 0)) =
      some (.ok [⟨8, [0, 0], [8, 0, 0, 2, 0, 0]⟩, ⟨20, [], [20, 0, 0, 0]⟩], d) ∧
      d.used = 0 ∧ d.storage.length = 16 := by
  obtain ⟨d, hfed, hused, hlength⟩ := deframer_reassembles.1 (List.replicate 16 0) 6 6 17
    [⟨8, [0, 0], by simp⟩, ⟨20, [], by simp⟩] [[8, 0], [], [0, 2, 0, 0, 20, 0], [0, 0]]
    (by decide) (by decide) (by decide) (by decide) (by decide)
  exact ⟨d, hfed, hused, hlength⟩

end XboxTls.Analysis
