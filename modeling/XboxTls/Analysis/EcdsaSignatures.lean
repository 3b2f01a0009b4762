import XboxTls.Analysis.DerElements
import XboxTls.Interface.EcdsaSignatures

/-!
# What `parse_sig` accepts

`dtlv` takes a length in any form of at most two octets (`dtlv_iff`), and `parse_sig` skips one
zero in front of a number.  So it accepts the texts that `SignatureText.Readable` describes
(`parsedPair_iff`), and only those that are not `Lax` are in DER.
-/

set_option autoImplicit false

namespace XboxTls.Analysis

open Programs XboxTls.Model XboxTls.Model.P256 XboxTls.Interface

/-! ## Elements -/

/-- An encoding adds its tag and its length octets. -/
theorem length_encode (form : LengthForm) (tag : UInt8) (content : Bytes) :
    (form.encode tag content).length =
      1 + (form.octets content.length).length + content.length := by
  simp only [LengthForm.encode, List.cons_append, List.length_cons, List.length_append]
  omega

/-- The value of an element as a span. -/
def elementSpan (form : LengthForm) (off : ℕ) (tag : UInt8) (size : ℕ) : ValueSpan :=
  ⟨tag, ⟨off + 1 + (form.octets size).length, size⟩, off + 1 + (form.octets size).length + size⟩

/-- The bytes of a string behind an offset. -/
theorem byteAt_of_drop {input b : Bytes} {off : ℕ} (h : input.drop off = b) (i : ℕ) :
    byteAt input (off + i) = byteAt b i := by
  rw [← h, byteAt_drop]

/-- The end of the reader. -/
def spanAt (input : Bytes) (off p len : ℕ) : Option ValueSpan :=
  if len > input.length - p then none else some ⟨byteAt input off, ⟨p, len⟩, p + len⟩

/-- The reader without its running offset. -/
theorem dtlv_eq (input : Bytes) (off : ℕ) : dtlv input off =
    if off ≥ input.length then none
    else if off + 1 ≥ input.length then none
    else
      let lb := (byteAt input (off + 1)).toNat
      if lb < 0x80 then spanAt input off (off + 2) lb
      else
        let n := lb - 0x80
        if n = 0 ∨ n > 2 ∨ off + 2 + n > input.length then none
        else spanAt input off (off + 2 + n) (ofOctets (slice input (off + 2) n)) := by
  unfold dtlv spanAt
  simp only [Option.bind_eq_bind, Option.bind_none, Option.pure_def]
  by_cases hoff : off ≥ input.length
  · rw [if_pos hoff, if_pos hoff]
  rw [if_neg hoff, if_neg hoff]
  by_cases htag : off + 1 ≥ input.length
  · rw [if_pos htag, if_pos htag]
  rw [if_neg htag, if_neg htag]
  by_cases hshort : byteAt input (off + 1) &&& 0x80 = 0
  · rw [if_pos hshort, if_pos ((and_topBit _).1 hshort)]
    rfl
  have hge : ¬ (byteAt input (off + 1)).toNat < 0x80 := fun h => hshort ((and_topBit _).2 h)
  rw [if_neg hshort, if_neg hge, and_lowBits (Nat.le_of_not_lt hge)]
  generalize (byteAt input (off + 1)).toNat - 0x80 = n
  by_cases hn : n = 0 ∨ n > 2 ∨ off + 2 + n > input.length
  · rw [if_pos hn, if_pos hn]
  rw [if_neg hn, if_neg hn, lengthLoop_eq input n 0 (off + 2) (by omega), foldl_eq_ofOctets,
    Nat.zero_mul, Nat.zero_add]
  rfl

/-- What is dropped to starts with the byte there. -/
theorem drop_eq_cons {b : Bytes} {p : ℕ} (hp : p < b.length) :
    b.drop p = byteAt b p :: b.drop (p + 1) := by
  have h := slice_succ (n := b.length) hp
  unfold slice at h
  rwa [List.take_of_length_le (by rw [List.length_drop]; omega),
    List.take_of_length_le (by rw [List.length_drop]; omega)] at h

/-- The end of the reader behind a length in this form. -/
theorem spanAt_shape {input : Bytes} {off len : ℕ} (form : LengthForm) {t : ValueSpan}
    (hoff : off < input.length)
    (hoctets : input.drop (off + 1) =
      form.octets len ++ input.drop (off + 1 + (form.octets len).length))
    (hp : off + 1 + (form.octets len).length ≤ input.length)
    (h : spanAt input off (off + 1 + (form.octets len).length) len = some t) :
    ∃ content, content.length = len ∧ t = elementSpan form off t.tag len ∧
      input.drop off = form.encode t.tag content ++ input.drop t.next := by
  unfold spanAt at h
  split at h
  · cases h
  next hfits =>
  cases h
  have hlen : (slice input (off + 1 + (form.octets len).length) len).length = len :=
    slice_length (by omega)
  refine ⟨_, hlen, rfl, ?_⟩
  have hback := List.take_append_drop len (input.drop (off + 1 + (form.octets len).length))
  rw [List.drop_drop] at hback
  unfold LengthForm.encode
  dsimp only
  rw [hlen, drop_eq_cons hoff, hoctets, List.cons_append, List.cons_append, List.append_assoc]
  unfold slice
  rw [hback]

/-- **The elements that `dtlv` reads**: a tag, a length in a form that has room for it, and as
many bytes. -/
theorem dtlv_iff (input : Bytes) (off : ℕ) (t : ValueSpan) :
    dtlv input off = some t ↔ ∃ form content, form.Fits content.length ∧
      t = elementSpan form off t.tag content.length ∧
      input.drop off = form.encode t.tag content ++ input.drop t.next := by
  rw [dtlv_eq]
  constructor
  · intro h
    simp only [Option.ite_none_left_eq_some] at h
    obtain ⟨hoff, htag, h⟩ := h
    have hsecond := drop_eq_cons (b := input) (p := off + 1) (by omega)
    split at h
    · next hshort =>
      have hoctets : LengthForm.short.octets (byteAt input (off + 1)).toNat =
          [byteAt input (off + 1)] := by
        simp [LengthForm.octets]
      obtain ⟨content, hlen, ht, hsplit⟩ := spanAt_shape .short
        (Nat.lt_of_not_le hoff) (by rw [hoctets, hsecond]; rfl)
        (by rw [hoctets]; exact Nat.lt_of_not_le htag) (by rw [hoctets]; exact h)
      exact ⟨.short, content, by rw [hlen]; exact hshort, by rw [hlen]; exact ht, hsplit⟩
    · next hlong =>
      obtain ⟨hn, h⟩ := Option.ite_none_left_eq_some.mp h
      have hbyte := UInt8.ofNat_toNat (x := byteAt input (off + 1))
      have hthird := drop_eq_cons (b := input) (p := off + 2) (by omega)
      have hvalue := (byteAt input (off + 2)).toNat_lt
      obtain hone | htwo : (byteAt input (off + 1)).toNat = 0x81 ∨
          (byteAt input (off + 1)).toNat = 0x82 := by omega
      · have hslice : ofOctets (slice input (off + 2) ((byteAt input (off + 1)).toNat - 0x80)) =
            (byteAt input (off + 2)).toNat := by
          rw [hone, slice_succ (by omega)]
          exact ofOctets_singleton _
        have hoctets : LengthForm.one.octets (byteAt input (off + 2)).toNat =
            [byteAt input (off + 1), byteAt input (off + 2)] := by
          rw [← hbyte, hone]
          simp [LengthForm.octets]
        rw [hslice, hone] at h
        rw [hone] at hn
        obtain ⟨content, hlen, ht, hsplit⟩ := spanAt_shape .one
          (Nat.lt_of_not_le hoff)
          (by rw [hoctets, hsecond, hthird]; rfl)
          (by rw [hoctets]; show off + 1 + 2 ≤ _; omega) (by rw [hoctets]; exact h)
        exact ⟨.one, content, by rw [hlen]; exact hvalue, by rw [hlen]; exact ht, hsplit⟩
      · have hfourth := drop_eq_cons (b := input) (p := off + 3) (by omega)
        have hlast := (byteAt input (off + 3)).toNat_lt
        have hslice : ofOctets (slice input (off + 2) ((byteAt input (off + 1)).toNat - 0x80)) =
            (byteAt input (off + 2)).toNat * 256 + (byteAt input (off + 3)).toNat := by
          rw [htwo, slice_succ (by omega), slice_succ (by omega)]
          show ofOctets ([byteAt input (off + 2)] ++ [byteAt input (off + 3)]) = _
          rw [ofOctets_concat, ofOctets_singleton]
          omega
        generalize hb2 : byteAt input (off + 2) = b2 at *
        generalize hb3 : byteAt input (off + 3) = b3 at *
        have hhigh : (b2.toNat * 256 + b3.toNat) / 256 = b2.toNat := by omega
        have hlow : UInt8.ofNat (b2.toNat * 256 + b3.toNat) = b3 := by
          rw [← UInt8.toNat_inj, UInt8.toNat_ofNat']
          omega
        have hoctets : LengthForm.two.octets (b2.toNat * 256 + b3.toNat) =
            [byteAt input (off + 1), b2, b3] := by
          rw [← hbyte, htwo]
          simp only [LengthForm.octets, hhigh, hlow, UInt8.ofNat_toNat]
          rfl
        rw [hslice, htwo] at h
        rw [htwo] at hn
        obtain ⟨content, hlen, ht, hsplit⟩ := spanAt_shape .two
          (Nat.lt_of_not_le hoff)
          (by rw [hoctets, hsecond, hthird, hfourth]; rfl)
          (by rw [hoctets]; show off + 1 + 3 ≤ _; omega) (by rw [hoctets]; exact h)
        exact ⟨.two, content, by rw [hlen]; show _ < 65536; omega, by rw [hlen]; exact ht, hsplit⟩
  · rintro ⟨form, content, hfits, ht, hdrop⟩
    have htotal := congrArg List.length hdrop
    rw [List.length_drop, List.length_append, length_encode] at htotal
    have hbyte := byteAt_of_drop hdrop
    have htag : byteAt input off = t.tag := hbyte 0
    have hspan : ∀ p, p = off + 1 + (form.octets content.length).length →
        spanAt input off p content.length = some t := by
      rintro p rfl
      unfold spanAt
      rw [if_neg (by omega), htag, ht]
      rfl
    cases form with
    | short =>
      have hlt : content.length < 128 := hfits
      have hlen : (byteAt input (off + 1)).toNat = content.length := by
        rw [hbyte 1]
        show (UInt8.ofNat content.length).toNat = _
        rw [UInt8.toNat_ofNat']
        omega
      simp only [LengthForm.octets, List.length_singleton] at htotal hspan
      rw [if_neg (by omega), if_neg (by omega), hlen, if_pos hlt]
      exact hspan _ rfl
    | one =>
      have hlt : content.length < 256 := hfits
      have hform : (byteAt input (off + 1)).toNat = 0x81 := by
        rw [hbyte 1]
        rfl
      have hlen : ofOctets (slice input (off + 2) 1) = content.length := by
        simp only [LengthForm.octets, List.length_cons, List.length_nil] at htotal
        rw [slice_succ (by omega), hbyte 2]
        show ofOctets [UInt8.ofNat content.length] = _
        rw [ofOctets_singleton, UInt8.toNat_ofNat']
        omega
      simp only [LengthForm.octets, List.length_cons, List.length_nil] at htotal hspan
      rw [if_neg (by omega), if_neg (by omega), hform, if_neg (by omega), if_neg (by omega), hlen]
      exact hspan _ rfl
    | two =>
      have hlt : content.length < 65536 := hfits
      have hform : (byteAt input (off + 1)).toNat = 0x82 := by
        rw [hbyte 1]
        rfl
      have hlen : ofOctets (slice input (off + 2) 2) = content.length := by
        simp only [LengthForm.octets, List.length_cons, List.length_nil] at htotal
        rw [slice_succ (by omega), slice_succ (by omega), hbyte 2, hbyte 3]
        show ofOctets ([UInt8.ofNat (content.length / 256)] ++ [UInt8.ofNat content.length]) = _
        rw [ofOctets_concat, ofOctets_singleton, UInt8.toNat_ofNat', UInt8.toNat_ofNat']
        omega
      simp only [LengthForm.octets, List.length_cons, List.length_nil] at htotal hspan
      rw [if_neg (by omega), if_neg (by omega), hform, if_neg (by omega), if_neg (by omega), hlen]
      exact hspan _ rfl

/-- The value of an element that was read. -/
theorem value_bytes {input content : Bytes} {off : ℕ} {form : LengthForm} {t : ValueSpan}
    (ht : t = elementSpan form off t.tag content.length)
    (h : input.drop off = form.encode t.tag content ++ input.drop t.next) :
    t.value.bytes input = content := by
  have hvalue : t.value = ⟨off + 1 + (form.octets content.length).length, content.length⟩ :=
    congrArg ValueSpan.value ht
  unfold LengthForm.encode at h
  unfold Span.bytes slice
  rw [hvalue]
  dsimp only
  rw [Nat.add_assoc, ← List.drop_drop, h, List.append_assoc,
    List.drop_left' (by simp [Nat.add_comm]), List.take_left]

/-- Reading an element that stands at an offset: its value, and what is behind it. -/
theorem dtlv_at {input content rest : Bytes} {off : ℕ} {form : LengthForm} {tag : UInt8}
    (hfits : form.Fits content.length) (h : input.drop off = form.encode tag content ++ rest) :
    ∃ t, dtlv input off = some t ∧ t.tag = tag ∧ t.value.bytes input = content ∧
      input.drop t.next = rest ∧ (rest = [] → t.next = input.length) := by
  have hnext : input.drop (elementSpan form off tag content.length).next = rest := by
    unfold elementSpan
    dsimp only
    rw [Nat.add_assoc, Nat.add_assoc, ← List.drop_drop, h]
    refine List.drop_left' ?_
    rw [length_encode, Nat.add_assoc]
  have hdrop : input.drop off =
      form.encode tag content ++ input.drop (elementSpan form off tag content.length).next := by
    rw [hnext, h]
  refine ⟨_, (dtlv_iff _ _ _).mpr ⟨form, content, hfits, rfl, hdrop⟩, rfl,
    value_bytes rfl hdrop, hnext, ?_⟩
  rintro rfl
  have htotal := congrArg List.length h
  rw [List.length_drop, List.append_nil, length_encode] at htotal
  unfold elementSpan
  dsimp only
  omega

/-! ## Integers -/

/-- The number without the zero that `parse_sig` skips. -/
def stripped (content : Bytes) : Bytes :=
  if content.length > 1 ∧ byteAt content 0 = 0 then content.drop 1 else content

/-- A zero in front counts nothing. -/
theorem ofOctets_stripped (content : Bytes) : ofOctets (stripped content) = ofOctets content := by
  unfold stripped
  split
  · next h =>
    obtain ⟨b, rest, rfl⟩ := List.exists_cons_of_length_pos (Nat.lt_of_succ_lt h.1)
    obtain rfl : b = 0 := h.2
    rw [ofOctets_cons]
    simp
  · rfl

/-- What is left has 1 to 32 bytes exactly for contents of 1 to 32, or 33 with a zero in front.
-/
theorem stripped_readable_iff (content : Bytes) :
    ¬ ((stripped content).length = 0 ∨ (stripped content).length > 32) ↔
      1 ≤ content.length ∧
        (content.length ≤ 32 ∨ content.length = 33 ∧ byteAt content 0 = 0) := by
  unfold stripped
  split
  · next h =>
    rw [List.length_drop]
    have := h.2
    constructor
    · intro hsize
      refine ⟨by omega, ?_⟩
      rcases Nat.lt_or_ge content.length 33 with hlt | hge
      · exact .inl (by omega)
      · exact .inr ⟨by omega, h.2⟩
    · omega
  · next h =>
    constructor
    · omega
    · rintro ⟨hpos, hle | ⟨hlen, hzero⟩⟩
      · omega
      · exact absurd ⟨by omega, hzero⟩ h

/-- The limbs are the number of the content. -/
theorem value_stripped {content : Bytes}
    (h : ¬ ((stripped content).length = 0 ∨ (stripped content).length > 32)) :
    Limbs.value (be (stripped content)) = ofOctets content := by
  rw [Limbs.value_fromOctets (by omega), ofOctets_stripped]

/-! ## The parser -/

/-- `parse_sig` reads exactly the encodings of readable texts. -/
theorem parseSig_iff (der : Bytes) (p : Limbs × Limbs) :
    parseSig der = some p ↔ ∃ t : SignatureText, t.Readable ∧ der = t.encode ∧
      p = (be (stripped t.r.content), be (stripped t.s.content)) := by
  unfold parseSig
  simp only [Option.bind_eq_bind, Option.bind_none, Option.bind_eq_some_iff, Option.pure_def,
    Option.ite_none_left_eq_some, Option.some.injEq]
  constructor
  · rintro ⟨seq, hseq, hwhole, a, ha, hatag, b, hb, hbwhole, hsizes, rfl⟩
    obtain ⟨form, content, hfits, hseqSpan, hseqDrop⟩ := (dtlv_iff _ _ _).mp hseq
    have hbody := value_bytes hseqSpan hseqDrop
    rw [hbody] at ha hb hbwhole hsizes ⊢
    obtain ⟨formR, r, hfitsR, haSpan, haDrop⟩ := (dtlv_iff _ _ _).mp ha
    obtain ⟨formS, s, hfitsS, hbSpan, hbDrop⟩ := (dtlv_iff _ _ _).mp hb
    rw [value_bytes haSpan haDrop, value_bytes hbSpan hbDrop] at hsizes ⊢
    push Not at hwhole hbwhole
    have hcontent : content = (SignatureText.mk form ⟨formR, r⟩ ⟨formS, s⟩).body := by
      rw [hbwhole.2, List.drop_length, List.append_nil] at hbDrop
      rw [List.drop_zero, hbDrop, hbwhole.1, not_not.mp hatag] at haDrop
      exact haDrop
    have hsizeR : ¬ ((stripped r).length = 0 ∨ (stripped r).length > 32) :=
      fun h => hsizes (h.imp id fun h => Or.inl h)
    have hsizeS : ¬ ((stripped s).length = 0 ∨ (stripped s).length > 32) :=
      fun h => hsizes (.inr (.inr h))
    obtain ⟨hposR, hleR⟩ := (stripped_readable_iff r).mp hsizeR
    obtain ⟨hposS, hleS⟩ := (stripped_readable_iff s).mp hsizeS
    refine ⟨⟨form, ⟨formR, r⟩, ⟨formS, s⟩⟩, ⟨?_, ⟨hfitsR, hposR, hleR⟩, ⟨hfitsS, hposS, hleS⟩⟩, ?_,
      rfl⟩
    · rw [← hcontent]
      exact hfits
    · rw [hwhole.2, List.drop_length, List.append_nil, List.drop_zero, hwhole.1,
        hcontent] at hseqDrop
      exact hseqDrop
  · rintro ⟨t, hreadable, hder, rfl⟩
    have hwhole : der.drop 0 = t.form.encode 0x30 t.body ++ [] := by
      rw [List.drop_zero, List.append_nil]
      exact hder
    obtain ⟨seq, hseq, hseqTag, hbody, -, hend⟩ := dtlv_at hreadable.fits hwhole
    obtain ⟨a, ha, haTag, hr, hnext, -⟩ :=
      @dtlv_at t.body _ t.s.encode 0 _ _ hreadable.r.fits rfl
    obtain ⟨b, hb, hbTag, hs, -, hbEnd⟩ :=
      @dtlv_at t.body _ [] a.next _ _ hreadable.s.fits (by rw [hnext, List.append_nil]; rfl)
    have hsizeR := (stripped_readable_iff t.r.content).mpr ⟨hreadable.r.pos, hreadable.r.le⟩
    have hsizeS := (stripped_readable_iff t.s.content).mpr ⟨hreadable.s.pos, hreadable.s.le⟩
    refine ⟨seq, hseq, by simp [hseqTag, hend rfl], a, ?_, by simp [haTag], b, ?_, ?_, ?_, ?_⟩
    · rw [hbody]
      exact ha
    · rw [hbody]
      exact hb
    · rw [hbody]
      simp [hbTag, hbEnd rfl]
    · rw [hbody, hr, hs]
      rintro (h | h | h)
      · exact hsizeR (.inl h)
      · exact hsizeR (.inr h)
      · exact hsizeS h
    · rw [hbody, hr, hs]
      rfl

/-! ## One text for a string -/

/-- The octets of a length determine its form. -/
theorem form_unique {form form' : LengthForm} {n : ℕ} {rest : Bytes} (hfits : form.Fits n)
    (hfits' : form'.Fits n) (h : form.octets n ++ rest = form'.octets n ++ rest) :
    form = form' := by
  have hbyte : byteAt (form.octets n ++ rest) 0 = byteAt (form'.octets n ++ rest) 0 := by rw [h]
  have hhead := congrArg UInt8.toNat hbyte
  cases form <;> cases form' <;>
    simp [LengthForm.octets, LengthForm.Fits, byteAt] at hfits hfits' hhead ⊢ <;> omega

/-- A string starts with one element at most. -/
theorem laxEncode_inj {form form' : LengthForm} {tag tag' : UInt8} {content content' : Bytes}
    {rest rest' : Bytes} (hfits : form.Fits content.length) (hfits' : form'.Fits content'.length)
    (h : form.encode tag content ++ rest = form'.encode tag' content' ++ rest') :
    form = form' ∧ content = content' ∧ rest = rest' := by
  have hwhole : (form.encode tag content ++ rest).drop 0 = form.encode tag content ++ rest := rfl
  have hwhole' : (form.encode tag content ++ rest).drop 0 = form'.encode tag' content' ++ rest' := h
  obtain ⟨t, ht, -, hvalue, hnext, -⟩ := dtlv_at hfits hwhole
  obtain ⟨t', ht', -, hvalue', hnext', -⟩ := dtlv_at hfits' hwhole'
  obtain rfl : t = t' := Option.some.inj (ht.symm.trans ht')
  obtain rfl : content = content' := hvalue.symm.trans hvalue'
  obtain rfl : rest = rest' := hnext.symm.trans hnext'
  have hoctets : form.octets content.length ++ content = form'.octets content.length ++ content :=
    List.tail_eq_of_cons_eq (List.append_cancel_right h)
  exact ⟨form_unique hfits hfits' hoctets, rfl, rfl⟩

/-- An INTEGER is its form and its content. -/
theorem integerText_ext {i j : IntegerText} (hform : i.form = j.form)
    (hcontent : i.content = j.content) : i = j := by
  cases i
  cases j
  cases hform
  cases hcontent
  rfl

/-- The encoding determines the text. -/
theorem signatureText_inj {t t' : SignatureText} (h : t.Readable) (h' : t'.Readable)
    (hsame : t.encode = t'.encode) : t = t' := by
  have hwhole : t.form.encode 0x30 t.body ++ [] = t'.form.encode 0x30 t'.body ++ [] := by
    rw [List.append_nil, List.append_nil]
    exact hsame
  obtain ⟨hform, hbody, -⟩ := laxEncode_inj h.fits h'.fits hwhole
  obtain ⟨hr, hrContent, hs⟩ := laxEncode_inj h.r.fits h'.r.fits hbody
  have hlast : t.s.encode ++ [] = t'.s.encode ++ [] := by rw [hs]
  obtain ⟨hs, hsContent, -⟩ := laxEncode_inj h.s.fits h'.s.fits hlast
  cases t
  cases t'
  cases hform
  cases integerText_ext hr hrContent
  cases integerText_ext hs hsContent
  rfl

/-! ## The form that DER takes -/

/-- The shortest form for a length. -/
def formOf (n : ℕ) : LengthForm := if n < 128 then .short else if n < 256 then .one else .two

/-- The shortest form fits its length. -/
theorem formOf_fits {n : ℕ} (hn : n < 65536) : (formOf n).Fits n := by
  unfold formOf
  split
  · assumption
  · split
    · assumption
    · exact hn

/-- The shortest form is minimal. -/
theorem formOf_minimal (n : ℕ) : (formOf n).Minimal n := by
  unfold formOf
  split
  · trivial
  · split
    · next h _ => exact Nat.le_of_not_lt h
    · next h => exact Nat.le_of_not_lt h

/-- A form that the code reads has a length of 16 bits. -/
theorem fits_lt {form : LengthForm} {n : ℕ} (h : form.Fits n) : n < 65536 := by
  cases form with
  | short => exact Nat.lt_trans h (by omega)
  | one => exact Nat.lt_trans h (by omega)
  | two => exact h

/-- Only the shortest form is minimal. -/
theorem eq_formOf {form : LengthForm} {n : ℕ} (hfits : form.Fits n) (hmin : form.Minimal n) :
    form = formOf n := by
  unfold formOf
  cases form with
  | short => exact (if_pos hfits).symm
  | one =>
    have hhigh : n < 256 := hfits
    rw [if_neg (Nat.not_lt_of_le hmin), if_pos hhigh]
  | two =>
    have hlow : 256 ≤ n := hmin
    rw [if_neg (by omega), if_neg (by omega)]

/-- The length octets of DER are those of the shortest form. -/
theorem derLength_eq {n : ℕ} (hn : n < 65536) : derLength n = (formOf n).octets n := by
  unfold derLength formOf
  by_cases hshort : n < 128
  · rw [if_pos hshort, if_pos hshort]
    rfl
  rw [if_neg hshort, if_neg hshort]
  have hlow : 7 < n.size := Nat.lt_size.mpr (by omega)
  by_cases hone : n < 256
  · have hhigh : n.size ≤ 8 := Nat.size_le.mpr hone
    rw [if_pos hone, show (n.size + 7) / 8 = 1 by omega]
    rfl
  · have hlow : 8 < n.size := Nat.lt_size.mpr (by omega)
    have hhigh : n.size ≤ 16 := Nat.size_le.mpr hn
    rw [if_neg hone, show (n.size + 7) / 8 = 2 by omega]
    rfl

/-- The element of DER is the one in the shortest form. -/
theorem derEncode_eq {content : Bytes} (h : content.length < 65536) (tag : UInt8) :
    derEncode tag content = (formOf content.length).encode tag content := by
  unfold derEncode LengthForm.encode
  rw [derLength_eq h]

/-! ## The numbers that DER takes -/

/-- The first bit of a number in all its octets. -/
theorem topBit_iff {content : Bytes} (hpos : 1 ≤ content.length) :
    0x80 ≤ (byteAt content 0).toNat ↔ 2 ^ (8 * content.length - 1) ≤ ofOctets content := by
  obtain ⟨b, rest, rfl⟩ := List.exists_cons_of_length_pos hpos
  have hrest := ofOctets_lt rest
  have hpow : 2 ^ (8 * (b :: rest).length - 1) = 256 ^ rest.length * 128 := by
    rw [List.length_cons, show 8 * (rest.length + 1) - 1 = 8 * rest.length + 7 by omega, pow_add,
      pow_mul]
    norm_num
  rw [hpow, ofOctets_cons]
  show 0x80 ≤ b.toNat ↔ _
  constructor
  · intro h
    exact Nat.le_trans (Nat.mul_le_mul_left _ h) (Nat.le_add_left _ _)
  · intro h
    by_contra hlow
    have hle : 256 ^ rest.length * b.toNat ≤ 256 ^ rest.length * 127 :=
      Nat.mul_le_mul_left _ (by omega)
    omega

/-- An INTEGER is as DER has it when it is not negative and has no needless zero. -/
theorem eq_derNatural_iff {i : IntegerText} (hpos : 1 ≤ i.content.length) :
    i.content = derNatural (ofOctets i.content) ↔ ¬ i.Negative ∧ ¬ i.NeedlessZero := by
  have hsize : i.content = derNatural (ofOctets i.content) ↔
      (ofOctets i.content).size / 8 + 1 = i.content.length := by
    unfold derNatural
    constructor
    · intro h
      have hlength := congrArg List.length h
      rw [length_toOctets] at hlength
      exact hlength.symm
    · intro h
      rw [h, toOctets_ofOctets]
  have hnegative : i.Negative ↔ 8 * i.content.length ≤ (ofOctets i.content).size := by
    unfold IntegerText.Negative
    rw [topBit_iff hpos, ← Nat.lt_size]
    omega
  have hzero : i.NeedlessZero ↔ 1 < i.content.length ∧
      (ofOctets i.content).size < 8 * (i.content.length - 1) := by
    unfold IntegerText.NeedlessZero
    refine and_congr_right fun hlong => ?_
    obtain ⟨b, rest, hcontent⟩ := List.exists_cons_of_length_pos hpos
    rw [hcontent, List.length_cons] at hlong ⊢
    have hpos' : 1 ≤ rest.length := by omega
    have htop := topBit_iff hpos'
    rw [← Nat.lt_size] at htop
    have hsecond : byteAt (b :: rest) 1 = byteAt rest 0 := rfl
    have hfirst : byteAt (b :: rest) 0 = b := rfl
    rw [hfirst, hsecond, Nat.add_sub_cancel]
    by_cases hb : b = 0
    · have hvalue : ofOctets (b :: rest) = ofOctets rest := by
        rw [ofOctets_cons, hb]
        simp
      rw [hvalue]
      simp only [hb, true_and]
      omega
    · have hlow : 256 ^ rest.length ≤ ofOctets (b :: rest) := by
        have hone : 1 ≤ b.toNat := Nat.pos_of_ne_zero fun h => hb (UInt8.toNat_inj.mp h)
        rw [ofOctets_cons]
        exact Nat.le_trans (Nat.le_mul_of_pos_right _ hone) (Nat.le_add_left _ _)
      rw [show 256 = 2 ^ 8 by norm_num, ← pow_mul, ← Nat.lt_size] at hlow
      simp only [hb, false_and, false_iff]
      omega
  rw [hsize, hnegative, hzero]
  omega

/-! ## The text in DER -/

/-- The text of an INTEGER in DER. -/
def derInteger (x : ℕ) : IntegerText := ⟨formOf (derNatural x).length, derNatural x⟩

/-- The text of a signature in DER. -/
def derText (r s : ℕ) : SignatureText :=
  ⟨formOf ((derInteger r).encode ++ (derInteger s).encode).length, derInteger r, derInteger s⟩

/-- A number of 256 bits takes at most 33 octets. -/
theorem derNatural_length_le {x : ℕ} (hx : x < 2 ^ 256) : (derNatural x).length ≤ 33 := by
  have hsize : x.size ≤ 256 := Nat.size_le.mpr hx
  unfold derNatural
  rw [length_toOctets]
  omega

/-- The octets of a number give it back. -/
theorem ofOctets_derNatural (x : ℕ) : ofOctets (derNatural x) = x := by
  unfold derNatural
  rw [ofOctets_toOctets, Nat.mod_eq_of_lt]
  calc x < 2 ^ x.size := Nat.lt_size_self x
    _ ≤ 2 ^ (8 * (x.size / 8 + 1)) := Nat.pow_le_pow_right (by omega) (by omega)
    _ = 256 ^ (x.size / 8 + 1) := by rw [pow_mul]; norm_num

/-- The INTEGER of DER of a number of 256 bits is readable. -/
theorem derInteger_readable {x : ℕ} (hx : x < 2 ^ 256) : (derInteger x).Readable := by
  have hle := derNatural_length_le hx
  have hpos : 1 ≤ (derNatural x).length := by
    unfold derNatural
    rw [length_toOctets]
    omega
  refine ⟨formOf_fits (Nat.lt_of_le_of_lt hle (by omega)), hpos, ?_⟩
  by_cases hshort : (derNatural x).length ≤ 32
  · exact .inl hshort
  · have hlong : (derNatural x).length = 33 := by omega
    refine .inr ⟨hlong, ?_⟩
    obtain ⟨b, rest, hcontent⟩ := List.exists_cons_of_length_pos hpos
    have hvalue := ofOctets_derNatural x
    rw [hcontent] at hlong
    rw [List.length_cons] at hlong
    rw [hcontent, ofOctets_cons, show rest.length = 32 by omega] at hvalue
    show byteAt (derNatural x) 0 = 0
    rw [hcontent]
    show b = 0
    by_contra hb
    have hone : 1 ≤ b.toNat := Nat.pos_of_ne_zero fun h => hb (UInt8.toNat_inj.mp h)
    have hbig : 256 ^ 32 * 1 ≤ 256 ^ 32 * b.toNat := Nat.mul_le_mul_left _ hone
    omega

/-- The signature of DER with numbers of 256 bits is readable. -/
theorem derText_readable {r s : ℕ} (hr : r < 2 ^ 256) (hs : s < 2 ^ 256) :
    (derText r s).Readable := by
  have hlength : ∀ {x : ℕ}, x < 2 ^ 256 → (derInteger x).encode.length ≤ 37 := by
    intro x hx
    have hle := derNatural_length_le hx
    have hoctets : ((derInteger x).form.octets (derInteger x).content.length).length ≤ 3 := by
      cases (derInteger x).form <;> simp [LengthForm.octets]
    have hcontent : (derInteger x).content.length ≤ 33 := hle
    unfold IntegerText.encode
    rw [length_encode]
    omega
  have hleR := hlength hr
  have hleS := hlength hs
  refine ⟨formOf_fits ?_, derInteger_readable hr, derInteger_readable hs⟩
  rw [List.length_append]
  omega

/-- The text of DER is encoded as DER. -/
theorem derText_encode {r s : ℕ} (hr : r < 2 ^ 256) (hs : s < 2 ^ 256) :
    (derText r s).encode = signatureDer r s := by
  have hinteger : ∀ {x : ℕ}, x < 2 ^ 256 →
      derEncode 0x02 (derNatural x) = (derInteger x).encode := by
    intro x hx
    exact derEncode_eq (Nat.lt_of_le_of_lt (derNatural_length_le hx) (by omega)) 0x02
  have hbody : (derText r s).body.length < 65536 := fits_lt (derText_readable hr hs).fits
  unfold signatureDer
  rw [hinteger hr, hinteger hs]
  exact (derEncode_eq hbody 0x30).symm

/-- The text of DER takes no liberties. -/
theorem derText_not_lax (r s : ℕ) : ¬ (derText r s).Lax := by
  have hinteger : ∀ x, ¬ (derInteger x).Lax := by
    intro x
    have hpos : 1 ≤ (derInteger x).content.length := by
      show 1 ≤ (derNatural x).length
      unfold derNatural
      rw [length_toOctets]
      omega
    have hnatural : (derInteger x).content = derNatural (ofOctets (derInteger x).content) := by
      show derNatural x = derNatural (ofOctets (derNatural x))
      rw [ofOctets_derNatural]
    obtain ⟨hnegative, hzero⟩ := (eq_derNatural_iff hpos).mp hnatural
    rintro (h | h | h)
    · exact h (formOf_minimal _)
    · exact hnegative h
    · exact hzero h
  rintro (h | h | h)
  · exact h (formOf_minimal _)
  · exact hinteger r h
  · exact hinteger s h

/-- A text that is not lax is the one in DER. -/
theorem eq_derText {t : SignatureText} (h : t.Readable) (hstrict : ¬ t.Lax) :
    t = derText (ofOctets t.r.content) (ofOctets t.s.content) := by
  have hinteger : ∀ {i : IntegerText}, i.Readable → ¬ i.Lax →
      i = derInteger (ofOctets i.content) := by
    intro i hi hstrict
    unfold IntegerText.Lax at hstrict
    push Not at hstrict
    have hcontent := (eq_derNatural_iff hi.pos).mpr hstrict.2
    refine integerText_ext ?_ hcontent
    show i.form = formOf (derNatural (ofOctets i.content)).length
    rw [← hcontent]
    exact eq_formOf hi.fits hstrict.1
  unfold SignatureText.Lax at hstrict
  push Not at hstrict
  have hr := hinteger h.r hstrict.2.1
  have hs := hinteger h.s hstrict.2.2
  have hform := eq_formOf h.fits hstrict.1
  obtain ⟨form, r, s⟩ := t
  unfold derText
  dsimp only at hr hs hform ⊢
  rw [← hr, ← hs]
  congr 1

/-! ## The main result -/

/-- The pairs that are reported. -/
theorem parsedPair_iff (der : Bytes) (r s : ℕ) :
    parsedPair der = some (r, s) ↔ ∃ t : SignatureText, t.Readable ∧ der = t.encode ∧
      r = ofOctets t.r.content ∧ s = ofOctets t.s.content := by
  unfold parsedPair
  rw [Option.map_eq_some_iff]
  constructor
  · rintro ⟨p, hp, hpair⟩
    obtain ⟨t, ht, hder, rfl⟩ := (parseSig_iff der p).mp hp
    obtain ⟨rfl, rfl⟩ := Prod.mk.inj hpair
    exact ⟨t, ht, hder,
      value_stripped ((stripped_readable_iff _).mpr ⟨ht.r.pos, ht.r.le⟩),
      value_stripped ((stripped_readable_iff _).mpr ⟨ht.s.pos, ht.s.le⟩)⟩
  · rintro ⟨t, ht, hder, rfl, rfl⟩
    refine ⟨_, (parseSig_iff der _).mpr ⟨t, ht, hder, rfl⟩, ?_⟩
    rw [value_stripped ((stripped_readable_iff _).mpr ⟨ht.r.pos, ht.r.le⟩),
      value_stripped ((stripped_readable_iff _).mpr ⟨ht.s.pos, ht.s.le⟩)]

/-- A readable INTEGER has 256 bits. -/
theorem readable_lt {i : IntegerText} (h : i.Readable) : ofOctets i.content < 2 ^ 256 := by
  have hsize := (stripped_readable_iff i.content).mpr ⟨h.pos, h.le⟩
  have hlt := ofOctets_lt (stripped i.content)
  have hpow : 256 ^ (stripped i.content).length ≤ 256 ^ 32 :=
    Nat.pow_le_pow_right (by omega) (by omega)
  rw [ofOctets_stripped] at hlt
  calc ofOctets i.content < 256 ^ 32 := Nat.lt_of_lt_of_le hlt hpow
    _ = 2 ^ 256 := by norm_num

/-- **Signatures that are not in DER are accepted**: a string is taken for the pairs of which it
is the encoding in DER, and for no other, unless it is a text of a pair with a length that is
longer than it needs to be, with a negative number or with a needless zero. -/
theorem acceptedAsDer_iff (der : Bytes) : AcceptedAsDer der ↔ ¬ LaxSignature der := by
  constructor
  · rintro haccepted ⟨t, ht, hlax, hder⟩
    obtain ⟨hr, hs, hsame⟩ := (haccepted _ _).mp
      ((parsedPair_iff der _ _).mpr ⟨t, ht, hder, rfl, rfl⟩)
    rw [hder, ← derText_encode hr hs] at hsame
    have heq := signatureText_inj ht (derText_readable hr hs) hsame
    rw [heq] at hlax
    exact derText_not_lax _ _ hlax
  · intro hstrict r s
    rw [parsedPair_iff]
    constructor
    · rintro ⟨t, ht, hder, rfl, rfl⟩
      have hr := readable_lt ht.r
      have hs := readable_lt ht.s
      have heq := eq_derText ht fun hlax => hstrict ⟨t, ht, hlax, hder⟩
      refine ⟨hr, hs, ?_⟩
      rw [← derText_encode hr hs, ← heq]
      exact hder
    · rintro ⟨hr, hs, hder⟩
      refine ⟨derText r s, derText_readable hr hs, ?_, ?_, ?_⟩
      · rw [derText_encode hr hs]
        exact hder
      · exact (ofOctets_derNatural r).symm
      · exact (ofOctets_derNatural s).symm

/-- Both numbers 1, the first with a zero in front. -/
def zeroInFront : Bytes := [0x30, 0x07, 0x02, 0x02, 0x00, 0x01, 0x02, 0x01, 0x01]

/-- The string is accepted beside the encoding of the same pair. -/
theorem zeroInFront_accepted : parsedPair zeroInFront = some (1, 1) ∧
    parsedPair (signatureDer 1 1) = some (1, 1) ∧ zeroInFront ≠ signatureDer 1 1 ∧
    ¬ AcceptedAsDer zeroInFront := by
  have hpair : parsedPair zeroInFront = some (1, 1) := by decide +kernel
  have hder : parsedPair (signatureDer 1 1) = some (1, 1) := by decide +kernel
  have hdiffer : zeroInFront ≠ signatureDer 1 1 := by decide +kernel
  exact ⟨hpair, hder, hdiffer, fun h => hdiffer ((h 1 1).mp hpair).2.2⟩

end XboxTls.Analysis
