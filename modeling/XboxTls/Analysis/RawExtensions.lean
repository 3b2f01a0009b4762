import XboxTls.Analysis.ByteStrings
import XboxTls.Interface.ServerHelloGrammar

/-!
# Strings of extensions

A string of extensions says which extensions it is made of, and a loop that applies them one
after the other leaves in a field what the last extension of its type says (`foldl_read`).
-/

set_option autoImplicit false

namespace XboxTls.Analysis

open XboxTls.Model XboxTls.Interface

/-! ## Strings of extensions -/

namespace RawExtensions

open RawExtension

/-- An extension adds four bytes to its body. -/
theorem encode_length (e : RawExtension) : e.encode.length = e.body.length + 4 := by
  simp only [encode, List.length_append, storeBe16_length]
  omega

/-- No extensions take no bytes. -/
@[simp] theorem encodeAll_nil : encodeAll [] = [] := rfl

/-- The first extension stands before the others. -/
@[simp] theorem encodeAll_cons (e : RawExtension) (es : List RawExtension) :
    encodeAll (e :: es) = e.encode ++ encodeAll es := by
  simp [encodeAll]

/-- Every extension takes at least one byte. -/
theorem length_le_encodeAll (es : List RawExtension) : es.length ≤ (encodeAll es).length := by
  induction es with
  | nil => simp
  | cons e es ih =>
    rw [encodeAll_cons, List.length_append, encode_length, List.length_cons]
    omega

/-- An extension starts with its type. -/
theorem loadType (e : RawExtension) (rest : Bytes) : loadBe16 (e.encode ++ rest) 0 = e.type := by
  rw [encode, List.append_assoc, List.append_assoc]
  exact loadBe16_storeBe16 e.type e.typeBound _

/-- The length of the body follows the type. -/
theorem loadLength (e : RawExtension) (rest : Bytes) :
    loadBe16 (e.encode ++ rest) 2 = e.body.length := by
  have hdrop : (e.encode ++ rest).drop 2 = storeBe16 e.body.length ++ (e.body ++ rest) := by
    rw [encode, List.append_assoc, List.append_assoc]
    exact @List.drop_left _ (storeBe16 e.type) _
  have hload := loadBe16_drop (e.encode ++ rest) 2 0
  rw [hdrop, loadBe16_storeBe16 _ e.bodyBound] at hload
  exact hload.symm

/-- The body follows the length. -/
theorem drop_encode (e : RawExtension) (rest : Bytes) :
    (e.encode ++ rest).drop 4 = e.body ++ rest := by
  rw [encode, List.append_assoc]
  exact @List.drop_left _ (storeBe16 e.type ++ storeBe16 e.body.length) _

/-- An extension can be told from what follows. -/
theorem encode_append_inj {e e' : RawExtension} {rest rest' : Bytes}
    (h : e.encode ++ rest = e'.encode ++ rest') : e = e' ∧ rest = rest' := by
  have htype : e.type = e'.type := by rw [← loadType e rest, h, loadType]
  have hlength : e.body.length = e'.body.length := by rw [← loadLength e rest, h, loadLength]
  have hboth : e.body ++ rest = e'.body ++ rest' := by rw [← drop_encode, h, drop_encode]
  obtain ⟨hbody, hrest⟩ := List.append_inj hboth hlength
  refine ⟨?_, hrest⟩
  cases e
  cases e'
  cases htype
  cases hbody
  rfl

/-- The bytes determine the extensions. -/
theorem encodeAll_inj {es es' : List RawExtension} (h : encodeAll es = encodeAll es') :
    es = es' := by
  induction es generalizing es' with
  | nil =>
    cases es' with
    | nil => rfl
    | cons e' es' =>
      have hlength := congrArg List.length h
      simp only [encodeAll_nil, encodeAll_cons, List.length_append, encode_length,
        List.length_nil] at hlength
      omega
  | cons e es ih =>
    cases es' with
    | nil =>
      have hlength := congrArg List.length h
      simp only [encodeAll_nil, encodeAll_cons, List.length_append, encode_length,
        List.length_nil] at hlength
      omega
    | cons e' es' =>
      rw [encodeAll_cons, encodeAll_cons] at h
      obtain ⟨rfl, hrest⟩ := encode_append_inj h
      rw [ih hrest]

/-- Bytes that hold a type, a length and as many bytes as it says start with an extension. -/
theorem exists_extension {b : Bytes} (h4 : 4 ≤ b.length)
    (hfits : 4 + loadBe16 b 2 ≤ b.length) :
    ∃ e : RawExtension, b = e.encode ++ b.drop (4 + loadBe16 b 2) := by
  have hlength : (slice b 4 (loadBe16 b 2)).length = loadBe16 b 2 := slice_length hfits
  have htype := loadBe16_le b 0
  have hbound := loadBe16_le b 2
  have hfront : b.take (4 + loadBe16 b 2) =
      storeBe16 (loadBe16 b 0) ++ storeBe16 (slice b 4 (loadBe16 b 2)).length ++
        slice b 4 (loadBe16 b 2) := by
    rw [hlength, ← slice_two (by omega), ← slice_two (by omega), slice_append_slice,
      slice_append_slice]
    simp [slice]
  refine ⟨⟨loadBe16 b 0, slice b 4 (loadBe16 b 2), by omega, by omega⟩, ?_⟩
  unfold encode
  rw [← hfront, List.take_append_drop]

/-! ## The last extension of a type -/

/-- The last body of a type is that of the tail, or else of the head. -/
theorem lastBody_cons (t : ℕ) (e : RawExtension) (es : List RawExtension) :
    lastBody t (e :: es) =
      (lastBody t es).or (if e.type = t then some e.body else none) := by
  unfold lastBody
  by_cases h : e.type = t
  · rw [List.filter_cons_of_pos (by simpa using h), if_pos h, List.getLast?_cons]
    cases (es.filter fun e => e.type = t).getLast? <;> rfl
  · rw [List.filter_cons_of_neg (by simpa using h), if_neg h, Option.or_none]

/-- Reading the extensions one after the other, a field that those of one type set holds what
the last of them says. -/
theorem foldl_read {σ β : Type} (step : σ → RawExtension → σ) (read : σ → β) (t : ℕ)
    (f : Bytes → β)
    (hread : ∀ s e, read (step s e) = if e.type = t then f e.body else read s)
    (es : List RawExtension) (s : σ) :
    read (es.foldl step s) = ((lastBody t es).map f).getD (read s) := by
  induction es generalizing s with
  | nil => rfl
  | cons e es ih =>
    rw [List.foldl_cons, ih, hread, lastBody_cons]
    cases lastBody t es with
    | some body => rfl
    | none => by_cases h : e.type = t <;> simp [h]

/-- The last body is that of an extension. -/
theorem exists_mem_of_lastBody {t : ℕ} {es : List RawExtension} {body : Bytes}
    (h : lastBody t es = some body) : ∃ e ∈ es, e.type = t ∧ e.body = body := by
  unfold lastBody at h
  obtain ⟨e, hlast, hbody⟩ := Option.map_eq_some_iff.mp h
  obtain ⟨hmem, htype⟩ := List.mem_filter.mp (List.mem_of_getLast? hlast)
  exact ⟨e, hmem, by simpa using htype, hbody⟩

end RawExtensions

end XboxTls.Analysis
