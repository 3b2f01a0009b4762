import Mathlib.Algebra.Group.Nat.Defs
import Mathlib.Data.List.Basic
import Mathlib.Tactic.Common

/-!
# Self-delimiting encodings

A `Framing` turns values into nonempty strings of symbols such that the string of a value
tells where it ends.  A receiver that holds the front of a concatenation of such strings
therefore holds some whole values and an unfinished one, and nothing else.
-/

set_option autoImplicit false

namespace Programs

/-- The values of `α` as strings of symbols of `β`.  `parse` reads the value at the front of
a string: what it makes of the value, and how many symbols it takes. -/
structure Framing (α β γ : Type) where
  encode : α → List β
  image : α → γ
  parse : List β → Option (γ × ℕ)
  encode_ne_nil : ∀ a, encode a ≠ []
  parse_encode : ∀ a rest, parse (encode a ++ rest) = some (image a, (encode a).length)
  parse_nil : parse [] = none
  parse_part : ∀ a part rest, part ++ rest = encode a → rest ≠ [] → parse part = none

namespace Framing

variable {α β γ : Type} (F : Framing α β γ)

/-- The strings of some values, one after the other. -/
def encodeAll (values : List α) : List β := values.flatMap F.encode

/-- No values take no symbols. -/
@[simp] theorem encodeAll_nil : F.encodeAll [] = [] := rfl

/-- The encoding of the first value stands before the others. -/
@[simp] theorem encodeAll_cons (a : α) (values : List α) :
    F.encodeAll (a :: values) = F.encode a ++ F.encodeAll values := by
  simp [encodeAll]

/-- A value takes at least one symbol. -/
theorem encode_length_pos (a : α) : 0 < (F.encode a).length :=
  List.length_pos_of_ne_nil (F.encode_ne_nil a)

/-- Every value takes at least one symbol. -/
theorem length_le_encodeAll (values : List α) : values.length ≤ (F.encodeAll values).length := by
  induction values with
  | nil => simp
  | cons a values ih =>
    have ha := F.encode_length_pos a
    simp only [encodeAll_cons, List.length_append, List.length_cons]
    omega

/-- `tail` holds the front of the first of `values`, and not all of it. -/
structure Unfinished (values : List α) (tail : List β) : Prop where
  parse_eq : F.parse tail = none
  short : tail = [] ∨ ∃ a ∈ values, tail.length < (F.encode a).length

/-- What was received of a concatenation splits into whole values and an unfinished one. -/
theorem exists_split (values : List α) (received rest : List β)
    (h : received ++ rest = F.encodeAll values) :
    ∃ front back tail, values = front ++ back ∧ received = F.encodeAll front ++ tail ∧
      tail ++ rest = F.encodeAll back ∧ F.Unfinished back tail := by
  induction values generalizing received with
  | nil =>
    have hreceived : received = [] := (List.append_eq_nil_iff.mp h).1
    refine ⟨[], [], received, rfl, rfl, h, ?_, .inl hreceived⟩
    rw [hreceived]
    exact F.parse_nil
  | cons a values ih =>
    rw [encodeAll_cons] at h
    obtain ⟨more, hwhole, hmore⟩ | ⟨missing, hpart, hrest⟩ := List.append_eq_append_iff.mp h
    · by_cases hempty : more = []
      · -- the cut is at the end of `a`
        subst hempty
        rw [List.append_nil] at hwhole
        refine ⟨[a], values, [], rfl, ?_, ?_, F.parse_nil, .inl rfl⟩
        · simp [hwhole]
        · simpa using hmore
      · refine ⟨[], a :: values, received, rfl, rfl, ?_, ?_, ?_⟩
        · rw [encodeAll_cons, h]
        · exact F.parse_part a received more hwhole.symm hempty
        · have hpos := List.length_pos_of_ne_nil hempty
          have hlength := congrArg List.length hwhole
          rw [List.length_append] at hlength
          exact .inr ⟨a, List.mem_cons_self, by omega⟩
    · obtain ⟨front, back, tail, hvalues, hmissing, htail, hunfinished⟩ := ih missing hrest.symm
      refine ⟨a :: front, back, tail, ?_, ?_, htail, hunfinished⟩
      · rw [hvalues, List.cons_append]
      · rw [hpart, hmissing, encodeAll_cons, List.append_assoc]

/-- The unfinished value is the first one. -/
theorem Unfinished.length_lt_head {a : α} {values : List α} {tail rest : List β}
    (h : F.Unfinished (a :: values) tail) (hrest : tail ++ rest = F.encodeAll (a :: values)) :
    tail.length < (F.encode a).length := by
  rw [encodeAll_cons] at hrest
  by_contra hlong
  obtain ⟨more, hmore⟩ := List.prefix_of_prefix_length_le ⟨_, rfl⟩ ⟨_, hrest⟩ (Nat.not_lt.mp hlong)
  have hnone := h.parse_eq
  rw [← hmore, F.parse_encode] at hnone
  cases hnone

/-- The unfinished value is shorter than any bound on the strings of the values. -/
theorem Unfinished.length_lt {values : List α} {tail : List β} (h : F.Unfinished values tail)
    {bound : ℕ} (hbound : ∀ a ∈ values, (F.encode a).length ≤ bound) :
    tail.length ≤ bound - 1 := by
  obtain hnil | ⟨a, hmem, hlt⟩ := h.short
  · simp [hnil]
  · have := hbound a hmem
    omega

end Framing

end Programs
