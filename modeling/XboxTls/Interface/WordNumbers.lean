import XboxTls.Model.WordNumbers

/-!
# Exact arithmetic on multi-word numbers

What it means that a routine on numbers in fixed arrays is the operation on integers modulo a
number: it stays within the arrays, and what it returns is trimmed, below the modulus and the
residue of the result.
-/

set_option autoImplicit false

namespace XboxTls.Interface

open Programs

variable {cap : ℕ}

/-- The number in the words in use. -/
def number (a : WordArray cap) : ℕ := Limbs.value (a.w.val.take a.n)

/-- The last word in use is not zero, and all words behind it are. -/
structure Trimmed (a : WordArray cap) : Prop where
  count_le : a.n ≤ cap
  last : ∀ i, a.n = i + 1 → a.w.val.getD i 0 ≠ 0
  higher : ∀ i, a.n ≤ i → a.w.val.getD i 0 = 0

/-- A modulus that leaves a word of the array free. -/
structure WordModulus (cap : ℕ) where
  m : WordArray cap
  trimmed : Trimmed m
  one_lt : 1 < number m
  lt : number m < 2 ^ (32 * (cap - 1))

/-- A number below the modulus. -/
structure WordModulus.Operand (M : WordModulus cap) where
  a : WordArray cap
  trimmed : Trimmed a
  lt : number a < number M.m

/-- Any number in an array. -/
structure Exponent (cap : ℕ) where
  e : WordArray cap
  count_le : e.n ≤ cap

/-- The routine returns the residue of `z`. -/
def Exactly (M : WordModulus cap) (x : Infallible (WordArray cap)) (z : ℤ) : Prop :=
  ∃ r, x = pure r ∧ Trimmed r ∧ number r < number M.m ∧ (number r : ℤ) = z % number M.m

end XboxTls.Interface
