import Mathlib.Data.Int.Bitwise
import Mathlib.Tactic.Linarith
import Mathlib.Tactic.Positivity
import Mathlib.Tactic.Ring

/-!
# Signed arithmetic of 64 bits that stops at an overflow

A signed number of 64 bits is the integer that it stands for.  Sums, differences, products and
left shifts are checked: where the result does not fit, there is none.  The operations on bits
are those of the two's complement and always fit.
-/

set_option autoImplicit false

namespace Programs

/-! ## Numbers -/

/-- The number, if 64 bits hold it. -/
def checked (x : ℤ) : Option ℤ := if -2 ^ 63 ≤ x ∧ x < 2 ^ 63 then some x else none

/-- `a + b`. -/
def addChecked (a b : ℤ) : Option ℤ := checked (a + b)

/-- `a - b`. -/
def subChecked (a b : ℤ) : Option ℤ := checked (a - b)

/-- `a * b`. -/
def mulChecked (a b : ℤ) : Option ℤ := checked (a * b)

/-- `a << n`. -/
def shlChecked (a : ℤ) (n : ℕ) : Option ℤ := checked (a * 2 ^ n)

/-- `a >> n`, which rounds down. -/
def shr (a : ℤ) (n : ℕ) : ℤ := Int.shiftRight a n

/-- A shift to the right is a division that rounds down. -/
theorem shr_eq (a : ℤ) (n : ℕ) : shr a n = a / 2 ^ n := by
  have hshift := Int.shiftRight_eq_div_pow a n
  rw [Nat.cast_pow, Nat.cast_ofNat] at hshift
  exact hshift

/-- A number far inside 64 bits is in range. -/
theorem checked_of_abs_le {x : ℤ} (h : |x| ≤ 2 ^ 62) : checked x = some x := by
  rw [abs_le] at h
  exact if_pos (by omega)

/-- A bit put below a number. -/
theorem two_mul_add_emod {y b m : ℤ} (hm : 0 < m) (hb : 0 ≤ b) (hb' : b ≤ 1) :
    (2 * y + b) % (2 * m) = 2 * (y % m) + b := by
  have hlow := Int.emod_nonneg y hm.ne'
  have hhigh := Int.emod_lt_of_pos y hm
  have hsplit : 2 * y + b = 2 * (y % m) + b + 2 * m * (y / m) := by
    linarith [Int.emod_add_mul_ediv y m]
  rw [hsplit, Int.add_mul_emod_self_left, Int.emod_eq_of_lt (by omega) (by omega)]

/-- The low `n` bits. -/
theorem land_mask (x : ℤ) (n : ℕ) : Int.land x (2 ^ n - 1) = x % 2 ^ n := by
  induction n generalizing x with
  | zero =>
    have hzero : Int.land x 0 = 0 := by
      cases x <;> simp [Int.land, Nat.ldiff]
    simpa [Int.emod_one] using hzero
  | succ n ih =>
    have hpos : (0 : ℤ) < 2 ^ n := by positivity
    have hmask : (2 ^ (n + 1) - 1 : ℤ) = Int.bit true (2 ^ n - 1) := by
      rw [Int.bit_val, pow_succ]
      simp
      ring
    rw [hmask]
    induction x using Int.bitCasesOn with
    | h b y =>
      rw [Int.land_bit, ih, Bool.and_true, Int.bit_val, Int.bit_val, pow_succ']
      cases b <;> exact (two_mul_add_emod hpos (by decide) (by decide)).symm

/-- Taking a difference of bits twice. -/
theorem xor_xor_cancel (x y : ℤ) : Int.xor x (Int.xor x y) = y := by
  cases x <;> cases y <;> simp [Int.xor]

/-- The exclusive or does not depend on the order. -/
theorem xor_comm (x y : ℤ) : Int.xor x y = Int.xor y x := by
  cases x <;> cases y <;> simp [Int.xor, Nat.xor_comm]

/-- The exclusive or with zero changes nothing. -/
theorem xor_zero (x : ℤ) : Int.xor x 0 = x := by
  cases x <;> simp [Int.xor]

/-- A mask of zeros leaves nothing. -/
theorem zero_land (x : ℤ) : Int.land 0 x = 0 := by
  cases x <;> simp [Int.land, Nat.ldiff]

/-- A mask of ones leaves the number. -/
theorem neg_one_land (x : ℤ) : Int.land (-1) x = x := by
  change Int.land (Int.negSucc 0) x = x
  cases x <;> simp [Int.land, Nat.ldiff]

/-! ## Loops -/

/-- The rule of a loop over `s, …, s + n - 1`: the invariant holds at the start, and each pass has
a result that keeps it. -/
theorem foldlM_range' {β : Type*} {s n : ℕ} {f : β → ℕ → Option β} {b : β} (Inv : ℕ → β → Prop)
    (hstart : Inv s b)
    (hpass : ∀ i, s ≤ i → i < s + n → ∀ b, Inv i b → ∃ b', f b i = some b' ∧ Inv (i + 1) b') :
    ∃ b', (List.range' s n).foldlM f b = some b' ∧ Inv (s + n) b' := by
  induction n with
  | zero => exact ⟨b, rfl, hstart⟩
  | succ n ih =>
    obtain ⟨b', hb', hinv⟩ := ih fun i hi hi' => hpass i hi (by omega)
    obtain ⟨b'', hb'', hinv'⟩ := hpass (s + n) (by omega) (by omega) b' hinv
    refine ⟨b'', ?_, hinv'⟩
    rw [List.range'_1_concat, List.foldlM_append, hb']
    simpa using hb''

/-- The rule of a loop over `0, …, n - 1`. -/
theorem foldlM_range {β : Type*} {n : ℕ} {f : β → ℕ → Option β} {b : β} (Inv : ℕ → β → Prop)
    (hstart : Inv 0 b) (hpass : ∀ i < n, ∀ b, Inv i b → ∃ b', f b i = some b' ∧ Inv (i + 1) b') :
    ∃ b', (List.range n).foldlM f b = some b' ∧ Inv n b' := by
  have hloop := foldlM_range' (n := n) Inv hstart fun i _ hi => hpass i (by omega)
  rwa [Nat.zero_add, ← List.range_eq_range'] at hloop

/-- A loop whose passes do not depend on each other. -/
theorem mapM_of_forall {α β : Type*} {l : List α} {f : α → Option β} {g : α → β}
    (h : ∀ i ∈ l, f i = some (g i)) : l.mapM f = some (l.map g) := by
  induction l with
  | nil => rfl
  | cons x l ih =>
    have hrest := ih fun i hi => h i (List.mem_cons_of_mem x hi)
    rw [List.mapM_cons, h x List.mem_cons_self, hrest]
    rfl

end Programs
