import Mathlib.Algebra.Order.BigOperators.Group.List
import Mathlib.Algebra.Order.Ring.Int
import Mathlib.Tactic.Linarith
import Mathlib.Tactic.Positivity
import Mathlib.Tactic.Ring

/-!
# Numbers in signed limbs

A list of integers, the least significant first, stands for a number in some radix, also when its
members are negative or too large to be digits.  A pass over the list that carries from each
member to the next leaves digits and a last carry: the quotient and the remainder by a power of
the radix.
-/

set_option autoImplicit false

namespace Programs

namespace SignedLimbs

variable (B : ℤ)

/-! ## The number -/

/-- The number in radix `B`. -/
def value : List ℤ → ℤ
  | [] => 0
  | x :: l => x + B * value l

/-- No members are zero. -/
@[simp] theorem value_nil : value B [] = 0 := rfl

/-- The first member counts once, the others `B` times. -/
@[simp] theorem value_cons (x : ℤ) (l : List ℤ) : value B (x :: l) = x + B * value B l := rfl

/-- The members behind count more. -/
theorem value_append (l m : List ℤ) :
    value B (l ++ m) = value B l + B ^ l.length * value B m := by
  induction l with
  | nil => simp
  | cons x l ih =>
    rw [List.cons_append, value_cons, ih, value_cons, List.length_cons, pow_succ]
    ring

/-- A member that grows. -/
theorem value_set {l : List ℤ} {i : ℕ} (hi : i < l.length) (x : ℤ) :
    value B (l.set i (l.getD i 0 + x)) = value B l + B ^ i * x := by
  induction l generalizing i with
  | nil => simp at hi
  | cons y l ih =>
    cases i with
    | zero =>
      simp
      ring
    | succ i =>
      have hrest := ih (by simpa using hi)
      simp only [List.set_cons_succ, List.getD_cons_succ, value_cons, hrest, pow_succ]
      ring

/-- A sum member by member has the value of the sum. -/
theorem value_zipWith_add {l m : List ℤ} (h : l.length = m.length) :
    value B (List.zipWith (· + ·) l m) = value B l + value B m := by
  induction l generalizing m with
  | nil =>
    cases m with
    | nil => rfl
    | cons y m => cases h
  | cons x l ih =>
    cases m with
    | nil => cases h
    | cons y m =>
      have hlen : l.length = m.length := by simpa using h
      simp only [List.zipWith_cons_cons, value_cons, ih hlen]
      ring

/-- A difference member by member has the value of the difference. -/
theorem value_zipWith_sub {l m : List ℤ} (h : l.length = m.length) :
    value B (List.zipWith (· - ·) l m) = value B l - value B m := by
  induction l generalizing m with
  | nil =>
    cases m with
    | nil => rfl
    | cons y m => cases h
  | cons x l ih =>
    cases m with
    | nil => cases h
    | cons y m =>
      have hlen : l.length = m.length := by simpa using h
      simp only [List.zipWith_cons_cons, value_cons, ih hlen]
      ring

/-- Members between two bounds. -/
def MembersIn (lo hi : ℤ) (l : List ℤ) : Prop := ∀ x ∈ l, lo ≤ x ∧ x ≤ hi

variable {B}

/-- The number of digits lies below the power of the radix. -/
theorem value_nonneg {l : List ℤ} (hB : 0 < B) (hl : MembersIn 0 (B - 1) l) :
    0 ≤ value B l ∧ value B l < B ^ l.length := by
  induction l with
  | nil => simp
  | cons x l ih =>
    have hx := hl x List.mem_cons_self
    obtain ⟨hlow, hhigh⟩ := ih fun y hy => hl y (List.mem_cons_of_mem x hy)
    rw [value_cons, List.length_cons, pow_succ']
    constructor
    · have := mul_nonneg hB.le hlow
      linarith
    · have := mul_le_mul_of_nonneg_left (Int.add_one_le_of_lt hhigh) hB.le
      linarith [hx.2]

/-! ## Carrying -/

variable (B)

/-- The digits that a pass leaves, from the carry `k` on. -/
def digits (k : ℤ) : List ℤ → List ℤ
  | [] => []
  | x :: l => (x + k) % B :: digits ((x + k) / B) l

/-- The carry that a pass ends with. -/
def carries (k : ℤ) : List ℤ → ℤ
  | [] => k
  | x :: l => carries ((x + k) / B) l

/-- There are as many digits as members. -/
@[simp] theorem length_digits (k : ℤ) (l : List ℤ) : (digits B k l).length = l.length := by
  induction l generalizing k with
  | nil => rfl
  | cons x l ih => simp [digits, ih]

/-- The digits go on with the carry of the members in front. -/
theorem digits_append (k : ℤ) (l m : List ℤ) :
    digits B k (l ++ m) = digits B k l ++ digits B (carries B k l) m := by
  induction l generalizing k with
  | nil => rfl
  | cons x l ih => simp [digits, carries, ih]

/-- The carry goes on through the members behind. -/
theorem carries_append (k : ℤ) (l m : List ℤ) :
    carries B k (l ++ m) = carries B (carries B k l) m := by
  induction l generalizing k with
  | nil => rfl
  | cons x l ih => simp [carries, ih]

/-- Nothing is lost. -/
theorem value_digits (k : ℤ) (l : List ℤ) :
    value B (digits B k l) + B ^ l.length * carries B k l = value B l + k := by
  induction l generalizing k with
  | nil => simp [digits, carries]
  | cons x l ih =>
    have hrest := ih ((x + k) / B)
    have hdiv := Int.emod_add_mul_ediv (x + k) B
    calc value B (digits B k (x :: l)) + B ^ (x :: l).length * carries B k (x :: l)
        = (x + k) % B + B * (value B (digits B ((x + k) / B) l) +
            B ^ l.length * carries B ((x + k) / B) l) := by
          simp only [digits, carries, value_cons, List.length_cons, pow_succ]
          ring
      _ = (x + k) % B + B * ((x + k) / B) + B * value B l := by rw [hrest]; ring
      _ = value B (x :: l) + k := by rw [hdiv, value_cons]; ring

variable {B}

/-- Every digit is from 0 to `B - 1`. -/
theorem between_digits (hB : 0 < B) (k : ℤ) (l : List ℤ) : MembersIn 0 (B - 1) (digits B k l) := by
  induction l generalizing k with
  | nil => simp [digits, MembersIn]
  | cons x l ih =>
    intro y hy
    rcases List.mem_cons.mp hy with rfl | hy
    · exact ⟨Int.emod_nonneg _ hB.ne', by linarith [Int.emod_lt_of_pos (x + k) hB]⟩
    · exact ih _ y hy

/-- Digits carry nothing. -/
theorem digits_eq_self {l : List ℤ} (hl : MembersIn 0 (B - 1) l) :
    digits B 0 l = l ∧ carries B 0 l = 0 := by
  induction l with
  | nil => exact ⟨rfl, rfl⟩
  | cons x l ih =>
    have hx := hl x List.mem_cons_self
    obtain ⟨hdigits, hcarries⟩ := ih fun y hy => hl y (List.mem_cons_of_mem x hy)
    have hlow : x % B = x := Int.emod_eq_of_lt hx.1 (by omega)
    have hrest : x / B = 0 := Int.ediv_eq_zero_of_lt hx.1 (by omega)
    simp only [digits, carries, add_zero, hlow, hrest, hdigits, hcarries, and_self]

/-- The last carry is the quotient, and the digits are those of the remainder. -/
theorem carries_eq (hB : 0 < B) (k : ℤ) (l : List ℤ) :
    carries B k l = (value B l + k) / B ^ l.length ∧
      value B (digits B k l) = (value B l + k) % B ^ l.length := by
  have hsum := value_digits B k l
  obtain ⟨hlow, hhigh⟩ := value_nonneg hB (between_digits hB k l)
  rw [length_digits] at hhigh
  have hpow : 0 < B ^ l.length := by positivity
  constructor
  · rw [← hsum, Int.add_mul_ediv_left _ _ hpow.ne', Int.ediv_eq_zero_of_lt hlow hhigh, zero_add]
  · rw [← hsum, Int.add_mul_emod_self_left, Int.emod_eq_of_lt hlow hhigh]

/-- Carries stay small. -/
theorem abs_carries_le (hB : 2 ≤ B) {c : ℤ} {l : List ℤ} (hl : MembersIn (-c) c l) {k : ℤ}
    (hk : |k| ≤ c + 1) (hc : 0 ≤ c) : |carries B k l| ≤ c + 1 := by
  induction l generalizing k with
  | nil => exact hk
  | cons x l ih =>
    have hx := hl x List.mem_cons_self
    rw [abs_le] at hk
    apply ih fun y hy => hl y (List.mem_cons_of_mem x hy)
    rw [abs_le]
    have hlow : -(c + 1) * B ≤ x + k := by nlinarith
    have hhigh : x + k < (c + 1 + 1) * B := by nlinarith
    constructor
    · exact (Int.le_ediv_iff_mul_le (by omega)).mpr hlow
    · exact Int.lt_add_one_iff.mp ((Int.ediv_lt_iff_lt_mul (by omega)).mpr hhigh)

end SignedLimbs

end Programs
