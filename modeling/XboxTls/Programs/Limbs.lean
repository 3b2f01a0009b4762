import Mathlib.Data.List.DropRight
import Mathlib.Data.Nat.Digits.Lemmas
import Mathlib.Data.Nat.Size
import Mathlib.Data.Nat.ModEq
import XboxTls.Programs.Octets

/-!
# Numbers in limbs

Natural numbers as lists of 32-bit limbs, the least significant first, and the routines on
them of a program that keeps carries and borrows itself.  A list is `Normal` if its last limb is
not zero; on normal lists every routine computes what its name says of the values.
-/

set_option autoImplicit false

namespace Programs

/-- The limbs of a number, the least significant first. -/
abbrev Limbs : Type := List UInt32

namespace Limbs

/-! ## Values -/

/-- The number that the limbs stand for. -/
def value (a : Limbs) : ℕ := Nat.ofDigits (2 ^ 32) (a.map UInt32.toNat)

/-- No limbs are zero. -/
@[simp] theorem value_nil : value [] = 0 := rfl

/-- The first limb counts once, the others `2 ^ 32` times. -/
@[simp] theorem value_cons (w : UInt32) (a : Limbs) :
    value (w :: a) = w.toNat + 2 ^ 32 * value a := by
  simp only [value, List.map_cons, Nat.ofDigits_cons]

/-- The limbs behind count more. -/
theorem value_append (a b : Limbs) :
    value (a ++ b) = value a + (2 ^ 32) ^ a.length * value b := by
  simp only [value, List.map_append, Nat.ofDigits_append, List.length_map]

/-- `n` limbs are less than `(2 ^ 32) ^ n`. -/
theorem value_lt (a : Limbs) : value a < (2 ^ 32) ^ a.length := by
  induction a with
  | nil => simp
  | cons w a ih =>
    have hw := w.toNat_lt
    rw [value_cons, List.length_cons, pow_succ (2 ^ 32) a.length]
    omega

/-- The head and the rest of the first limbs. -/
theorem value_take_succ (a : Limbs) (n : ℕ) :
    value (a.take (n + 1)) = (a.headD 0).toNat + 2 ^ 32 * value (a.tail.take n) := by
  cases a <;> simp

/-- One limb more adds its value at its place; a missing one is zero. -/
theorem value_take_getD (a : Limbs) (n : ℕ) :
    value (a.take (n + 1)) = value (a.take n) + (2 ^ 32) ^ n * (a.getD n 0).toNat := by
  induction n generalizing a with
  | zero => cases a <;> simp
  | succ n ih =>
    cases a with
    | nil => simp
    | cons w a =>
      simp only [List.take_succ_cons, value_cons, List.getD_cons_succ]
      rw [ih a]
      ring

/-! ## Normal lists -/

/-- No zero limb stands at the end. -/
def Normal (a : Limbs) : Prop := ∀ w, a.getLast? = some w → w ≠ 0

/-- The zero limbs at the end are dropped. -/
def trim (a : Limbs) : Limbs := a.rdropWhile (· = 0)

/-- No limbs are normal. -/
theorem normal_nil : Normal [] := by
  intro w h
  cases h

/-- Trimmed limbs are normal. -/
theorem normal_trim (a : Limbs) : Normal (trim a) := by
  intro w h hw
  have hne : trim a ≠ [] := by
    intro hnil
    rw [hnil] at h
    cases h
  have hlast := List.rdropWhile_last_not (· = (0 : UInt32)) a hne
  rw [List.getLast?_eq_some_getLast hne] at h
  cases h
  exact hlast (decide_eq_true hw)

/-- The zero limbs at the end count nothing. -/
@[simp] theorem value_trim (a : Limbs) : value (trim a) = value a := by
  induction a using List.reverseRecOn with
  | nil => rfl
  | append_singleton a w ih =>
    unfold trim at ih ⊢
    by_cases hw : w = 0
    · rw [List.rdropWhile_concat_pos (fun x => decide (x = 0)) a w (decide_eq_true hw), ih,
        value_append, hw]
      simp
    · rw [List.rdropWhile_concat_neg (fun x => decide (x = 0)) a w (by simpa using hw)]

/-- The last limb gives a normal number its size. -/
theorem Normal.pow_le {a : Limbs} (ha : Normal a) (hne : a ≠ []) :
    (2 ^ 32) ^ (a.length - 1) ≤ value a := by
  obtain ⟨front, w, rfl⟩ := (List.eq_nil_or_concat a).resolve_left hne
  have hw : w ≠ 0 := ha w (by simp)
  have hpos : 0 < w.toNat := Nat.pos_of_ne_zero fun h => hw (UInt32.toNat_inj.mp h)
  rw [List.concat_eq_append, value_append, List.length_append]
  calc (2 ^ 32) ^ (front.length + 1 - 1)
      ≤ (2 ^ 32) ^ front.length * w.toNat := Nat.le_mul_of_pos_right _ hpos
    _ ≤ _ := by simp

/-- Only no limbs at all are zero, if they are normal. -/
theorem Normal.value_eq_zero {a : Limbs} (ha : Normal a) : value a = 0 ↔ a = [] := by
  constructor
  · intro h
    by_contra hne
    have hle := ha.pow_le hne
    have hpos : 0 < (2 ^ 32) ^ (a.length - 1) := Nat.pow_pos (by omega)
    omega
  · rintro rfl
    rfl

/-- A smaller number has no more limbs. -/
theorem Normal.length_le {a b : Limbs} (ha : Normal a) (h : value a ≤ value b) :
    a.length ≤ b.length := by
  by_contra hlt
  have hne : a ≠ [] := by
    rintro rfl
    exact hlt (Nat.zero_le _)
  have hlow := ha.pow_le hne
  have hhigh := value_lt b
  have hpow : (2 ^ 32) ^ b.length ≤ (2 ^ 32) ^ (a.length - 1) :=
    Nat.pow_le_pow_right (by omega) (by omega)
  omega

/-! ## Comparison -/

/-- The comparison of the limbs below `i`, from the top down. -/
def cmpFrom (a b : Limbs) : ℕ → Int
  | 0 => 0
  | i + 1 =>
    if a.getD i 0 ≠ b.getD i 0 then (if a.getD i 0 < b.getD i 0 then -1 else 1)
    else cmpFrom a b i

/-- First the numbers of limbs, and then the limbs. -/
def cmp (a b : Limbs) : Int :=
  if a.length ≠ b.length then (if a.length < b.length then -1 else 1) else cmpFrom a b a.length

/-- What a comparison of two numbers returns. -/
def Compares (c : Int) (x y : ℕ) : Prop :=
  (x < y ∧ c = -1) ∨ (x = y ∧ c = 0) ∨ (y < x ∧ c = 1)

/-- The comparison below a limb compares the numbers of the limbs below it. -/
theorem cmpFrom_compares (a b : Limbs) (i : ℕ) :
    Compares (cmpFrom a b i) (value (a.take i)) (value (b.take i)) := by
  induction i with
  | zero => simp [cmpFrom, Compares]
  | succ i ih =>
    have ha := value_lt (a.take i)
    have hb := value_lt (b.take i)
    have hpow : ∀ c : Limbs, (2 ^ 32) ^ (c.take i).length ≤ (2 ^ 32) ^ i := fun c =>
      Nat.pow_le_pow_right (by omega) (by rw [List.length_take]; omega)
    have hpa := hpow a
    have hpb := hpow b
    unfold cmpFrom
    rw [value_take_getD, value_take_getD]
    generalize a.getD i 0 = u
    generalize b.getD i 0 = v
    by_cases huv : u = v
    · rw [if_neg (not_not.mpr huv), huv]
      rcases ih with ⟨h, hc⟩ | ⟨h, hc⟩ | ⟨h, hc⟩
      · exact Or.inl ⟨by omega, hc⟩
      · exact Or.inr (Or.inl ⟨by omega, hc⟩)
      · exact Or.inr (Or.inr ⟨by omega, hc⟩)
    · rw [if_pos huv]
      have hstep : ∀ x y : ℕ, x < y → (2 ^ 32) ^ i * x + (2 ^ 32) ^ i ≤ (2 ^ 32) ^ i * y := by
        intro x y hxy
        rw [← Nat.mul_succ]
        exact Nat.mul_le_mul_left _ hxy
      by_cases hlt : u < v
      · have h := hstep _ _ (UInt32.lt_iff_toNat_lt.mp hlt)
        rw [if_pos hlt]
        exact Or.inl ⟨by omega, rfl⟩
      · have hvu : v.toNat < u.toNat := by
          have hne : u.toNat ≠ v.toNat := fun h => huv (UInt32.toNat_inj.mp h)
          have hle := UInt32.not_lt.mp hlt
          rw [UInt32.le_iff_toNat_le] at hle
          omega
        have h := hstep _ _ hvu
        rw [if_neg hlt]
        exact Or.inr (Or.inr ⟨by omega, rfl⟩)

/-- The comparison of normal limbs compares their numbers. -/
theorem cmp_compares {a b : Limbs} (ha : Normal a) (hb : Normal b) :
    Compares (cmp a b) (value a) (value b) := by
  unfold cmp
  by_cases hlen : a.length = b.length
  · rw [if_neg (not_not.mpr hlen)]
    have h := cmpFrom_compares a b a.length
    rw [List.take_length, hlen, List.take_length] at h
    rw [hlen]
    exact h
  · rw [if_pos hlen]
    by_cases hlt : a.length < b.length
    · rw [if_pos hlt]
      refine Or.inl ⟨?_, rfl⟩
      by_contra hle
      have := hb.length_le (Nat.not_lt.mp hle)
      omega
    · rw [if_neg hlt]
      refine Or.inr (Or.inr ⟨?_, rfl⟩)
      by_contra hle
      have := ha.length_le (Nat.not_lt.mp hle)
      omega

/-- The comparison is not negative exactly where the first number is the larger or the same. -/
theorem cmp_nonneg {a b : Limbs} (ha : Normal a) (hb : Normal b) :
    0 ≤ cmp a b ↔ value b ≤ value a := by
  rcases cmp_compares ha hb with ⟨h, hc⟩ | ⟨h, hc⟩ | ⟨h, hc⟩ <;> omega

/-- The comparison is zero exactly where the numbers are the same. -/
theorem cmp_eq_zero {a b : Limbs} (ha : Normal a) (hb : Normal b) :
    cmp a b = 0 ↔ value a = value b := by
  rcases cmp_compares ha hb with ⟨h, hc⟩ | ⟨h, hc⟩ | ⟨h, hc⟩ <;> omega

/-! ## Sums and differences -/

/-- `n` limbs of the sum, and the carry behind them. -/
def addLoop : ℕ → Limbs → Limbs → ℕ → Limbs
  | 0, _, _, carry => [UInt32.ofNat carry]
  | n + 1, a, b, carry =>
    let s := carry + (a.headD 0).toNat + (b.headD 0).toNat
    UInt32.ofNat s :: addLoop n a.tail b.tail (s / 2 ^ 32)

/-- The limbs of the sum with its carry have the value of the sum. -/
theorem value_addLoop (n : ℕ) (a b : Limbs) {carry : ℕ} (hcarry : carry ≤ 1) :
    value (addLoop n a b carry) = value (a.take n) + value (b.take n) + carry := by
  induction n generalizing a b carry with
  | zero =>
    have hsmall : (UInt32.ofNat carry).toNat = carry := by
      rw [UInt32.toNat_ofNat']
      omega
    simp only [addLoop, value_cons, value_nil, List.take_zero, hsmall]
    omega
  | succ n ih =>
    have ha := (a.headD 0).toNat_lt
    have hb := (b.headD 0).toNat_lt
    unfold addLoop
    dsimp only
    rw [value_cons, UInt32.toNat_ofNat', ih a.tail b.tail (by omega), value_take_succ,
      value_take_succ]
    omega

/-- The difference limb by limb, with the borrow. -/
def subLoop : Limbs → Limbs → ℕ → Limbs
  | [], _, _ => []
  | w :: a, b, borrow =>
    let bv := (b.headD 0).toNat + borrow
    if w.toNat ≥ bv then UInt32.ofNat (w.toNat - bv) :: subLoop a b.tail 0
    else UInt32.ofNat (2 ^ 32 + w.toNat - bv) :: subLoop a b.tail 1

/-- `out` is the borrow that is left at the end. -/
theorem value_subLoop (a b : Limbs) {borrow : ℕ} (hborrow : borrow ≤ 1) :
    ∃ out, value (subLoop a b borrow) + value (b.take a.length) + borrow =
      value a + out * (2 ^ 32) ^ a.length := by
  induction a generalizing b borrow with
  | nil => exact ⟨borrow, by simp [subLoop]⟩
  | cons w a ih =>
    have hw := w.toNat_lt
    have hb := (b.headD 0).toNat_lt
    unfold subLoop
    dsimp only
    rw [List.length_cons, value_take_succ, pow_succ (2 ^ 32) a.length]
    split
    · obtain ⟨out, hout⟩ := ih b.tail (Nat.zero_le 1)
      refine ⟨out, ?_⟩
      rw [← mul_assoc, value_cons, value_cons, UInt32.toNat_ofNat']
      generalize out * (2 ^ 32) ^ a.length = top at hout ⊢
      omega
    · obtain ⟨out, hout⟩ := ih b.tail (Nat.le_refl 1)
      refine ⟨out, ?_⟩
      rw [← mul_assoc, value_cons, value_cons, UInt32.toNat_ofNat']
      generalize out * (2 ^ 32) ^ a.length = top at hout ⊢
      omega

/-- `a` without `b`, which is not more. -/
def sub (a b : Limbs) : Limbs := trim (subLoop a b 0)

/-- A difference is trimmed. -/
theorem normal_sub (a b : Limbs) : Normal (sub a b) := normal_trim _

/-- The limbs of a difference have its value, if there is nothing to borrow at the end. -/
theorem value_sub {a b : Limbs} (hlen : b.length ≤ a.length) (h : value b ≤ value a) :
    value (sub a b) = value a - value b := by
  obtain ⟨out, hout⟩ := value_subLoop a b (Nat.zero_le 1)
  have hdiff := value_lt (subLoop a b 0)
  have hlength : ∀ (c d : Limbs) (n : ℕ), (subLoop c d n).length = c.length := by
    intro c
    induction c with
    | nil => simp [subLoop]
    | cons w c ih =>
      intro d n
      unfold subLoop
      dsimp only
      split <;> simp [ih]
  rw [hlength] at hdiff
  rw [List.take_of_length_le hlen] at hout
  have hzero : out = 0 := by
    by_contra hne
    have hmul := Nat.le_mul_of_pos_left ((2 ^ 32) ^ a.length) (Nat.pos_of_ne_zero hne)
    omega
  subst hzero
  unfold sub
  rw [value_trim]
  omega

/-- The sum of two numbers below `m`, reduced. -/
def addMod (a b m : Limbs) : Limbs :=
  let t := trim (addLoop m.length a b 0)
  if t.length > m.length ∨ cmp t m ≥ 0 then sub t m else t

/-- A normal number below another. -/
structure Below (m a : Limbs) : Prop where
  normal : Normal a
  lt : value a < value m

/-- A number below the modulus has no more limbs than it. -/
theorem Below.length_le {m a : Limbs} (ha : Below m a) : a.length ≤ m.length :=
  ha.normal.length_le ha.lt.le

/-- The sum is reduced once, which is enough for two numbers below the modulus. -/
theorem below_addMod {a b m : Limbs} (hm : Normal m) (ha : Below m a) (hb : Below m b) :
    Below m (addMod a b m) ∧ value (addMod a b m) = (value a + value b) % value m := by
  have hsum := value_addLoop m.length a b (Nat.zero_le 1)
  rw [List.take_of_length_le ha.length_le, List.take_of_length_le hb.length_le, Nat.add_zero]
    at hsum
  have hlt := ha.lt
  have hlt' := hb.lt
  have ht := normal_trim (addLoop m.length a b 0)
  have hvalue : value (trim (addLoop m.length a b 0)) = value a + value b := by
    rw [value_trim, hsum]
  unfold addMod
  dsimp only
  generalize trim (addLoop m.length a b 0) = t at ht hvalue ⊢
  have hover : t.length > m.length ∨ cmp t m ≥ 0 ↔ value m ≤ value t := by
    rw [ge_iff_le, cmp_nonneg ht hm]
    constructor
    · rintro (hlong | hle)
      · by_contra hlow
        have := ht.length_le (Nat.le_of_not_le hlow)
        omega
      · exact hle
    · exact Or.inr
  by_cases hle : value m ≤ value t
  · have hsub := value_sub (hm.length_le hle) hle
    rw [if_pos (hover.mpr hle)]
    refine ⟨⟨normal_sub _ _, by omega⟩, ?_⟩
    rw [hsub, ← hvalue, Nat.mod_eq_sub_mod hle, Nat.mod_eq_of_lt (by omega)]
  · rw [if_neg (mt hover.mp hle)]
    refine ⟨⟨ht, by omega⟩, ?_⟩
    rw [← hvalue, Nat.mod_eq_of_lt (by omega)]

/-- The difference of two numbers below `m`, reduced. -/
def subMod (a b m : Limbs) : Limbs := if cmp a b ≥ 0 then sub a b else sub m (sub b a)

/-- The difference is below the modulus, and with the second number gives the first. -/
theorem below_subMod {a b m : Limbs} (ha : Below m a) (hb : Below m b) :
    Below m (subMod a b m) ∧
      (value (subMod a b m) + value b) % value m = value a := by
  have hlt := ha.lt
  have hlt' := hb.lt
  have hcmp := cmp_nonneg ha.normal hb.normal
  unfold subMod
  by_cases hle : value b ≤ value a
  · have hsub := value_sub (hb.normal.length_le hle) hle
    rw [if_pos (hcmp.mpr hle)]
    refine ⟨⟨normal_sub _ _, by omega⟩, ?_⟩
    rw [hsub, Nat.sub_add_cancel hle, Nat.mod_eq_of_lt hlt]
  · have hback := value_sub (ha.normal.length_le (by omega)) (Nat.le_of_not_le hle)
    have hnormal := normal_sub b a
    have hsub := value_sub (hnormal.length_le (by omega)) (show value (sub b a) ≤ value m by omega)
    rw [if_neg (mt hcmp.mp hle)]
    refine ⟨⟨normal_sub _ _, by omega⟩, ?_⟩
    rw [hsub, hback, show value m - (value b - value a) + value b = value a + value m by omega,
      Nat.add_mod_right, Nat.mod_eq_of_lt hlt]

/-! ## Bits -/

/-- The number of the bits below `n` up to the last one that is set. -/
def topBit (v : UInt32) : ℕ → ℕ
  | 0 => 0
  | n + 1 => if (v >>> UInt32.ofNat n) &&& 1 = 0 then topBit v n else n + 1

/-- The number of bits. -/
def bits (a : Limbs) : ℕ :=
  if a.length = 0 then 0 else (a.length - 1) * 32 + topBit (a.getD (a.length - 1) 0) 32

/-- Bit `i`. -/
def bit (a : Limbs) (i : ℕ) : Bool :=
  decide (i / 32 < a.length) && decide ((a.getD (i / 32) 0 >>> UInt32.ofNat (i % 32)) &&& 1 ≠ 0)

/-- The lowest bit behind a shift. -/
theorem shiftRight_and_one (v : UInt32) {n : ℕ} (hn : n < 32) :
    (v >>> UInt32.ofNat n) &&& 1 = 0 ↔ v.toNat.testBit n = false := by
  have hshift : (UInt32.ofNat n).toNat = n := by
    rw [UInt32.toNat_ofNat']
    omega
  rw [← UInt32.toNat_inj, UInt32.toNat_and, UInt32.toNat_shiftRight, hshift,
    Nat.mod_eq_of_lt hn]
  simp [Nat.testBit, Nat.and_comm]

/-- The loop over the bits of a word finds the number of its bits. -/
theorem topBit_eq_size (v : UInt32) {n : ℕ} (hn : n ≤ 32) (hv : v.toNat < 2 ^ n) :
    topBit v n = v.toNat.size := by
  induction n with
  | zero =>
    have hzero : v.toNat = 0 := by simpa using hv
    simp [topBit, hzero]
  | succ n ih =>
    have htest : v.toNat.testBit n = false ↔ v.toNat < 2 ^ n := by
      have hquot : v.toNat / 2 ^ n < 2 :=
        Nat.div_lt_of_lt_mul (by rw [← pow_succ]; exact hv)
      rw [Nat.testBit_eq_decide_div_mod_eq, decide_eq_false_iff_not,
        ← Nat.div_eq_zero_iff_lt (Nat.two_pow_pos n)]
      generalize v.toNat / 2 ^ n = quotient at hquot ⊢
      omega
    have hzero := (shiftRight_and_one v (by omega)).trans htest
    unfold topBit
    by_cases hlow : v.toNat < 2 ^ n
    · rw [if_pos (hzero.mpr hlow)]
      exact ih (by omega) hlow
    · rw [if_neg (mt hzero.mp hlow)]
      exact Nat.le_antisymm (Nat.lt_size.mpr (Nat.not_lt.mp hlow)) (Nat.size_le.mpr hv)

/-- The highest limb decides how many bits there are. -/
theorem size_add_two_pow_mul {low w k : ℕ} (hlow : low < 2 ^ k) (hw : 0 < w) :
    (low + 2 ^ k * w).size = k + w.size := by
  have hupper : 2 ^ k * (w + 1) ≤ 2 ^ k * 2 ^ w.size :=
    Nat.mul_le_mul_left _ (Nat.lt_size_self w)
  have hlower : 2 ^ k * 2 ^ (w.size - 1) ≤ 2 ^ k * w :=
    Nat.mul_le_mul_left _ (Nat.lt_size.mp (Nat.sub_lt (Nat.size_pos.mpr hw) Nat.one_pos))
  have hpos := Nat.size_pos.mpr hw
  rw [← pow_add] at hupper hlower
  rw [Nat.mul_succ] at hupper
  apply Nat.le_antisymm
  · rw [Nat.size_le]
    omega
  · have hlt : k + (w.size - 1) < (low + 2 ^ k * w).size := by
      rw [Nat.lt_size]
      omega
    omega

/-- The bits of a normal number are counted. -/
theorem bits_eq_size {a : Limbs} (ha : Normal a) : bits a = (value a).size := by
  unfold bits
  rcases List.eq_nil_or_concat a with rfl | ⟨front, w, rfl⟩
  · simp
  · have hw : w ≠ 0 := ha w (by simp)
    have hpos : w.toNat ≠ 0 := fun h => hw (UInt32.toNat_inj.mp h)
    have hfront := value_lt front
    have hget : (front ++ [w]).getD front.length 0 = w := by
      simp [List.getD_eq_getElem?_getD]
    rw [List.concat_eq_append, List.length_append, List.length_singleton, if_neg (by omega),
      Nat.add_sub_cancel, hget, topBit_eq_size w (le_refl _) w.toNat_lt, value_append,
      value_cons, value_nil, Nat.mul_zero, Nat.add_zero]
    have hradix : (2 ^ 32) ^ front.length = 2 ^ (front.length * 32) := by
      rw [← pow_mul, Nat.mul_comm]
    rw [hradix] at hfront ⊢
    exact (size_add_two_pow_mul hfront (Nat.pos_of_ne_zero hpos)).symm

/-- The bits are enough for a number that is not normal, too. -/
theorem value_lt_two_pow_bits (a : Limbs) : value a < 2 ^ bits a := by
  unfold bits
  rcases List.eq_nil_or_concat a with rfl | ⟨front, w, rfl⟩
  · simp
  · have hfront := value_lt front
    have hget : (front ++ [w]).getD front.length 0 = w := by
      simp [List.getD_eq_getElem?_getD]
    have hradix : (2 ^ 32) ^ front.length = 2 ^ (front.length * 32) := by
      rw [← pow_mul, Nat.mul_comm]
    have hupper : 2 ^ (front.length * 32) * (w.toNat + 1) ≤
        2 ^ (front.length * 32) * 2 ^ w.toNat.size :=
      Nat.mul_le_mul_left _ (Nat.lt_size_self w.toNat)
    rw [List.concat_eq_append, List.length_append, List.length_singleton, if_neg (by omega),
      Nat.add_sub_cancel, hget, topBit_eq_size w (le_refl _) w.toNat_lt, value_append,
      value_cons, value_nil, Nat.mul_zero, Nat.add_zero, pow_add]
    rw [hradix] at hfront ⊢
    rw [Nat.mul_succ] at hupper
    omega

/-- A limb is a digit of the number. -/
theorem digit_eq (a : Limbs) (k : ℕ) :
    value a / (2 ^ 32) ^ k % 2 ^ 32 = (a.getD k 0).toNat := by
  induction k generalizing a with
  | zero =>
    cases a with
    | nil => simp
    | cons w a =>
      have hw := w.toNat_lt
      simp only [pow_zero, Nat.div_one, value_cons, List.getD_cons_zero]
      omega
  | succ k ih =>
    cases a with
    | nil => simp
    | cons w a =>
      have hw := w.toNat_lt
      have hrest : value (w :: a) / 2 ^ 32 = value a := by
        rw [value_cons]
        omega
      rw [pow_succ' (2 ^ 32) k, ← Nat.div_div_eq_div_mul, hrest, ih, List.getD_cons_succ]

/-- A bit of the limbs is one of the number. -/
theorem bit_eq_testBit (a : Limbs) (i : ℕ) : bit a i = (value a).testBit i := by
  have hi : i % 32 < 32 := Nat.mod_lt _ (by omega)
  have hsplit : (value a).testBit i = (a.getD (i / 32) 0).toNat.testBit (i % 32) := by
    rw [← digit_eq, Nat.testBit_mod_two_pow, ← pow_mul, Nat.testBit_div_two_pow,
      Nat.add_comm (i % 32), Nat.div_add_mod]
    simp [hi]
  rw [hsplit]
  unfold bit
  by_cases hlen : i / 32 < a.length
  · cases hbit : (a.getD (i / 32) 0).toNat.testBit (i % 32) with
    | false =>
      have hzero := (shiftRight_and_one (a.getD (i / 32) 0) hi).mpr hbit
      rw [hzero, decide_eq_false (not_not.mpr rfl), Bool.and_false]
    | true =>
      have hone : ¬ (a.getD (i / 32) 0 >>> UInt32.ofNat (i % 32)) &&& 1 = 0 := by
        rw [shiftRight_and_one _ hi, hbit]
        decide
      rw [decide_eq_true hlen, decide_eq_true hone]
      rfl
  · have hnone : a.getD (i / 32) 0 = 0 := by
      rw [List.getD_eq_getElem?_getD, List.getElem?_eq_none (Nat.not_lt.mp hlen)]
      rfl
    rw [hnone]
    simp [hlen]

/-! ## Products and powers -/

/-- Bits `i` to `i + count` of `b`: double `a`, and add it where a bit is set. -/
def mulLoop (b m : Limbs) : ℕ → ℕ → Limbs → Limbs → Limbs
  | 0, _, r, _ => r
  | count + 1, i, r, a =>
    let r := if bit b i then addMod r a m else r
    mulLoop b m count (i + 1) r (addMod a a m)

/-- The product, reduced. -/
def mulMod (a b m : Limbs) : Limbs := mulLoop b m (bits b) 0 [] a

/-- A modulus that has a number below it is positive. -/
theorem Below.value_pos {m a : Limbs} (ha : Below m a) : 0 < value m := Nat.lt_of_le_of_lt
  (Nat.zero_le _) ha.lt

/-- Zero is below every positive modulus. -/
theorem below_nil {m : Limbs} (hm : 0 < value m) : Below m [] := ⟨normal_nil, hm⟩

/-- The lowest of the bits from `i` on, and the rest. -/
theorem div_two_pow_mod (x i count : ℕ) : x / 2 ^ i % 2 ^ (count + 1) =
    x / 2 ^ i % 2 + 2 * (x / 2 ^ (i + 1) % 2 ^ count) := by
  rw [pow_succ' 2 count, Nat.mod_mul, Nat.div_div_eq_div_mul, ← pow_succ]

/-- A bit is set where the shifted number is odd. -/
theorem testBit_iff (x i : ℕ) : x.testBit i = true ↔ x / 2 ^ i % 2 = 1 := by
  rw [Nat.testBit_eq_decide_div_mod_eq, decide_eq_true_eq]

/-- The loop adds `a` at every bit of `b` from `i` on, and doubles it each time. -/
theorem below_mulLoop {b m : Limbs} (hm : Normal m) (count i : ℕ) {r a : Limbs} (hr : Below m r)
    (ha : Below m a) : Below m (mulLoop b m count i r a) ∧
      value (mulLoop b m count i r a) =
        (value r + value a * (value b / 2 ^ i % 2 ^ count)) % value m := by
  induction count generalizing i r a with
  | zero =>
    refine ⟨hr, ?_⟩
    simp only [mulLoop, pow_zero, Nat.mod_one, Nat.mul_zero, Nat.add_zero]
    rw [Nat.mod_eq_of_lt hr.lt]
  | succ count ih =>
    obtain ⟨hdouble, hdoubleValue⟩ := below_addMod hm ha ha
    obtain ⟨hsum, hsumValue⟩ := below_addMod hm hr ha
    have hnext : Below m (if bit b i then addMod r a m else r) ∧
        value (if bit b i then addMod r a m else r) ≡
          value r + value a * (value b / 2 ^ i % 2) [MOD value m] := by
      rw [bit_eq_testBit]
      by_cases hbit : (value b).testBit i = true
      · rw [if_pos hbit, (testBit_iff _ _).mp hbit, Nat.mul_one, hsumValue]
        exact ⟨hsum, Nat.mod_modEq _ _⟩
      · have hzero : value b / 2 ^ i % 2 = 0 := by
          rw [testBit_iff] at hbit
          omega
        rw [if_neg hbit, hzero, Nat.mul_zero, Nat.add_zero]
        exact ⟨hr, Nat.ModEq.refl _⟩
    obtain ⟨hbelow, hvalue⟩ := ih (i + 1) hnext.1 hdouble
    refine ⟨hbelow, hvalue.trans ?_⟩
    rw [div_two_pow_mod, hdoubleValue]
    refine Nat.ModEq.trans (hnext.2.add ((Nat.mod_modEq _ _).mul_right _)) ?_
    rw [show value r + value a * (value b / 2 ^ i % 2) +
        (value a + value a) * (value b / 2 ^ (i + 1) % 2 ^ count) =
      value r + value a * (value b / 2 ^ i % 2 + 2 * (value b / 2 ^ (i + 1) % 2 ^ count)) by ring]

/-- The product is the residue of the product. -/
theorem below_mulMod {a b m : Limbs} (hm : Normal m) (ha : Below m a) (hb : Normal b) :
    Below m (mulMod a b m) ∧ value (mulMod a b m) = value a * value b % value m := by
  obtain ⟨hbelow, hvalue⟩ := below_mulLoop (b := b) hm (bits b) 0 (below_nil ha.value_pos) ha
  refine ⟨hbelow, hvalue.trans ?_⟩
  rw [bits_eq_size hb, pow_zero, Nat.div_one, Nat.mod_eq_of_lt (Nat.lt_size_self _), value_nil,
    Nat.zero_add]

/-- Squares of `x` for the bits of `e` from the lowest on; `e` has at most `fuel` bits. -/
def powLoop (m : Limbs) : ℕ → ℕ → Limbs → Limbs → Limbs
  | 0, _, r, _ => r
  | fuel + 1, e, r, x =>
    if e = 0 then r
    else
      let r := if e % 2 = 1 then mulMod r x m else r
      let e := e / 2
      let x := if e = 0 then x else mulMod x x m
      powLoop m fuel e r x

/-- One is below a modulus above one. -/
theorem below_one {m : Limbs} (hm : 1 < value m) : Below m [1] := by
  refine ⟨?_, by simpa using hm⟩
  intro w h
  cases h
  decide

/-- The loop over a word multiplies `r` with `x ^ e`. -/
theorem below_powLoop {m : Limbs} (hm : Normal m) (fuel : ℕ) {e : ℕ} (he : e < 2 ^ fuel)
    {r x : Limbs} (hr : Below m r) (hx : Below m x) : Below m (powLoop m fuel e r x) ∧
      value (powLoop m fuel e r x) = value r * value x ^ e % value m := by
  induction fuel generalizing e r x with
  | zero =>
    have hzero : e = 0 := by simpa using he
    refine ⟨hr, ?_⟩
    rw [hzero, pow_zero, Nat.mul_one, Nat.mod_eq_of_lt hr.lt]
    rfl
  | succ fuel ih =>
    unfold powLoop
    by_cases hzero : e = 0
    · rw [if_pos hzero, hzero, pow_zero, Nat.mul_one, Nat.mod_eq_of_lt hr.lt]
      exact ⟨hr, rfl⟩
    · rw [if_neg hzero]
      dsimp only
      obtain ⟨hprod, hprodValue⟩ := below_mulMod hm hr hx.normal
      obtain ⟨hsquare, hsquareValue⟩ := below_mulMod hm hx hx.normal
      have hhalf : e / 2 < 2 ^ fuel := by
        rw [pow_succ] at he
        omega
      have hnext : Below m (if e % 2 = 1 then mulMod r x m else r) ∧
          value (if e % 2 = 1 then mulMod r x m else r) ≡
            value r * value x ^ (e % 2) [MOD value m] := by
        by_cases hodd : e % 2 = 1
        · rw [if_pos hodd, hodd, pow_one, hprodValue]
          exact ⟨hprod, Nat.mod_modEq _ _⟩
        · have heven : e % 2 = 0 := by omega
          rw [if_neg hodd, heven, pow_zero, Nat.mul_one]
          exact ⟨hr, Nat.ModEq.refl _⟩
      have hsquared : Below m (if e / 2 = 0 then x else mulMod x x m) ∧
          value (if e / 2 = 0 then x else mulMod x x m) ^ (e / 2) ≡
            (value x * value x) ^ (e / 2) [MOD value m] := by
        by_cases hlast : e / 2 = 0
        · rw [if_pos hlast, hlast, pow_zero, pow_zero]
          exact ⟨hx, Nat.ModEq.refl _⟩
        · rw [if_neg hlast, hsquareValue]
          exact ⟨hsquare, (Nat.mod_modEq _ _).pow _⟩
      obtain ⟨hbelow, hvalue⟩ := ih hhalf hnext.1 hsquared.1
      refine ⟨hbelow, hvalue.trans ?_⟩
      refine Nat.ModEq.trans (hnext.2.mul hsquared.2) ?_
      have hexp : value r * value x ^ (e % 2) * (value x * value x) ^ (e / 2) =
          value r * value x ^ e := by
        conv_rhs => rw [← Nat.mod_add_div e 2, pow_add, pow_mul, sq]
        rw [Nat.mul_assoc]
      rw [hexp]

/-- The power with the exponent in limbs. -/
def powBitsLoop (e m : Limbs) : ℕ → ℕ → Limbs → Limbs → Limbs
  | 0, _, r, _ => r
  | count + 1, i, r, x =>
    let r := if bit e i then mulMod r x m else r
    powBitsLoop e m count (i + 1) r (mulMod x x m)

/-- The loop over the bits of `e` multiplies `r` with the power of `x` from bit `i` on. -/
theorem below_powBitsLoop {e m : Limbs} (hm : Normal m) (count i : ℕ) {r x : Limbs}
    (hr : Below m r) (hx : Below m x) : Below m (powBitsLoop e m count i r x) ∧
      value (powBitsLoop e m count i r x) =
        value r * value x ^ (value e / 2 ^ i % 2 ^ count) % value m := by
  induction count generalizing i r x with
  | zero =>
    refine ⟨hr, ?_⟩
    simp only [powBitsLoop, pow_zero, Nat.mod_one, Nat.mul_one]
    rw [Nat.mod_eq_of_lt hr.lt]
  | succ count ih =>
    obtain ⟨hsquare, hsquareValue⟩ := below_mulMod hm hx hx.normal
    obtain ⟨hprod, hprodValue⟩ := below_mulMod hm hr hx.normal
    have hnext : Below m (if bit e i then mulMod r x m else r) ∧
        value (if bit e i then mulMod r x m else r) ≡
          value r * value x ^ (value e / 2 ^ i % 2) [MOD value m] := by
      rw [bit_eq_testBit]
      by_cases hbit : (value e).testBit i = true
      · rw [if_pos hbit, (testBit_iff _ _).mp hbit, pow_one, hprodValue]
        exact ⟨hprod, Nat.mod_modEq _ _⟩
      · have hzero : value e / 2 ^ i % 2 = 0 := by
          rw [testBit_iff] at hbit
          omega
        rw [if_neg hbit, hzero, pow_zero, Nat.mul_one]
        exact ⟨hr, Nat.ModEq.refl _⟩
    obtain ⟨hbelow, hvalue⟩ := ih (i + 1) hnext.1 hsquare
    refine ⟨hbelow, hvalue.trans ?_⟩
    rw [div_two_pow_mod, hsquareValue, pow_add (value x), pow_mul, sq, ← Nat.mul_assoc]
    exact hnext.2.mul ((Nat.mod_modEq _ _).pow _)

/-! ## Octets -/

/-- Four octets make a limb. -/
def ofFour (a b c d : UInt8) : UInt32 :=
  UInt32.ofNat (a.toNat + 2 ^ 8 * b.toNat + 2 ^ 16 * c.toNat + 2 ^ 24 * d.toNat)

/-- The limbs of octets, the least significant first. -/
def pack : List UInt8 → Limbs
  | a :: b :: c :: d :: rest => ofFour a b c d :: pack rest
  | [a, b, c] => [ofFour a b c 0]
  | [a, b] => [ofFour a b 0 0]
  | [a] => [ofFour a 0 0 0]
  | [] => []

/-- The first of four bytes counts least. -/
theorem toNat_ofFour (a b c d : UInt8) : (ofFour a b c d).toNat =
    a.toNat + 256 * (b.toNat + 256 * (c.toNat + 256 * d.toNat)) := by
  have ha := a.toNat_lt
  have hb := b.toNat_lt
  have hc := c.toNat_lt
  have hd := d.toNat_lt
  unfold ofFour
  rw [UInt32.toNat_ofNat']
  omega

/-- Packed bytes keep their value, the first one counting least. -/
theorem value_pack (s : List UInt8) : value (pack s) = Nat.ofDigits 256 (s.map UInt8.toNat) := by
  induction s using pack.induct with
  | case1 a b c d rest ih =>
    simp only [pack, value_cons, ih, toNat_ofFour, List.map_cons, Nat.ofDigits_cons]
    ring
  | case2 a b c => simp [pack, toNat_ofFour, Nat.ofDigits_cons]
  | case3 a b => simp [pack, toNat_ofFour, Nat.ofDigits_cons]
  | case4 a => simp [pack, toNat_ofFour]
  | case5 => rfl

/-- The number in octets, the most significant first; nothing if it may not fit. -/
def fromOctets (max : ℕ) (s : List UInt8) : Limbs :=
  if (s.length + 3) / 4 > max then [] else trim (pack s.reverse)

/-- What is read from bytes is trimmed. -/
theorem normal_fromOctets (max : ℕ) (s : List UInt8) : Normal (fromOctets max s) := by
  unfold fromOctets
  split
  · exact normal_nil
  · exact normal_trim _

/-- What is read from bytes that fit is their number. -/
theorem value_fromOctets {max : ℕ} {s : List UInt8} (h : s.length ≤ 4 * max) :
    value (fromOctets max s) = ofOctets s := by
  unfold fromOctets
  rw [if_neg (by omega), value_trim, value_pack]
  rfl

/-- The octets of a limb, the least significant first. -/
def toFour (w : UInt32) : List UInt8 :=
  [UInt8.ofNat w.toNat, UInt8.ofNat (w.toNat / 2 ^ 8), UInt8.ofNat (w.toNat / 2 ^ 16),
    UInt8.ofNat (w.toNat / 2 ^ 24)]

/-- The `n` low octets, the most significant first. -/
def toFixed (a : Limbs) (n : ℕ) : List UInt8 :=
  let s := a.flatMap toFour
  (s.take n ++ List.replicate (n - s.length) 0).reverse

/-- The bytes of the limbs have the value of the limbs. -/
theorem ofDigits_flatMap_toFour (a : Limbs) :
    Nat.ofDigits 256 ((a.flatMap toFour).map UInt8.toNat) = value a := by
  induction a with
  | nil => rfl
  | cons w a ih =>
    have hw := w.toNat_lt
    simp only [List.flatMap_cons, toFour, List.cons_append, List.nil_append, List.map_cons,
      Nat.ofDigits_cons, ih, value_cons, UInt8.toNat_ofNat']
    omega

/-- What is written is the number in `n` octets. -/
theorem toFixed_eq_toOctets (a : Limbs) (n : ℕ) : toFixed a n = toOctets n (value a) := by
  have hlen : (toFixed a n).length = n := by
    unfold toFixed
    simp only [List.length_reverse, List.length_append, List.length_take, List.length_replicate]
    omega
  have hdigit : ∀ d ∈ (a.flatMap toFour).map UInt8.toNat, d < 256 := by
    intro d hd
    obtain ⟨b, -, rfl⟩ := List.mem_map.mp hd
    exact b.toNat_lt
  have hzeros : ∀ k, Nat.ofDigits 256 ((List.replicate k (0 : UInt8)).map UInt8.toNat) = 0 := by
    intro k
    have hk := ofOctets_replicate_zero k
    rwa [ofOctets, List.reverse_replicate] at hk
  apply ofOctets_inj (by rw [hlen, length_toOctets])
  rw [ofOctets_toOctets, ← ofDigits_flatMap_toFour a,
    Nat.ofDigits_mod_pow_eq_ofDigits_take n (by omega) _ hdigit, ← List.map_take]
  unfold toFixed ofOctets
  dsimp only
  rw [List.reverse_reverse, List.map_append, Nat.ofDigits_append, hzeros, Nat.mul_zero,
    Nat.add_zero]

end Limbs

end Programs
