import XboxTls.Analysis.X25519Field
import XboxTls.Interface.X25519

/-!
# `scalarmult` computes X25519

The arrays of the ladder stand for the variables of the standard, swapped as the last bit says.
The octets are read to, and written from, the digits of numbers; the result is subtracted until it
is below `p`, so that it is the canonical encoding.
-/

set_option autoImplicit false

namespace XboxTls.Analysis

open Programs Programs.SignedLimbs XboxTls.Model XboxTls.Model.X25519 XboxTls.Interface.X25519

/-! ## The ring -/

instance : Folds (ZMod p) where
  pow_eq := by
    have hp : (65536 ^ 16 : ℕ) = 2 * p + 38 := by
      rw [p]
      norm_num
    have hcast : ((65536 ^ 16 : ℕ) : ZMod p) = (65536 : ZMod p) ^ 16 := by
      rw [Nat.cast_pow, Nat.cast_ofNat]
    rw [← hcast, hp, Nat.cast_add, Nat.cast_mul, ZMod.natCast_self, mul_zero, zero_add,
      Nat.cast_ofNat]

/-! ## The swap -/

/-- A mask of ones swaps two numbers. -/
theorem zipWith_xor_select {c : ℤ} {l m : Gf} (h : l.length = m.length)
    (hc : ∀ x, Int.land c x = x) :
    List.zipWith Int.xor l (List.zipWith (fun x y => Int.land c (Int.xor x y)) l m) = m ∧
      List.zipWith Int.xor m (List.zipWith (fun x y => Int.land c (Int.xor x y)) l m) = l := by
  induction l generalizing m with
  | nil =>
    cases m with
    | nil => exact ⟨rfl, rfl⟩
    | cons y m => cases h
  | cons x l ih =>
    cases m with
    | nil => cases h
    | cons y m =>
      obtain ⟨hleft, hright⟩ := ih (by simpa using h)
      constructor
      · rw [List.zipWith_cons_cons, List.zipWith_cons_cons, hleft, hc, xor_xor_cancel]
      · rw [List.zipWith_cons_cons, List.zipWith_cons_cons, hright, hc, xor_comm x y,
          xor_xor_cancel]

/-- A mask of zeros keeps two numbers. -/
theorem zipWith_xor_keep {c : ℤ} {l m : Gf} (h : l.length = m.length)
    (hc : ∀ x, Int.land c x = 0) :
    List.zipWith Int.xor l (List.zipWith (fun x y => Int.land c (Int.xor x y)) l m) = l ∧
      List.zipWith Int.xor m (List.zipWith (fun x y => Int.land c (Int.xor x y)) l m) = m := by
  induction l generalizing m with
  | nil =>
    cases m with
    | nil => exact ⟨rfl, rfl⟩
    | cons y m => cases h
  | cons x l ih =>
    cases m with
    | nil => cases h
    | cons y m =>
      obtain ⟨hleft, hright⟩ := ih (by simpa using h)
      constructor
      · rw [List.zipWith_cons_cons, List.zipWith_cons_cons, hleft, hc, xor_zero]
      · rw [List.zipWith_cons_cons, List.zipWith_cons_cons, hright, hc, xor_zero]

/-- The swap through a mask. -/
theorem sel25519_eq {l m : Gf} (h : l.length = m.length) (b : Bool) :
    sel25519 l m (if b then 1 else 0) = if b then (m, l) else (l, m) := by
  cases b with
  | false =>
    obtain ⟨hleft, hright⟩ := zipWith_xor_keep h zero_land
    exact Prod.ext hleft hright
  | true =>
    obtain ⟨hleft, hright⟩ := zipWith_xor_select h neg_one_land
    exact Prod.ext hleft hright

/-! ## Subtracting the prime -/

/-- The limbs of `p`, as `pack25519` subtracts them. -/
def primeLimbs : Gf := 0xffed :: (List.replicate 14 0xffff ++ [0x7fff])

/-- The limbs of the prime are the prime. -/
theorem value_primeLimbs : value 65536 primeLimbs = p := by
  decide +kernel

/-- A borrow is a carry of -1. -/
theorem borrow_eq {x : ℤ} (hlow : -65536 ≤ x) (hhigh : x < 65536) :
    Int.land (shr x 16) 1 = -(x / 65536) := by
  have hmask := land_mask (shr x 16) 1
  rw [shr_eq] at hmask ⊢
  norm_num at hmask ⊢
  rw [hmask]
  omega

/-- The low 16 bits are the digit. -/
theorem mask_eq (x : ℤ) : Int.land x 0xffff = x % 65536 := by
  have hmask := land_mask x 16
  norm_num at hmask
  exact hmask

/-- The carry goes on through one more member. -/
theorem carries_take_succ {w : Gf} {i : ℕ} (hi : i < w.length) :
    carries 65536 0 (w.take (i + 1)) = (limb w i + carries 65536 0 (w.take i)) / 65536 := by
  have hlimb : limb w i = w[i] := by
    rw [limb, List.getD_eq_getElem?_getD, List.getElem?_eq_getElem hi]
    rfl
  rw [List.take_succ_eq_append_getElem hi, carries_append, hlimb]
  rfl

/-- One more member adds one more digit. -/
theorem digits_take_succ {w : Gf} {i : ℕ} (hi : i < w.length) :
    digits 65536 0 (w.take (i + 1)) =
      digits 65536 0 (w.take i) ++ [(limb w i + carries 65536 0 (w.take i)) % 65536] := by
  have hlimb : limb w i = w[i] := by
    rw [limb, List.getD_eq_getElem?_getD, List.getElem?_eq_getElem hi]
    rfl
  rw [List.take_succ_eq_append_getElem hi, digits_append, hlimb]
  rfl

/-- The differences of two strings of digits borrow at most one. -/
theorem carries_differences {w : Gf} (hw : MembersIn (-65535) 65535 w) {k : ℤ} (hk : -1 ≤ k)
    (hk' : k ≤ 0) : -1 ≤ carries 65536 k w ∧ carries 65536 k w ≤ 0 := by
  induction w generalizing k with
  | nil => exact ⟨hk, hk'⟩
  | cons x w ih =>
    have hx := hw x List.mem_cons_self
    exact ih (fun y hy => hw y (List.mem_cons_of_mem x hy)) (by omega) (by omega)

/-- What the loop of `pack25519` keeps: the masked members are the digits of the differences, and
the last member is the difference with its borrow. -/
structure Borrows (w m : Gf) (i : ℕ) : Prop where
  length : m.length = 16
  masked : m.take (i - 1) = digits 65536 0 (w.take (i - 1))
  last : limb m (i - 1) = limb w (i - 1) + carries 65536 0 (w.take (i - 1))

variable {t m : Gf}

/-- The differences of the members. -/
def differences (t : Gf) : Gf := List.zipWith (· - ·) t primeLimbs

/-- There are sixteen differences. -/
theorem length_differences (ht : t.length = 16) : (differences t).length = 16 := by
  simp [differences, primeLimbs, ht]

/-- A difference is that of the members. -/
theorem limb_differences (ht : t.length = 16) {i : ℕ} (hi : i < 16) :
    limb (differences t) i = limb t i - limb primeLimbs i := by
  have hlen : primeLimbs.length = 16 := rfl
  rw [differences, ← range_map_limb ht hlen]
  simp [limb, hi]

/-- The differences are small. -/
theorem between_differences (hd : MembersIn 0 65535 t) (ht : t.length = 16) :
    MembersIn (-65535) 65535 (differences t) := by
  have hprime : MembersIn 0 65535 primeLimbs := by
    unfold MembersIn
    decide
  intro x hx
  rw [differences, ← range_map_limb ht (show primeLimbs.length = 16 from rfl)] at hx
  obtain ⟨i, hi, rfl⟩ := List.mem_map.mp hx
  rw [List.mem_range] at hi
  have hleft := hd _ (limb_mem (a := t) (i := i) (by omega))
  have hright := hprime _ (limb_mem (a := primeLimbs) (i := i) hi)
  omega

/-- The member that is set is the last one taken. -/
theorem take_set_pred {m : Gf} {i : ℕ} (hi : 1 ≤ i) (hm : i ≤ m.length) (v : ℤ) :
    (m.set (i - 1) v).take i = m.take (i - 1) ++ [v] := by
  obtain ⟨j, rfl⟩ : ∃ j, i = j + 1 := ⟨i - 1, by omega⟩
  rw [Nat.add_sub_cancel, List.take_succ_eq_append_getElem (by simp; omega)]
  simp [List.take_set_of_le]

/-- The last member, what it borrows from the next one, and the digits once it is masked. -/
theorem borrows_last (hd : MembersIn 0 65535 t) (ht : t.length = 16) {i : ℕ}
    (hm : Borrows (differences t) m i) (hi : 1 ≤ i) (hi' : i ≤ 16) :
    -65536 ≤ limb m (i - 1) ∧ limb m (i - 1) ≤ 65535 ∧
      limb m (i - 1) / 65536 = carries 65536 0 ((differences t).take i) ∧
      (m.set (i - 1) (limb m (i - 1) % 65536)).take i =
        digits 65536 0 ((differences t).take i) := by
  have hbetween := between_differences hd ht
  have hlen := length_differences ht
  have hlen' := hm.length
  obtain ⟨hlow, hhigh⟩ := carries_differences (w := (differences t).take (i - 1)) (k := 0)
    (fun y hy => hbetween y (List.mem_of_mem_take hy)) (by omega) (by omega)
  have hmember := hbetween _ (limb_mem (a := differences t) (i := i - 1) (by omega))
  have hlast := hm.last
  have hcarry := carries_take_succ (w := differences t) (i := i - 1) (by omega)
  have hdigits := digits_take_succ (w := differences t) (i := i - 1) (by omega)
  rw [Nat.sub_add_cancel hi, ← hlast] at hcarry hdigits
  refine ⟨by omega, by omega, hcarry.symm, ?_⟩
  rw [take_set_pred hi (by omega), hm.masked, hdigits]

/-- A member is subtracted with its borrow, and the member before it is masked. -/
theorem borrow_next (hd : MembersIn 0 65535 t) (ht : t.length = 16) {i : ℕ} (hi : 1 ≤ i)
    (hi' : i < 16) (hm : Borrows (differences t) m i) :
    ∃ v, subChecked (limb t i) (limb primeLimbs i) = some (limb t i - limb primeLimbs i) ∧
      subChecked (limb t i - limb primeLimbs i) (Int.land (shr (limb m (i - 1)) 16) 1) = some v ∧
      limb (m.set i v) (i - 1) = limb m (i - 1) ∧
      Borrows (differences t) ((m.set i v).set (i - 1) (limb m (i - 1) % 65536)) (i + 1) := by
  have hlen := hm.length
  obtain ⟨hlow, hhigh, hcarry, hmasked⟩ := borrows_last hd ht hm hi (by omega)
  have hmember := hd _ (limb_mem (a := t) (i := i) (by omega))
  have hdifference := limb_differences ht hi'
  have hbetween := between_differences hd ht _
    (limb_mem (a := differences t) (i := i) (by rw [length_differences ht]; exact hi'))
  have hborrow := borrow_eq hlow (by omega)
  refine ⟨limb (differences t) i + carries 65536 0 ((differences t).take i), ?_, ?_,
    limb_set_ne (by omega) _, ?_, ?_, ?_⟩
  · exact checked_of_abs_le (by rw [abs_le]; omega)
  · rw [hborrow, subChecked, ← hdifference, hcarry, sub_neg_eq_add]
    exact checked_of_abs_le (by rw [abs_le]; omega)
  · simp [hlen]
  · rw [Nat.add_sub_cancel, ← hmasked, List.set_comm _ _ (by omega), List.take_set_of_le (by omega)]
  · rw [Nat.add_sub_cancel, limb_set_ne (by omega)]
    simp [limb, show i < m.length by omega]

/-- One step of the subtraction borrows from the next member. -/
theorem borrowStep_spec (hd : MembersIn 0 65535 t) (ht : t.length = 16) {i : ℕ} (hi : 1 ≤ i)
    (hi' : i < 15) (hm : Borrows (differences t) m i) :
    ∃ m', borrowStep t m i = some m' ∧ Borrows (differences t) m' (i + 1) := by
  obtain ⟨v, hfirst, hsecond, hsame, hnext⟩ := borrow_next hd ht hi (by omega) hm
  have hprime : limb primeLimbs i = 0xffff := by
    interval_cases i <;> rfl
  rw [hprime] at hfirst hsecond
  refine ⟨_, ?_, hnext⟩
  simp only [borrowStep, hfirst, hsecond, Option.bind_eq_bind, Option.bind_some, hsame, mask_eq,
    Option.pure_def]

/-- There is no borrow at the end exactly from `p` on. -/
theorem carries_differences_eq (hd : MembersIn 0 65535 t) (ht : t.length = 16) :
    carries 65536 0 (differences t) = if (p : ℤ) ≤ value 65536 t then 0 else -1 := by
  obtain ⟨hlow, hhigh⟩ := value_nonneg (B := 65536) (by omega) hd
  have hvalue := value_zipWith_sub 65536 (l := t) (m := primeLimbs) ht
  have hcarry := (carries_eq (B := 65536) (by omega) 0 (differences t)).1
  have hp : (p : ℤ) = 2 ^ 255 - 19 := by
    rw [p]
    norm_num
  rw [length_differences ht, differences, hvalue, value_primeLimbs, add_zero] at hcarry
  rw [ht] at hhigh
  rw [differences, hcarry]
  norm_num at hhigh hp ⊢
  split <;> omega

/-- **A round of the final subtraction.** -/
theorem subtractStep_spec (hd : MembersIn 0 65535 t) (ht : t.length = 16) (hm : m.length = 16) :
    ∃ t' m', subtractStep t m = some (t', m') ∧ m'.length = 16 ∧ t'.length = 16 ∧
      MembersIn 0 65535 t' ∧
      value 65536 t' = if (p : ℤ) ≤ value 65536 t then value 65536 t - p else value 65536 t := by
  have hzero := hd _ (limb_mem (a := t) (i := 0) (by omega))
  have hfirst : subChecked (limb t 0) 0xffed = some (limb t 0 - 0xffed) :=
    checked_of_abs_le (by rw [abs_le]; omega)
  have hstart : Borrows (differences t) (m.set 0 (limb t 0 - 0xffed)) 1 := by
    refine ⟨by simp [hm], by simp [digits], ?_⟩
    rw [limb_differences ht (by omega)]
    simp [limb, hm, carries, primeLimbs]
  obtain ⟨m1, hloop, hm1⟩ := foldlM_range' (s := 1) (n := 14) (f := borrowStep t)
    (fun i b => Borrows (differences t) b i) hstart
    fun i hi hi' b hb => borrowStep_spec hd ht hi (by omega) hb
  obtain ⟨v, htop, hborrow, hsame, hm2⟩ := borrow_next hd ht (i := 15) (by omega) (by omega) hm1
  obtain ⟨hlow, hhigh, hcarry, hmasked⟩ := borrows_last hd ht hm2 (by omega) (by omega)
  have hlast : limb (m1.set 15 v) 15 = limb ((m1.set 15 v).set 14 (limb m1 14 % 65536)) 15 :=
    (limb_set_ne (by omega) _).symm
  have hlength := hm2.length
  have hw := length_differences ht
  have hstep : subtractStep t m = some (sel25519 t ((m1.set 15 v).set 14 (limb m1 14 % 65536))
      (1 - Int.land (shr (limb (m1.set 15 v) 15) 16) 1)) := by
    have htop' : subChecked (limb t 15) 0x7fff = some (limb t 15 - 0x7fff) := htop
    have hborrow' : subChecked (limb t 15 - 0x7fff) (Int.land (shr (limb m1 14) 16) 1) = some v :=
      hborrow
    have hsame' : limb (m1.set 15 v) 14 = limb m1 14 := hsame
    simp only [subtractStep, hfirst, hloop, htop', hborrow', hsame', mask_eq, Option.bind_eq_bind,
      Option.bind_some, Option.pure_def]
  generalize (m1.set 15 v).set 14 (limb m1 14 % 65536) = m3 at *
  simp only [Nat.reduceAdd, Nat.reduceSub] at hlow hhigh hcarry hmasked
  rw [List.take_of_length_le (l := differences t) (by omega)] at hcarry hmasked
  rw [hlast, borrow_eq hlow (by omega), hcarry, carries_differences_eq hd ht] at hstep
  rw [carries_differences_eq hd ht] at hcarry
  by_cases hp : (p : ℤ) ≤ value 65536 t
  · rw [if_pos hp] at hcarry hstep ⊢
    have hall : m3 = digits 65536 0 (differences t) := by
      have hself : limb m3 15 % 65536 = limb m3 15 := by omega
      have hset : m3.set 15 (limb m3 15) = m3 := by
        rw [limb, List.getD_eq_getElem?_getD, List.getElem?_eq_getElem (by omega)]
        exact List.set_getElem_self _
      rw [← hmasked, hself, hset, List.take_of_length_le (by omega)]
    have hvalue := value_digits 65536 0 (differences t)
    have hdiff := value_zipWith_sub 65536 (l := t) (m := primeLimbs) ht
    rw [carries_differences_eq hd ht, if_pos hp, mul_zero, add_zero, add_zero, differences, hdiff,
      value_primeLimbs, ← differences, ← hall] at hvalue
    refine ⟨m3, t, hstep.trans (congrArg some (sel25519_eq (by omega) true)), ht, by omega, ?_,
      hvalue⟩
    rw [hall]
    exact between_digits (by omega) 0 _
  · rw [if_neg hp] at hstep ⊢
    exact ⟨t, m3, hstep.trans (congrArg some (sel25519_eq (by omega) false)), by omega, ht, hd, rfl⟩

/-! ## Writing octets -/

/-- A pass over what two passes left gives digits. -/
theorem car_reduced {o : Gf} (ho : Reduced o) :
    ∃ d, car25519 o = some d ∧ d.length = 16 ∧ MembersIn 0 65535 d ∧
      (value 65536 d : ZMod p) = value 65536 o := by
  have hlen := ho.length
  have hcar := car25519_eq hlen (MembersIn.mono ho.between (by omega) (by omega))
  have hcast := cast_value_car (F := ZMod p) hlen
  refine ⟨_, hcar, by rw [length_addHead, length_digits, hlen], ?_, hcast⟩
  obtain ⟨d, k, rfl, hd, hbetween, hlow, hhigh⟩ := ho
  obtain ⟨x, ds, rfl⟩ : ∃ x ds, d = x :: ds := by
    cases d with
    | nil => cases hd
    | cons x ds => exact ⟨x, ds, rfl⟩
  have hx := hbetween x List.mem_cons_self
  have hds : MembersIn 0 (65536 - 1) ds := fun y hy => hbetween y (List.mem_cons_of_mem x hy)
  have hcount : ds.length = 15 := by simpa using hd
  obtain ⟨hrest, hrest'⟩ := value_nonneg (B := 65536) (by omega) hds
  have hcarry := (carries_eq (B := 65536) (by omega) 0 (addHead (38 * k) (x :: ds))).1
  rw [length_addHead, hd, value_addHead (by simp), value_cons, add_zero] at hcarry
  rw [hcount] at hrest'
  have hdigits := between_digits (B := 65536) (by omega) 0 (addHead (38 * k) (x :: ds))
  generalize carries 65536 0 (addHead (38 * k) (x :: ds)) = c at *
  simp only [addHead, digits, add_zero] at hdigits ⊢
  intro y hy
  rcases List.mem_cons.mp hy with rfl | hy
  · norm_num at hrest' hcarry
    omega
  · exact hdigits y (List.mem_cons_of_mem _ hy)

/-- Reduced digits are left alone by the carries. -/
theorem car_digits {d : Gf} (hlen : d.length = 16) (hd : MembersIn 0 65535 d) :
    car25519 d = some d := by
  obtain ⟨hdigits, hcarries⟩ := digits_eq_self (B := 65536) hd
  rw [car25519_eq hlen (MembersIn.mono hd (by omega) (by omega)), hdigits, hcarries, mul_zero]
  cases d with
  | nil => rfl
  | cons x d => simp [addHead]

/-- The two octets of a digit. -/
def octetsOf (x : ℤ) : Bytes := [UInt8.ofNat (x % 256).toNat, UInt8.ofNat (shr x 8 % 256).toNat]

/-- The octets of the digits are the number. -/
theorem littleEndian_octets {l : Gf} (hl : MembersIn 0 65535 l) :
    (littleEndian (l.flatMap octetsOf) : ℤ) = value 65536 l := by
  induction l with
  | nil => rfl
  | cons x l ih =>
    have hx := hl x List.mem_cons_self
    have hrest := ih fun y hy => hl y (List.mem_cons_of_mem x hy)
    have hlow : (UInt8.ofNat (x % 256).toNat).toNat = (x % 256).toNat := by
      rw [UInt8.toNat_ofNat']
      omega
    have hhigh : (UInt8.ofNat (x / 256 % 256).toNat).toNat = (x / 256 % 256).toNat := by
      rw [UInt8.toNat_ofNat']
      omega
    have hshr : shr x 8 = x / 256 := by
      rw [shr_eq]
      norm_num
    simp only [littleEndian, ofOctets, List.reverse_reverse] at hrest ⊢
    simp only [List.flatMap_cons, octetsOf, hshr, List.cons_append, List.nil_append,
      List.map_cons, Nat.ofDigits_cons, hlow, hhigh, value_cons]
    rw [← hrest]
    push_cast
    omega

/-- Subtracting the prime changes nothing in the field. -/
theorem cast_ite_sub (c : Prop) [Decidable c] (v : ℤ) :
    ((if c then v - p else v : ℤ) : ZMod p) = v := by
  split
  · rw [Int.cast_sub, Int.cast_natCast, ZMod.natCast_self, sub_zero]
  · rfl

/-- **The canonical encoding.** -/
theorem pack25519_spec {o : Gf} {x : ZMod p} (ho : Reduced o) (hx : (value 65536 o : ZMod p) = x) :
    pack25519 o = some (encodeUCoordinate x) := by
  obtain ⟨d, hcar, hlen, hd, hcast⟩ := car_reduced ho
  have hsame := car_digits hlen hd
  obtain ⟨t, m, hfirst, hm, ht, htd, hvalue⟩ := subtractStep_spec (m := gf0) hd hlen rfl
  obtain ⟨t', m', hsecond, -, ht', htd', hvalue'⟩ := subtractStep_spec htd ht hm
  obtain ⟨hlow, hhigh⟩ := value_nonneg (B := 65536) (by omega) hd
  have hp : (p : ℤ) = 2 ^ 255 - 19 := by
    rw [p]
    norm_num
  have hbelow : value 65536 t' < p ∧ 0 ≤ value 65536 t' := by
    rw [hlen] at hhigh
    norm_num at hhigh hp
    split at hvalue <;> split at hvalue' <;> omega
  have hmod : (value 65536 t' : ZMod p) = x := by
    rw [hvalue', cast_ite_sub, hvalue, cast_ite_sub, hcast, hx]
  have hpack : pack25519 o = some (t'.flatMap octetsOf) := by
    simp only [pack25519, hcar, hsame, hfirst, hsecond, Option.bind_eq_bind, Option.bind_some,
      Option.pure_def]
    rfl
  have hval : x.val = littleEndian (t'.flatMap octetsOf) := by
    have hnumber := littleEndian_octets htd'
    rw [← hmod, ← hnumber, Int.cast_natCast, ZMod.val_cast_of_lt (by omega)]
  have hcount : (t'.flatMap octetsOf).reverse.length = 32 := by
    have hlength : ∀ l : Gf, (l.flatMap octetsOf).length = 2 * l.length := by
      intro l
      induction l with
      | nil => rfl
      | cons x l ih => simp [octetsOf, ih]; omega
    rw [List.length_reverse, hlength, ht']
  have hoctets := toOctets_ofOctets (t'.flatMap octetsOf).reverse
  rw [hcount, ← littleEndian, ← hval] at hoctets
  rw [hpack, encodeUCoordinate, hoctets, List.reverse_reverse]

/-! ## Reading octets -/

/-- The first octet counts least. -/
theorem littleEndian_cons (b : UInt8) (s : Bytes) :
    littleEndian (b :: s) = b.toNat + 256 * littleEndian s := by
  simp [littleEndian, ofOctets, Nat.ofDigits_cons]

/-- The octets behind count more. -/
theorem littleEndian_append (a b : Bytes) :
    littleEndian (a ++ b) = littleEndian a + 256 ^ a.length * littleEndian b := by
  rw [littleEndian, List.reverse_append, ofOctets_append, List.length_reverse]
  rfl

/-- `n` octets are less than `256 ^ n`. -/
theorem littleEndian_lt (s : Bytes) : littleEndian s < 256 ^ s.length := by
  have hlt := ofOctets_lt s.reverse
  rwa [List.length_reverse] at hlt

/-- The limb of two octets. -/
def limbOf (s : Bytes) (i : ℕ) : ℤ :=
  ((byteAt s (2 * i)).toNat : ℤ) + ((byteAt s (2 * i + 1)).toNat : ℤ) * 2 ^ 8

/-- A digit of the input has 16 bits. -/
theorem between_limbOf (s : Bytes) (i : ℕ) : 0 ≤ limbOf s i ∧ limbOf s i ≤ 65535 := by
  have hlow := (byteAt s (2 * i)).toNat_lt
  have hhigh := (byteAt s (2 * i + 1)).toNat_lt
  unfold limbOf
  omega

/-- The digits of the input are its number. -/
theorem value_limbs {n : ℕ} {s : Bytes} (hs : s.length = 2 * n) :
    value 65536 ((List.range n).map (limbOf s)) = littleEndian s := by
  induction n generalizing s with
  | zero =>
    rw [List.length_eq_zero_iff.mp hs]
    rfl
  | succ n ih =>
    match s, hs with
    | a :: b :: rest, hs =>
      have hrest : rest.length = 2 * n := by
        simp only [List.length_cons] at hs
        omega
      have hshift : (limbOf (a :: b :: rest)) ∘ Nat.succ = limbOf rest := by
        funext i
        simp only [Function.comp_apply, limbOf, byteAt, Nat.succ_eq_add_one, Nat.mul_add,
          Nat.mul_one, Nat.add_right_comm _ 2 1, List.getD_cons_succ]
      have hhead : limbOf (a :: b :: rest) 0 = (a.toNat : ℤ) + (b.toNat : ℤ) * 2 ^ 8 := rfl
      rw [List.range_succ_eq_map, List.map_cons, List.map_map, hshift, value_cons, ih hrest,
        littleEndian_cons, littleEndian_cons, hhead]
      push_cast
      ring

/-- **The u-coordinate without its top bit.** -/
theorem unpack25519_spec (n : FixedBytes 32) :
    Element (2 ^ 17) (unpack25519 n) (decodeUCoordinate n.val) := by
  have hlimbs := value_limbs (n := 16) n.property
  have hsplit : (List.range 16).map (limbOf n.val) =
      (List.range 15).map (limbOf n.val) ++ [limbOf n.val 15] := by
    rw [List.range_succ (n := 15), List.map_append, List.map_singleton]
  have hcount : ((List.range 15).map (limbOf n.val)).length = 15 := by simp
  have hunpack : unpack25519 n =
      (List.range 15).map (limbOf n.val) ++ [limbOf n.val 15 % 32768] := by
    have hmask := land_mask (limbOf n.val 15) 15
    norm_num at hmask
    show ((List.range 16).map (limbOf n.val)).set 15
      (Int.land (limb ((List.range 16).map (limbOf n.val)) 15) 0x7fff) = _
    rw [hsplit, ← hmask]
    have hlimb := limb_append_cons ((List.range 15).map (limbOf n.val)) (limbOf n.val 15) []
    have hset := set_append_cons ((List.range 15).map (limbOf n.val)) (limbOf n.val 15)
      (Int.land (limbOf n.val 15) 0x7fff) []
    rw [hcount] at hlimb hset
    rw [hlimb, hset]
  have hfront : MembersIn 0 (65536 - 1) ((List.range 15).map (limbOf n.val)) := by
    intro x hx
    obtain ⟨i, -, rfl⟩ := List.mem_map.mp hx
    exact between_limbOf n.val i
  have hlast := between_limbOf n.val 15
  refine ⟨by simp [hunpack], ?_, ?_⟩
  · intro x hx
    rw [hunpack, List.mem_append, List.mem_singleton] at hx
    rcases hx with hx | rfl
    · have hdigit := hfront x hx
      omega
    · omega
  · obtain ⟨hlow, hhigh⟩ := value_nonneg (B := 65536) (by omega) hfront
    have hnumber : value 65536 (unpack25519 n) = (littleEndian n.val % 2 ^ 255 : ℕ) := by
      rw [hsplit, value_append, hcount, value_cons, value_nil] at hlimbs
      rw [hunpack, value_append, hcount, value_cons, value_nil]
      rw [hcount] at hhigh
      push_cast
      rw [← hlimbs]
      norm_num at hhigh ⊢
      omega
    rw [hnumber, Int.cast_natCast, decodeUCoordinate]

/-! ## The scalar -/

/-- An octet is a digit of the number. -/
theorem littleEndian_div (s : Bytes) (k : ℕ) :
    littleEndian s / 256 ^ k % 256 = (byteAt s k).toNat := by
  induction s generalizing k with
  | nil => simp [littleEndian, byteAt]
  | cons b s ih =>
    have hb := b.toNat_lt
    rw [littleEndian_cons]
    cases k with
    | zero =>
      rw [pow_zero, Nat.div_one]
      show _ = b.toNat
      omega
    | succ k =>
      have hquotient : (b.toNat + 256 * littleEndian s) / 256 = littleEndian s := by omega
      rw [pow_succ', ← Nat.div_div_eq_div_mul, hquotient, ih]
      rfl

/-- The bit that `scalarmult` reads. -/
theorem bit_eq (z : Bytes) (i : ℕ) : ((byteAt z (i >>> 3)).toNat >>> (i &&& 7) &&& 1) =
    if (littleEndian z).testBit i then 1 else 0 := by
  have hdiv : i >>> 3 = i / 8 := Nat.shiftRight_eq_div_pow i 3
  have hmod : i &&& 7 = i % 8 := Nat.and_two_pow_sub_one_eq_mod i 3
  have hbyte := littleEndian_div z (i / 8)
  have hpow : (256 : ℕ) ^ (i / 8) = 2 ^ (8 * (i / 8)) := by
    rw [pow_mul]
    rfl
  have hbit : (byteAt z (i / 8)).toNat.testBit (i % 8) = (littleEndian z).testBit i := by
    rw [← hbyte, hpow, Nat.testBit_mod_two_pow _ 8 (i % 8), Nat.testBit_div_two_pow,
      Nat.mod_add_div, decide_eq_true (Nat.mod_lt i (by omega)), Bool.true_and]
  rw [hdiv, hmod, Nat.and_one_is_mod, Nat.shiftRight_eq_div_pow, ← hbit,
    Nat.testBit_eq_decide_div_mod_eq]
  have hlt := Nat.mod_lt ((byteAt z (i / 8)).toNat / 2 ^ (i % 8)) (by omega : 0 < 2)
  by_cases hone : (byteAt z (i / 8)).toNat / 2 ^ (i % 8) % 2 = 1
  · simp [hone]
  · simp [hone]
    omega

/-- The clamped octets as numbers. -/
theorem clamp_bytes (b : UInt8) :
    (b &&& 248).toNat = b.toNat / 8 * 8 ∧ ((b &&& 127) ||| 64).toNat = 64 + b.toNat % 64 := by
  have hall : ∀ n < 256, (n &&& 248) = n / 8 * 8 ∧ ((n &&& 127) ||| 64) = 64 + n % 64 := by
    decide +kernel
  exact hall b.toNat b.toNat_lt

/-- **The clamped scalar.** -/
theorem littleEndian_clamp (n : FixedBytes 32) :
    littleEndian (clamp n).val = decodeScalar n.val := by
  obtain ⟨s, hs⟩ := n
  obtain ⟨first, rest, rfl⟩ : ∃ first rest, s = first :: rest := by
    cases s with
    | nil => cases hs
    | cons first rest => exact ⟨first, rest, rfl⟩
  obtain ⟨middle, last, rfl⟩ : ∃ middle last, rest = middle ++ [last] := by
    cases rest using List.reverseRecOn with
    | nil => cases hs
    | append_singleton middle last => exact ⟨middle, last, rfl⟩
  have hcount : middle.length = 30 := by simpa using hs
  have hclamp : (clamp ⟨first :: (middle ++ [last]), hs⟩).val =
      (first &&& 248) :: (middle ++ [(last &&& 127) ||| 64]) := by
    simp [clamp, FixedBytes.set, hcount, byteAt]
  obtain ⟨hlow, -⟩ := clamp_bytes first
  obtain ⟨-, hhigh⟩ := clamp_bytes last
  have hmiddle := littleEndian_lt middle
  have hfirst := first.toNat_lt
  have htop := last.toNat_lt
  have hnil : littleEndian [] = 0 := rfl
  rw [hcount] at hmiddle
  rw [hclamp, decodeScalar]
  simp only [littleEndian_cons, littleEndian_append, hcount, hlow, hhigh, hnil, Nat.mul_zero,
    Nat.add_zero]
  norm_num at hmiddle ⊢
  omega

/-! ## The ladder -/

/-- The arrays stand for the variables of the standard after the swap that is still due. -/
structure Tracks (s : Ladder) (st : State) : Prop where
  a : Element (2 ^ 17) s.a (cswap st.swap st.x2 st.x3).1
  b : Element (2 ^ 17) s.b (cswap st.swap st.x2 st.x3).2
  c : Element (2 ^ 17) s.c (cswap st.swap st.z2 st.z3).1
  d : Element (2 ^ 17) s.d (cswap st.swap st.z2 st.z3).2

/-- The constant zero. -/
theorem element_gf0 : Element (F := ZMod p) (2 ^ 17) gf0 0 := by
  refine ⟨rfl, ?_, by simp [gf0]⟩
  unfold MembersIn
  decide

/-- The constant one. -/
theorem element_gf1 : Element (F := ZMod p) (2 ^ 17) gf1 1 := by
  refine ⟨rfl, ?_, by simp [gf1]⟩
  unfold MembersIn
  decide

/-- The constant 121665. -/
theorem element_c121665 : Element (F := ZMod p) (2 ^ 17) c121665 121665 := by
  refine ⟨rfl, ?_, ?_⟩
  · unfold MembersIn
    decide
  · have hvalue : value 65536 c121665 = 121665 := by simp [c121665]
    rw [hvalue, Int.cast_ofNat]

/-- Two arrays that stand for two variables, after a swap of both. -/
theorem elements_cswap {c : ℤ} {l m : Gf} {x y : ZMod p} (hl : Element c l x)
    (hm : Element c m y) (b : Bool) :
    Element c (if b then (m, l) else (l, m)).1 (cswap b x y).1 ∧
      Element c (if b then (m, l) else (l, m)).2 (cswap b x y).2 := by
  cases b with
  | false => exact ⟨hl, hm⟩
  | true => exact ⟨hm, hl⟩

/-- Two swaps are one by the exclusive or. -/
theorem cswap_xor (a b : Bool) (x y : ZMod p) :
    cswap (a ^^ b) x y = cswap b (cswap a x y).1 (cswap a x y).2 := by
  cases a <;> cases b <;> rfl

/-- **A step of the ladder.** -/
theorem ladderStep_spec {z : Bytes} {x : Gf} {u : ZMod p} (hx : Element (2 ^ 17) x u)
    {s : Ladder} {st : State} (hs : Tracks s st) (i : ℕ) :
    ∃ s', ladderStep z x s i = some s' ∧ Tracks s' (step (littleEndian z) u st i) := by
  have hbit := bit_eq z i
  generalize hr : (littleEndian z).testBit i = r at hbit
  have hcast : (((byteAt z (i >>> 3)).toNat >>> (i &&& 7) &&& 1 : ℕ) : ℤ) =
      if r then 1 else 0 := by
    rw [hbit]
    cases r <;> rfl
  have hsel := sel25519_eq (hs.a.length.trans hs.b.length.symm) r
  have hsel' := sel25519_eq (hs.c.length.trans hs.d.length.symm) r
  obtain ⟨ha, hb⟩ := elements_cswap hs.a hs.b r
  obtain ⟨hc, hd⟩ := elements_cswap hs.c hs.d r
  rw [← cswap_xor] at ha hb hc hd
  generalize (if r then (s.b, s.a) else (s.a, s.b)) = ab at hsel ha hb
  generalize (if r then (s.d, s.c) else (s.c, s.d)) = cd at hsel' hc hd
  obtain ⟨a, b⟩ := ab
  obtain ⟨c, d⟩ := cd
  dsimp only at ha hb hc hd
  unfold step
  rw [hr]
  dsimp only
  generalize cswap (st.swap ^^ r) st.x2 st.x3 = x23 at ha hb ⊢
  generalize cswap (st.swap ^^ r) st.z2 st.z3 = z23 at hc hd ⊢
  obtain ⟨e, he, hae⟩ := A_spec ha hc (by norm_num)
  obtain ⟨a1, ha1, hba⟩ := Z_spec ha hc (by norm_num)
  obtain ⟨c1, hc1, hcc⟩ := A_spec hb hd (by norm_num)
  obtain ⟨b1, hb1, hdb⟩ := Z_spec hb hd (by norm_num)
  obtain ⟨d1, hd1, -, haa⟩ := S_spec (hae.mono (by norm_num))
  obtain ⟨f, hf, -, hbb⟩ := S_spec (hba.mono (by norm_num))
  obtain ⟨a2, ha2, -, hcb⟩ := M_spec (hcc.mono (by norm_num)) (hba.mono (by norm_num))
  obtain ⟨c2, hc2, -, hda⟩ := M_spec (hdb.mono (by norm_num)) (hae.mono (by norm_num))
  obtain ⟨e2, he2, hsum⟩ := A_spec hcb hda (by norm_num)
  obtain ⟨a3, ha3, hdiff⟩ := Z_spec hcb hda (by norm_num)
  obtain ⟨b2, hb2, -, hdiff2⟩ := S_spec (hdiff.mono (by norm_num))
  obtain ⟨c3, hc3, hee⟩ := Z_spec haa hbb (by norm_num)
  obtain ⟨a4, ha4, -, hscaled⟩ := M_spec (hee.mono (by norm_num))
    (element_c121665.mono (by norm_num))
  obtain ⟨a5, ha5, hfactor⟩ := A_spec hscaled haa (by norm_num)
  obtain ⟨c4, hc4, -, hz2⟩ := M_spec (hee.mono (by norm_num)) (hfactor.mono (by norm_num))
  obtain ⟨a6, ha6, -, hx2⟩ := M_spec (haa.mono (by norm_num)) (hbb.mono (by norm_num))
  obtain ⟨d2, hd2, -, hz3⟩ := M_spec (hdiff2.mono (by norm_num)) (hx.mono (by norm_num))
  obtain ⟨b3, hb3, -, hx3⟩ := S_spec (hsum.mono (by norm_num))
  have hlast := sel25519_eq (hx2.length.trans hx3.length.symm) r
  have hlast' := sel25519_eq (hz2.length.trans hz3.length.symm) r
  obtain ⟨hta, htb⟩ := elements_cswap hx2 (hx3.of_eq (by ring :
    _ = ((x23.2 - z23.2) * (x23.1 + z23.1) + (x23.2 + z23.2) * (x23.1 - z23.1)) ^ 2)) r
  obtain ⟨htc, htd⟩ := elements_cswap (hz2.of_eq (by ring :
    _ = ((x23.1 + z23.1) ^ 2 - (x23.1 - z23.1) ^ 2) * ((x23.1 + z23.1) ^ 2 +
      121665 * ((x23.1 + z23.1) ^ 2 - (x23.1 - z23.1) ^ 2)))) (hz3.of_eq (by ring :
    _ = u * ((x23.2 - z23.2) * (x23.1 + z23.1) - (x23.2 + z23.2) * (x23.1 - z23.1)) ^ 2)) r
  generalize (if r then (b3, a6) else (a6, b3)) = ab at hlast hta htb
  generalize (if r then (d2, c4) else (c4, d2)) = cd at hlast' htc htd
  refine ⟨⟨ab.1, ab.2, cd.1, cd.2⟩, ?_, hta, htb, htc, htd⟩
  unfold ladderStep
  dsimp only
  rw [hcast, hsel, hsel']
  dsimp only [Option.bind_eq_bind]
  rw [he, Option.bind_some, ha1, Option.bind_some, hc1, Option.bind_some, hb1, Option.bind_some,
    hd1, Option.bind_some, hf, Option.bind_some, ha2, Option.bind_some, hc2, Option.bind_some,
    he2, Option.bind_some, ha3, Option.bind_some, hb2, Option.bind_some, hc3, Option.bind_some,
    ha4, Option.bind_some, ha5, Option.bind_some, hc4, Option.bind_some, ha6, Option.bind_some,
    hd2, Option.bind_some, hb3, Option.bind_some, hlast, hlast']
  rfl

/-- The loop follows the ladder. -/
theorem ladderLoop_spec {z : Bytes} {x : Gf} {u : ZMod p} (hx : Element (2 ^ 17) x u) (n : ℕ)
    {s : Ladder} {st : State} (hs : Tracks s st) :
    ∃ s', ladderLoop z x n s = some s' ∧ Tracks s' (ladder (littleEndian z) u n st) := by
  induction n generalizing s st with
  | zero => exact ⟨s, rfl, hs⟩
  | succ n ih =>
    obtain ⟨s', hs', htracks⟩ := ladderStep_spec (z := z) hx hs n
    obtain ⟨s'', hs'', htracks'⟩ := ih htracks
    refine ⟨s'', ?_, htracks'⟩
    simp only [ladderLoop, hs', Option.bind_eq_bind, Option.bind_some]
    exact hs''

/-! ## The functions -/

/-- The ladder ends with a swap and an inversion. -/
theorem montgomery_eq (k : ℕ) (u : ZMod p) {st : State}
    (hst : ladder k u 255 ⟨1, 0, u, 1, false⟩ = st) :
    montgomery k u = (cswap st.swap st.x2 st.x3).1 * (cswap st.swap st.z2 st.z3).1 ^ (p - 2) := by
  unfold montgomery
  rw [hst]

/-- `scalarmult` is X25519, and no intermediate overflows. -/
theorem scalarmult_eq (n q : FixedBytes 32) : scalarmult n q = some (x25519 n.val q.val) := by
  have hx := unpack25519_spec q
  have hstart : Tracks ⟨gf1, unpack25519 q, gf0, gf1⟩
      ⟨1, 0, decodeUCoordinate q.val, 1, false⟩ := ⟨element_gf1, hx, element_gf0, element_gf1⟩
  obtain ⟨s, hs, htracks⟩ := ladderLoop_spec (z := (clamp n).val) hx 255 hstart
  obtain ⟨c, hc, hinverse⟩ := inv25519_spec htracks.c
  obtain ⟨a, ha, hreduced, hproduct⟩ := M_spec (htracks.a.mono (by norm_num))
    (hinverse.mono (by norm_num))
  have hpack := pack25519_spec hreduced hproduct.cast
  have hexponent : 2 ^ 255 - 21 = p - 2 := by
    rw [p]
    omega
  rw [littleEndian_clamp, hexponent, ← montgomery_eq _ _ rfl] at hpack
  unfold scalarmult
  dsimp only [Option.bind_eq_bind]
  rw [hs, Option.bind_some, hc, Option.bind_some, ha, Option.bind_some, hpack, x25519]

/-- The check that all bytes are zero. -/
theorem allZero_iff (s : Bytes) : allZero s ↔ s = List.replicate s.length 0 := by
  have hzip : List.zipWith (· ^^^ ·) s (List.replicate s.length 0) = s := by
    induction s with
    | nil => rfl
    | cons b s ih => simp [List.replicate_succ, ih]
  have hfold := foldl_or_xor_eq_zero_iff s (List.replicate s.length 0) (by simp)
  rwa [hzip] at hfold

/-- **Both functions compute X25519, and no intermediate overflows.** -/
theorem x25519_refines (privateKey peerPublicKey : FixedBytes 32) :
    scalarmult privateKey peerPublicKey = some (x25519 privateKey.val peerPublicKey.val) ∧
      x25519PublicFromPrivate privateKey = some (x25519 privateKey.val basePoint) ∧
      x25519SharedSecret privateKey peerPublicKey =
        some (if x25519 privateKey.val peerPublicKey.val = List.replicate 32 0 then
          .error .verify else .ok (x25519 privateKey.val peerPublicKey.val)) := by
  refine ⟨scalarmult_eq _ _, scalarmult_eq _ _, ?_⟩
  have hlen : (x25519 privateKey.val peerPublicKey.val).length = 32 := by
    rw [x25519, encodeUCoordinate, List.length_reverse, length_toOctets]
  have hzero := allZero_iff (x25519 privateKey.val peerPublicKey.val)
  rw [hlen] at hzero
  simp only [x25519SharedSecret, scalarmult_eq, Option.bind_eq_bind, Option.bind_some,
    Option.pure_def, hzero]

end XboxTls.Analysis
