import XboxTls.Interface.Curve25519
import XboxTls.Model.X25519
import XboxTls.Programs.SignedLimbs

/-!
# The field operations of X25519

A carry pass of the code leaves the digits of the number with the last carry, times 38, added to
the first.  Two passes after a product leave members that are digits but for one, so that sums and
differences of two such arrays can be multiplied again: no operation overflows, and each computes
the operation of the field.
-/

set_option autoImplicit false

namespace XboxTls.Analysis

open Programs Programs.SignedLimbs XboxTls.Model.X25519

/-! ## Limbs -/

/-- The member behind a front part. -/
theorem limb_append_cons (l : Gf) (x : ℤ) (s : Gf) : limb (l ++ x :: s) l.length = x := by
  simp [limb]

/-- Setting the member behind a front part. -/
theorem set_append_cons (l : Gf) (x v : ℤ) (s : Gf) :
    (l ++ x :: s).set l.length v = l ++ v :: s := by
  simp

/-- The second member behind a front part. -/
theorem limb_append_cons_cons (l : Gf) (x y : ℤ) (s : Gf) :
    limb (l ++ x :: y :: s) (l.length + 1) = y := by
  simp [limb]

/-- Setting the second member behind a front part. -/
theorem set_append_cons_cons (l : Gf) (x y v : ℤ) (s : Gf) :
    (l ++ x :: y :: s).set (l.length + 1) v = l ++ x :: v :: s := by
  simp

/-- A limb inside the number is a member. -/
theorem limb_mem {a : Gf} {i : ℕ} (hi : i < a.length) : limb a i ∈ a := by
  rw [limb, List.getD_eq_getElem?_getD, List.getElem?_eq_getElem hi]
  exact List.getElem_mem hi

/-- Setting a limb leaves the others. -/
theorem limb_set_ne {a : Gf} {i j : ℕ} (h : i ≠ j) (v : ℤ) : limb (a.set i v) j = limb a j := by
  simp [limb, List.getElem?_set_ne h]

/-! ## The carry pass -/

/-- What a pass computes from a member: the rest `x / 65536` and the digit. -/
theorem carry_checks {x : ℤ} (hx : |x| ≤ 2 ^ 60) :
    addChecked x (2 ^ 16) = some (x + 2 ^ 16) ∧ shr (x + 2 ^ 16) 16 = x / 65536 + 1 ∧
      subChecked (x / 65536 + 1) 1 = some (x / 65536) ∧
      mulChecked 37 (x / 65536) = some (37 * (x / 65536)) ∧
      shlChecked (x / 65536 + 1) 16 = some ((x / 65536 + 1) * 2 ^ 16) ∧
      subChecked (x + 2 ^ 16) ((x / 65536 + 1) * 2 ^ 16) = some (x % 65536) := by
  rw [abs_le] at hx
  have hdigit : x + 2 ^ 16 - (x / 65536 + 1) * 2 ^ 16 = x % 65536 := by omega
  refine ⟨checked_of_abs_le ?_, ?_, ?_, checked_of_abs_le ?_, checked_of_abs_le ?_, ?_⟩
  · rw [abs_le]
    omega
  · rw [shr_eq]
    omega
  · rw [subChecked, add_sub_cancel_right]
    exact checked_of_abs_le (by rw [abs_le]; omega)
  · rw [abs_le]
    omega
  · rw [abs_le]
    omega
  · rw [subChecked, hdigit]
    exact checked_of_abs_le (by rw [abs_le]; omega)

/-- A member is cut to a digit, and the rest goes to the next one. -/
theorem carStep_middle {l s : Gf} {x y : ℤ} (hl : l.length < 15) (hx : |x| ≤ 2 ^ 60)
    (hy : |y| ≤ 2 ^ 60) :
    carStep (l ++ x :: y :: s) l.length =
      some (l ++ x % 65536 :: (y + x / 65536) :: s) := by
  obtain ⟨hsum, hshift, hsub, hmul, hshl, hrest⟩ := carry_checks hx
  rw [abs_le] at hx hy
  have hlast : mulChecked (37 * (x / 65536)) 0 = some 0 := by
    rw [mulChecked, mul_zero]
    rfl
  have hadd : addChecked (x / 65536) 0 = some (x / 65536) := by
    rw [addChecked, add_zero]
    exact checked_of_abs_le (by rw [abs_le]; omega)
  have hnext : addChecked y (x / 65536) = some (y + x / 65536) :=
    checked_of_abs_le (by rw [abs_le]; omega)
  unfold carStep
  simp only [limb_append_cons, set_append_cons, hsum, Option.bind_eq_bind, Option.bind_some,
    hshift, hsub, hmul, if_neg hl.ne, if_pos hl, hlast, hadd, mul_one, limb_append_cons_cons,
    set_append_cons_cons, hnext, hshl, hrest, Option.pure_def]

/-- The last member gives its rest, times 38, to the first. -/
theorem carStep_last {l : Gf} {x y : ℤ} (hl : l.length = 14) (hx : |x| ≤ 2 ^ 60)
    (hy : |y| ≤ 2 ^ 60) :
    carStep (y :: (l ++ [x])) 15 = some ((y + 38 * (x / 65536)) :: (l ++ [x % 65536])) := by
  obtain ⟨hsum, hshift, hsub, hmul, hshl, hrest⟩ := carry_checks hx
  rw [abs_le] at hx hy
  have hlimb : ∀ v w : ℤ, limb (v :: (l ++ [w])) 15 = w := by
    intro v w
    have happ := limb_append_cons (v :: l) w []
    rwa [List.length_cons, hl] at happ
  have hset : ∀ v w u : ℤ, (v :: (l ++ [w])).set 15 u = v :: (l ++ [u]) := by
    intro v w u
    have happ := set_append_cons (v :: l) w u []
    rwa [List.length_cons, hl] at happ
  have hfirst : ∀ v w : ℤ, limb (v :: (l ++ [w])) 0 = v := fun v w => rfl
  have hput : ∀ v w u : ℤ, (v :: (l ++ [w])).set 0 u = u :: (l ++ [w]) := fun v w u => rfl
  have hlast : mulChecked (37 * (x / 65536)) 1 = some (37 * (x / 65536)) := by
    rw [mulChecked, mul_one]
    exact checked_of_abs_le (by rw [abs_le]; omega)
  have hadd : addChecked (x / 65536) (37 * (x / 65536)) = some (38 * (x / 65536)) := by
    rw [addChecked, show x / 65536 + 37 * (x / 65536) = 38 * (x / 65536) by ring]
    exact checked_of_abs_le (by rw [abs_le]; omega)
  have hnext : addChecked y (38 * (x / 65536)) = some (y + 38 * (x / 65536)) :=
    checked_of_abs_le (by rw [abs_le]; omega)
  unfold carStep
  simp only [hlimb, hset, hfirst, hput, hsum, Option.bind_eq_bind, Option.bind_some, hshift, hsub,
    hmul, if_pos, lt_irrefl, if_neg, not_false_eq_true, mul_zero, hlast, hadd, hnext, hshl, hrest,
    Option.pure_def]

/-- `k` added to the first member. -/
def addHead (k : ℤ) : Gf → Gf
  | [] => []
  | x :: l => (x + k) :: l

/-- Adding to the first limb leaves the length. -/
@[simp] theorem length_addHead (k : ℤ) (l : Gf) : (addHead k l).length = l.length := by
  cases l <;> rfl

/-- Adding to the first limb adds to the value. -/
theorem value_addHead {k : ℤ} {l : Gf} (hl : l ≠ []) :
    value 65536 (addHead k l) = value 65536 l + k := by
  cases l with
  | nil => exact absurd rfl hl
  | cons x l =>
    simp only [addHead, value_cons]
    ring

/-- A member is bounded as all are. -/
theorem abs_le_of_between {c x : ℤ} {o : Gf} (ho : MembersIn (-c) c o) (hx : x ∈ o) : |x| ≤ c :=
  abs_le.mpr (ho x hx)

/-- The members before index `i` are digits, and their carry waits at `i`. -/
theorem car_passes {o : Gf} (hlen : o.length = 16) (ho : MembersIn (-2 ^ 57) (2 ^ 57) o) :
    (List.range 15).foldlM carStep o =
      some (digits 65536 0 (o.take 15) ++ addHead (carries 65536 0 (o.take 15)) (o.drop 15)) := by
  have hpass := foldlM_range (n := 15) (f := carStep) (b := o)
    (fun i b => b = digits 65536 0 (o.take i) ++ addHead (carries 65536 0 (o.take i)) (o.drop i))
    (by cases o <;> simp [digits, carries, addHead]) ?_
  · obtain ⟨b, hb, rfl⟩ := hpass
    exact hb
  · rintro i hi b rfl
    have hx : o.drop i = o[i] :: o[i + 1] :: o.drop (i + 2) := by
      rw [List.drop_eq_getElem_cons (by omega), List.drop_eq_getElem_cons (by omega)]
    have hnext : o.drop (i + 1) = o[i + 1] :: o.drop (i + 2) :=
      List.drop_eq_getElem_cons (by omega)
    have hcarry := abs_carries_le (B := 65536) (c := 2 ^ 57) (l := o.take i) (k := 0) (by omega)
      (fun y hy => ho y (List.mem_of_mem_take hy)) (by simp) (by omega)
    have hxi := abs_le_of_between ho (List.getElem_mem (show i < o.length by omega))
    have hxj := abs_le_of_between ho (List.getElem_mem (show i + 1 < o.length by omega))
    have hlength : (digits 65536 0 (o.take i)).length = i := by
      rw [length_digits, List.length_take]
      omega
    have hstep := carStep_middle (l := digits 65536 0 (o.take i))
      (x := o[i] + carries 65536 0 (o.take i)) (y := o[i + 1]) (s := o.drop (i + 2)) (by omega)
      (by rw [abs_le] at *; omega) (by rw [abs_le] at *; omega)
    rw [hlength] at hstep
    refine ⟨_, ?_, rfl⟩
    rw [hx, hnext, addHead, addHead, hstep, List.take_succ_eq_append_getElem (by omega),
      digits_append, carries_append]
    simp [digits, carries]

/-- **A carry pass.** -/
theorem car25519_eq {o : Gf} (hlen : o.length = 16) (ho : MembersIn (-2 ^ 57) (2 ^ 57) o) :
    car25519 o = some (addHead (38 * carries 65536 0 o) (digits 65536 0 o)) := by
  have hsplit : o = o.take 15 ++ [o[15]] := by
    rw [← List.take_succ_eq_append_getElem (by omega), List.take_of_length_le (by omega)]
  have hcarry := abs_carries_le (B := 65536) (c := 2 ^ 57) (l := o.take 15) (k := 0) (by omega)
    (fun y hy => ho y (List.mem_of_mem_take hy)) (by simp) (by omega)
  have hlast := abs_le_of_between ho (List.getElem_mem (show 15 < o.length by omega))
  have hdrop : o.drop 15 = [o[15]] := by
    rw [List.drop_eq_getElem_cons (by omega), List.drop_of_length_le (by omega)]
  have hlength : (digits 65536 0 (o.take 15)).length = 15 := by
    rw [length_digits, List.length_take]
    omega
  have hdigit := between_digits (B := 65536) (by omega) 0 (o.take 15)
  rw [car25519, List.range_succ (n := 15), List.foldlM_append, car_passes hlen ho, hdrop]
  conv_rhs => rw [hsplit, digits_append, carries_append]
  cases hd : digits 65536 0 (o.take 15) with
  | nil =>
    rw [hd] at hlength
    cases hlength
  | cons y l =>
    rw [hd] at hlength hdigit
    have hy := hdigit y List.mem_cons_self
    have hstep := carStep_last (l := l) (x := o[15] + carries 65536 0 (o.take 15)) (y := y)
      (by simpa using hlength) (by rw [abs_le] at *; omega) (by rw [abs_le]; omega)
    simpa [addHead, digits, carries] using hstep

/-! ## Two passes -/

/-- Digits, with -38, 0 or 38 added to the first. -/
def Reduced (o : Gf) : Prop :=
  ∃ d k, o = addHead (38 * k) d ∧ d.length = 16 ∧ MembersIn 0 65535 d ∧ -1 ≤ k ∧ k ≤ 1

/-- A reduced number has sixteen limbs. -/
theorem Reduced.length {o : Gf} (ho : Reduced o) : o.length = 16 := by
  obtain ⟨d, k, rfl, hlen, -, -, -⟩ := ho
  rwa [length_addHead]

/-- Adding to the first limb widens the bound. -/
theorem between_addHead {d : Gf} {k c : ℤ} (hd : MembersIn 0 65535 d) (hk : |k| ≤ c) :
    MembersIn (-(c + 65535)) (c + 65535) (addHead k d) := by
  rw [abs_le] at hk
  cases d with
  | nil => simp [addHead, MembersIn]
  | cons x d =>
    intro y hy
    rcases List.mem_cons.mp hy with rfl | hy
    · have hx := hd x List.mem_cons_self
      omega
    · have hx := hd y (List.mem_cons_of_mem x hy)
      omega

/-- A bound may be widened. -/
theorem MembersIn.mono {lo hi lo' hi' : ℤ} {l : Gf} (h : MembersIn lo hi l) (hlo : lo' ≤ lo)
    (hhi : hi ≤ hi') : MembersIn lo' hi' l := fun x hx =>
  ⟨hlo.trans (h x hx).1, (h x hx).2.trans hhi⟩

/-- The limbs of a reduced number have less than 17 bits. -/
theorem Reduced.between {o : Gf} (ho : Reduced o) : MembersIn (-2 ^ 17) (2 ^ 17) o := by
  obtain ⟨d, k, rfl, -, hd, hlow, hhigh⟩ := ho
  have hk : |38 * k| ≤ 38 := by
    rw [abs_le]
    omega
  exact MembersIn.mono (between_addHead hd hk) (by omega) (by omega)

/-- A ring in which `2^256` is 38, as it is modulo `2^255 - 19`. -/
class Folds (F : Type*) [CommRing F] : Prop where
  pow_eq : (65536 : F) ^ 16 = 38

variable {F : Type*} [CommRing F]

/-- A pass keeps the element of the field. -/
theorem cast_value_car [Folds F] {o : Gf} (hlen : o.length = 16) :
    (value 65536 (addHead (38 * carries 65536 0 o) (digits 65536 0 o)) : F) = value 65536 o := by
  have hsum := value_digits 65536 0 o
  have hne : digits 65536 0 o ≠ [] := by
    intro hnil
    have hlength := length_digits 65536 0 o
    rw [hnil, hlen] at hlength
    cases hlength
  rw [value_addHead hne]
  rw [hlen, add_zero] at hsum
  rw [← hsum, Int.cast_add, Int.cast_add, Int.cast_mul, Int.cast_mul, Int.cast_pow,
    Int.cast_ofNat, Int.cast_ofNat, Folds.pow_eq]

/-- **Two carry passes reduce.** -/
theorem car_car [Folds F] {o : Gf} (hlen : o.length = 16) (ho : MembersIn (-2 ^ 50) (2 ^ 50) o) :
    ∃ o', (car25519 o).bind car25519 = some o' ∧ Reduced o' ∧
      (value 65536 o' : F) = value 65536 o := by
  have hcarry := abs_carries_le (B := 65536) (c := 2 ^ 50) (k := 0) (by omega) ho (by simp)
    (by omega)
  have hfirst := car25519_eq hlen (MembersIn.mono ho (by omega) (by omega))
  have hdigits := between_digits (B := 65536) (by omega) 0 o
  generalize hc : carries 65536 0 o = c at hcarry hfirst
  have hmiddle : MembersIn (-2 ^ 57) (2 ^ 57) (addHead (38 * c) (digits 65536 0 o)) := by
    have hbound : |38 * c| ≤ 2 ^ 56 := by
      rw [abs_le] at *
      omega
    exact MembersIn.mono (between_addHead hdigits hbound) (by omega) (by omega)
  have hlength : (addHead (38 * c) (digits 65536 0 o)).length = 16 := by
    rw [length_addHead, length_digits, hlen]
  have hsecond := car25519_eq hlength hmiddle
  obtain ⟨hrange, hrange'⟩ := value_nonneg (B := 65536) (by omega) hdigits
  have hne : digits 65536 0 o ≠ [] := by
    intro hnil
    simp [hnil, addHead] at hlength
  have hquotient := (carries_eq (B := 65536) (by omega) 0 (addHead (38 * c) (digits 65536 0 o))).1
  rw [length_digits, hlen] at hrange'
  rw [hlength, value_addHead hne, add_zero] at hquotient
  rw [abs_le] at hcarry
  have hcast := cast_value_car (F := F) hlength
  rw [← hc, cast_value_car hlen, hc] at hcast
  have hlow : -1 ≤ carries 65536 0 (addHead (38 * c) (digits 65536 0 o)) := by
    rw [hquotient]
    apply (Int.le_ediv_iff_mul_le (by norm_num)).mpr
    norm_num at hrange' ⊢
    omega
  have hhigh : carries 65536 0 (addHead (38 * c) (digits 65536 0 o)) ≤ 1 := by
    rw [hquotient]
    apply Int.lt_add_one_iff.mp
    apply (Int.ediv_lt_iff_lt_mul (by norm_num)).mpr
    norm_num at hrange' ⊢
    omega
  rw [hfirst, Option.bind_some, hsecond]
  exact ⟨_, rfl, ⟨_, _, rfl, by rw [length_digits, hlength], between_digits (by omega) 0 _, hlow,
    hhigh⟩, hcast⟩

/-! ## Products -/

/-- A member of an array that is not out of bounds grows. -/
theorem accumulate_eq {t : Gf} {k : ℕ} {x y : ℤ} (ht : |limb t k| ≤ 2 ^ 60)
    (hxy : |x * y| ≤ 2 ^ 60) : accumulate t k x y = some (t.set k (limb t k + x * y)) := by
  have hmul : mulChecked x y = some (x * y) := checked_of_abs_le (by omega)
  have hadd : addChecked (limb t k) (x * y) = some (limb t k + x * y) := by
    apply checked_of_abs_le
    rw [abs_le] at *
    omega
  simp only [accumulate, hmul, hadd, Option.bind_eq_bind, Option.bind_some, Option.pure_def]

/-- A limb within the bound may be set. -/
theorem between_set {lo hi : ℤ} {t : Gf} {k : ℕ} {v : ℤ} (ht : MembersIn lo hi t)
    (hv : lo ≤ v ∧ v ≤ hi) : MembersIn lo hi (t.set k v) := by
  intro x hx
  rcases List.mem_or_eq_of_mem_set hx with hmem | rfl
  · exact ht x hmem
  · exact hv

/-- One more limb adds its value at its place. -/
theorem value_take_succ {b : Gf} {j : ℕ} (hj : j < b.length) :
    value 65536 (b.take (j + 1)) = value 65536 (b.take j) + 65536 ^ j * limb b j := by
  have hlimb : limb b j = b[j] := by
    rw [limb, List.getD_eq_getElem?_getD, List.getElem?_eq_getElem hj]
    rfl
  have hlength : (b.take j).length = j := by
    rw [List.length_take]
    omega
  rw [List.take_succ_eq_append_getElem hj, value_append, hlength, hlimb]
  simp

/-- A limb is bounded as all are. -/
theorem abs_limb_le {c : ℤ} {t : Gf} {k : ℕ} (ht : MembersIn (-c) c t) (hk : k < t.length) :
    |limb t k| ≤ c := abs_le_of_between ht (limb_mem hk)

/-- A row of the product: each column of it is touched once. -/
theorem row_spec {t b : Gf} {x n m : ℤ} {i : ℕ} (hlen : t.length = 31) (hb : b.length = 16)
    (hi : i < 16) (hn : 0 ≤ n) (hsum : n + m ≤ 2 ^ 60) (ht : MembersIn (-n) n t)
    (hx : ∀ j < 16, |x * limb b j| ≤ m) :
    ∃ t', (List.range 16).foldlM (fun t j => accumulate t (i + j) x (limb b j)) t = some t' ∧
      t'.length = 31 ∧ MembersIn (-(n + m)) (n + m) t' ∧
      value 65536 t' = value 65536 t + 65536 ^ i * x * value 65536 b := by
  have hm : 0 ≤ m := (abs_nonneg _).trans (hx 0 (by omega))
  have hloop := foldlM_range (n := 16) (b := t)
    (f := fun t j => accumulate t (i + j) x (limb b j))
    (fun j t' => t'.length = 31 ∧ MembersIn (-(n + m)) (n + m) t' ∧
      (∀ k < 31, i + j ≤ k → |limb t' k| ≤ n) ∧
      value 65536 t' = value 65536 t + 65536 ^ i * x * value 65536 (b.take j))
    ⟨hlen, MembersIn.mono ht (by omega) (by omega), fun k hk _ => abs_limb_le ht (by omega),
      by simp⟩ ?_
  · obtain ⟨t', ht', hlen', hbound, -, hvalue⟩ := hloop
    rw [List.take_of_length_le (by omega)] at hvalue
    exact ⟨t', ht', hlen', hbound, hvalue⟩
  · rintro j hj t' ⟨hlen', hbound, hrest, hvalue⟩
    have hlimb := hrest (i + j) (by omega) (le_refl _)
    have hprod := hx j hj
    have hnew : |limb t' (i + j) + x * limb b j| ≤ n + m := (abs_add_le _ _).trans (by omega)
    refine ⟨_, accumulate_eq (by omega) (by omega), ?_, ?_, ?_, ?_⟩
    · rw [List.length_set, hlen']
    · exact between_set hbound (abs_le.mp hnew)
    · intro k hk hge
      rw [limb_set_ne (by omega)]
      exact hrest k hk (by omega)
    · rw [limb, value_set 65536 (by omega), hvalue, value_take_succ (by omega), pow_add]
      ring

/-- The product before it is reduced. -/
theorem products_spec {a b : Gf} (ha : a.length = 16) (hb : b.length = 16)
    (hboundA : MembersIn (-2 ^ 18) (2 ^ 18) a) (hboundB : MembersIn (-2 ^ 18) (2 ^ 18) b) :
    ∃ t, products a b = some t ∧ t.length = 31 ∧ MembersIn (-2 ^ 40) (2 ^ 40) t ∧
      value 65536 t = value 65536 a * value 65536 b := by
  have hloop := foldlM_range (n := 16) (b := List.replicate 31 0)
    (f := fun t i =>
      (List.range 16).foldlM (fun t j => accumulate t (i + j) (limb a i) (limb b j)) t)
    (fun i t => t.length = 31 ∧ MembersIn (-(i * 2 ^ 36)) (i * 2 ^ 36) t ∧
      value 65536 t = value 65536 (a.take i) * value 65536 b)
    ⟨List.length_replicate, ?_, by simp⟩ ?_
  · obtain ⟨t, ht, hlen, hbound, hvalue⟩ := hloop
    rw [List.take_of_length_le (by omega)] at hvalue
    exact ⟨t, ht, hlen, MembersIn.mono hbound (by norm_num) (by norm_num), hvalue⟩
  · intro x hx
    have hzero := List.eq_of_mem_replicate hx
    simp [hzero]
  · rintro i hi t ⟨hlen, hbound, hvalue⟩
    have hrow := row_spec (x := limb a i) (m := 2 ^ 36) hlen hb hi (by positivity) (by omega)
      hbound ?_
    · obtain ⟨t', ht', hlen', hbound', hvalue'⟩ := hrow
      refine ⟨t', ht', hlen', MembersIn.mono hbound' ?_ ?_, ?_⟩
      · push_cast
        linarith
      · push_cast
        linarith
      · rw [hvalue', hvalue, value_take_succ (by omega)]
        ring
    · intro j hj
      have hx := abs_limb_le hboundA (k := i) (by omega)
      have hy := abs_limb_le hboundB (k := j) (by omega)
      rw [abs_mul]
      calc |limb a i| * |limb b j| ≤ 2 ^ 18 * 2 ^ 18 :=
            mul_le_mul hx hy (abs_nonneg _) (by norm_num)
        _ = 2 ^ 36 := by norm_num

/-- The upper words, times 38, go to the lower ones. -/
theorem fold_spec {t : Gf} (hlen : t.length = 31) (ht : MembersIn (-2 ^ 40) (2 ^ 40) t) :
    ∃ t', (List.range 15).foldlM (fun t i => accumulate t i 38 (limb t (i + 16))) t = some t' ∧
      t'.length = 31 ∧ MembersIn (-2 ^ 50) (2 ^ 50) t' ∧
      value 65536 (t'.take 16) = value 65536 (t.take 16) + 38 * value 65536 (t.drop 16) := by
  have hloop := foldlM_range (n := 15) (b := t)
    (f := fun t i => accumulate t i 38 (limb t (i + 16)))
    (fun i t' => t'.length = 31 ∧ MembersIn (-2 ^ 50) (2 ^ 50) t' ∧
      (∀ k < 31, i ≤ k → limb t' k = limb t k) ∧
      value 65536 (t'.take 16) =
        value 65536 (t.take 16) + 38 * value 65536 ((t.drop 16).take i))
    ⟨hlen, MembersIn.mono ht (by omega) (by omega), fun k _ _ => rfl, by simp⟩ ?_
  · obtain ⟨t', ht', hlen', hbound, -, hvalue⟩ := hloop
    rw [List.take_of_length_le (l := t.drop 16) (by simp [hlen])] at hvalue
    exact ⟨t', ht', hlen', hbound, hvalue⟩
  · rintro i hi t' ⟨hlen', hbound, hrest, hvalue⟩
    have hlow := abs_limb_le ht (k := i) (by omega)
    have hhigh := abs_limb_le ht (k := i + 16) (by omega)
    have hsame := hrest i (by omega) (le_refl _)
    have hupper := hrest (i + 16) (by omega) (by omega)
    have hdrop : limb (t.drop 16) i = limb t (i + 16) := by
      simp [limb, Nat.add_comm]
    have htake : limb (t'.take 16) i = limb t' i := by
      simp [limb, List.getElem?_take_of_lt (show i < 16 by omega)]
    have hnew : |limb t' i + 38 * limb t' (i + 16)| ≤ 2 ^ 50 := by
      rw [hsame, hupper]
      rw [abs_le] at *
      omega
    refine ⟨_, accumulate_eq ?_ ?_, ?_, ?_, ?_, ?_⟩
    · rw [hsame]
      omega
    · rw [hupper]
      rw [abs_le] at *
      omega
    · rw [List.length_set, hlen']
    · exact between_set hbound (abs_le.mp hnew)
    · intro k hk hge
      rw [limb_set_ne (by omega)]
      exact hrest k hk (by omega)
    · rw [List.take_set, ← htake, limb, value_set 65536 (by simp; omega), hvalue, hupper,
        value_take_succ (b := t.drop 16) (by simp; omega), hdrop]
      ring

/-! ## Elements of the field -/

/-- Sixteen words of absolute value up to `c` that stand for `x`. -/
structure Element (c : ℤ) (o : Gf) (x : F) : Prop where
  length : o.length = 16
  between : MembersIn (-c) c o
  cast : (value 65536 o : F) = x

/-- The bound of an element may be widened. -/
theorem Element.mono {c c' : ℤ} {o : Gf} {x : F} (ho : Element c o x) (h : c ≤ c') :
    Element c' o x :=
  ⟨ho.length, MembersIn.mono ho.between (by omega) h, ho.cast⟩

/-- The class may be replaced by one that is equal. -/
theorem Element.of_eq {c : ℤ} {o : Gf} {x y : F} (ho : Element c o x) (h : x = y) :
    Element c o y := h ▸ ho

/-- A reduced number stands for its class. -/
theorem Reduced.element {o : Gf} {x : F} (ho : Reduced o)
    (hx : (value 65536 o : F) = x) : Element (2 ^ 17) o x :=
  ⟨ho.length, ho.between, hx⟩

variable {a b : Gf} {x y : F}

/-- The multiplication, step by step. -/
theorem M_eq (a b : Gf) : M a b = (products a b).bind fun t =>
    ((List.range 15).foldlM (fun t i => accumulate t i 38 (limb t (i + 16))) t).bind fun t =>
      (car25519 (t.take 16)).bind car25519 := rfl

/-- **The product.** -/
theorem M_spec [Folds F] (ha : Element (2 ^ 18) a x) (hb : Element (2 ^ 18) b y) :
    ∃ o, M a b = some o ∧ Reduced o ∧ Element (2 ^ 17) o (x * y) := by
  obtain ⟨t, ht, hlen, hbound, hvalue⟩ :=
    products_spec ha.length hb.length ha.between hb.between
  obtain ⟨t', ht', hlen', hbound', hfold⟩ := fold_spec hlen hbound
  obtain ⟨o, ho, hreduced, hcast⟩ := car_car (F := F) (o := t'.take 16) (by simp [hlen'])
    (fun z hz => hbound' z (List.mem_of_mem_take hz))
  have hsplit := value_append 65536 (t.take 16) (t.drop 16)
  have hsixteen : (t.take 16).length = 16 := by simp [hlen]
  rw [List.take_append_drop, hsixteen, hvalue] at hsplit
  have hmul : (value 65536 o : F) = x * y := by
    rw [hcast, hfold, ← ha.cast, ← hb.cast, ← Int.cast_mul, hsplit, Int.cast_add, Int.cast_add,
      Int.cast_mul, Int.cast_mul, Int.cast_pow, Int.cast_ofNat, Int.cast_ofNat, Folds.pow_eq]
  refine ⟨o, ?_, hreduced, hreduced.element hmul⟩
  rw [M_eq, ht, Option.bind_some, ht', Option.bind_some, ho]

/-- `S` squares. -/
theorem S_spec [Folds F] (ha : Element (2 ^ 18) a x) :
    ∃ o, S a = some o ∧ Reduced o ∧ Element (2 ^ 17) o (x ^ 2) := by
  rw [sq]
  exact M_spec ha ha

/-- A loop over the limbs of two numbers. -/
theorem range_map_limb {f : ℤ → ℤ → ℤ} {a b : Gf} (ha : a.length = 16) (hb : b.length = 16) :
    ((List.range 16).map fun i => f (limb a i) (limb b i)) = List.zipWith f a b := by
  apply List.ext_getElem (by simp [ha, hb])
  intro i hi hi'
  have hlt : i < 16 := by simpa using hi
  simp [limb, List.getElem?_eq_getElem (show i < a.length by omega),
    List.getElem?_eq_getElem (show i < b.length by omega)]

/-- `A` adds without an overflow. -/
theorem A_spec {c c' : ℤ} (ha : Element c a x) (hb : Element c' b y) (hsum : c + c' ≤ 2 ^ 62) :
    ∃ o, A a b = some o ∧ Element (c + c') o (x + y) := by
  have hbound : ∀ i < 16, |limb a i + limb b i| ≤ c + c' := by
    intro i hi
    have hx := abs_limb_le ha.between (k := i) (by rw [ha.length]; exact hi)
    have hy := abs_limb_le hb.between (k := i) (by rw [hb.length]; exact hi)
    exact (abs_add_le _ _).trans (add_le_add hx hy)
  have hloop := mapM_of_forall (l := List.range 16)
    (f := fun i => addChecked (limb a i) (limb b i)) (g := fun i => limb a i + limb b i)
    fun i hi => checked_of_abs_le ((hbound i (List.mem_range.mp hi)).trans hsum)
  refine ⟨_, hloop, by simp, ?_, ?_⟩
  · intro z hz
    obtain ⟨i, hi, rfl⟩ := List.mem_map.mp hz
    exact abs_le.mp (hbound i (List.mem_range.mp hi))
  · rw [range_map_limb ha.length hb.length,
      value_zipWith_add 65536 (ha.length.trans hb.length.symm), Int.cast_add, ha.cast, hb.cast]

/-- `Z` subtracts without an overflow. -/
theorem Z_spec {c c' : ℤ} (ha : Element c a x) (hb : Element c' b y) (hsum : c + c' ≤ 2 ^ 62) :
    ∃ o, Z a b = some o ∧ Element (c + c') o (x - y) := by
  have hbound : ∀ i < 16, |limb a i - limb b i| ≤ c + c' := by
    intro i hi
    have hx := abs_limb_le ha.between (k := i) (by rw [ha.length]; exact hi)
    have hy := abs_limb_le hb.between (k := i) (by rw [hb.length]; exact hi)
    exact (abs_sub _ _).trans (add_le_add hx hy)
  have hloop := mapM_of_forall (l := List.range 16)
    (f := fun i => subChecked (limb a i) (limb b i)) (g := fun i => limb a i - limb b i)
    fun i hi => checked_of_abs_le ((hbound i (List.mem_range.mp hi)).trans hsum)
  refine ⟨_, hloop, by simp, ?_, ?_⟩
  · intro z hz
    obtain ⟨i, hi, rfl⟩ := List.mem_map.mp hz
    exact abs_le.mp (hbound i (List.mem_range.mp hi))
  · rw [range_map_limb ha.length hb.length,
      value_zipWith_sub 65536 (ha.length.trans hb.length.symm), Int.cast_sub, ha.cast, hb.cast]

/-! ## The inverse -/

/-- The exponent that the loop of `inv25519` reaches from `e`. -/
def invExponent : ℕ → ℕ → ℕ
  | 0, e => e
  | a + 1, e => invExponent a (if a ≠ 2 ∧ a ≠ 4 then 2 * e + 1 else 2 * e)

/-- The loop of the inversion raises to its exponent. -/
theorem invLoop_spec [Folds F] (hx : Element (2 ^ 17) a x) (n e : ℕ) {c : Gf}
    (hc : Element (2 ^ 17) c (x ^ e)) :
    ∃ o, invLoop a n c = some o ∧ Element (2 ^ 17) o (x ^ invExponent n e) := by
  induction n generalizing c e with
  | zero => exact ⟨c, rfl, hc⟩
  | succ n ih =>
    obtain ⟨s, hs, -, helement⟩ := S_spec (hc.mono (by omega))
    rw [← pow_mul, Nat.mul_comm] at helement
    simp only [invLoop, hs, Option.bind_eq_bind, Option.bind_some, invExponent]
    by_cases hn : n ≠ 2 ∧ n ≠ 4
    · obtain ⟨m, hm, -, hproduct⟩ := M_spec (helement.mono (by omega)) (hx.mono (by omega))
      rw [if_pos hn, if_pos hn, hm, Option.bind_some]
      exact ih _ (hproduct.of_eq (pow_succ x (2 * e)).symm)
    · rw [if_neg hn, if_neg hn]
      exact ih _ helement

/-- The exponent is that of Fermat's inverse. -/
theorem invExponent_eq : invExponent 254 1 = 2 ^ 255 - 21 := by
  decide +kernel

/-- `inv25519` inverts, by a power. -/
theorem inv25519_spec [Folds F] (hx : Element (2 ^ 17) a x) :
    ∃ o, inv25519 a = some o ∧ Element (2 ^ 17) o (x ^ (2 ^ 255 - 21)) := by
  have hloop := invLoop_spec hx 254 1 (hx.of_eq (pow_one x).symm)
  rwa [invExponent_eq] at hloop

end XboxTls.Analysis
