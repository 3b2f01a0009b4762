import XboxTls.Interface.WordNumbers

/-!
# The multi-word numbers are exact

A trimmed array holds normal limbs, and an array that holds normal limbs is trimmed.  The routines
on arrays follow those on limbs without a fault, and these are exact below the modulus.
-/

set_option autoImplicit false

namespace XboxTls.Analysis

open Programs XboxTls.Model XboxTls.Interface

variable {cap : ℕ} {a : WordArray cap} {l : Limbs}

/-! ## Arrays and limbs -/

/-- The limbs of an array. -/
def limbsOf (a : WordArray cap) : Limbs := a.w.val.take a.n

/-- There are as many limbs as words in use. -/
theorem length_limbsOf (h : a.n ≤ cap) : (limbsOf a).length = a.n := by
  unfold limbsOf
  rw [List.length_take, a.w.property, Nat.min_eq_left h]

/-- The words in use are the limbs. -/
theorem uses_limbsOf (h : a.n ≤ cap) : a.Uses (limbsOf a) :=
  ⟨⟨a.w.val.drop a.n, (List.take_append_drop _ _).symm⟩, (length_limbsOf h).symm⟩

/-- A trimmed array holds its limbs. -/
theorem holds_limbsOf (h : Trimmed a) : a.Holds (limbsOf a) := by
  have hlen := length_limbsOf h.count_le
  refine ⟨?_, hlen.symm⟩
  conv_lhs => rw [← List.take_append_drop a.n a.w.val]
  rw [hlen]
  congr 1
  rw [List.eq_replicate_iff]
  refine ⟨by rw [List.length_drop, a.w.property], fun x hx => ?_⟩
  obtain ⟨i, hi, rfl⟩ := List.mem_iff_getElem.mp hx
  have hzero := h.higher (a.n + i) (Nat.le_add_right _ _)
  rw [List.length_drop] at hi
  rwa [List.getD_eq_getElem?_getD, List.getElem?_eq_getElem (by omega), Option.getD_some,
    ← List.getElem_drop] at hzero

/-- The limbs of a trimmed array are normal. -/
theorem normal_limbsOf (h : Trimmed a) : Limbs.Normal (limbsOf a) := by
  have hlen := length_limbsOf h.count_le
  intro x hx
  rw [List.getLast?_eq_getElem?, hlen] at hx
  cases hn : a.n with
  | zero =>
    have hnil : limbsOf a = [] := List.length_eq_zero_iff.mp (hlen.trans hn)
    rw [hnil] at hx
    cases hx
  | succ i =>
    have hlast := h.last i hn
    rw [hn, Nat.add_sub_cancel] at hx
    unfold limbsOf at hx
    rw [List.getElem?_take_of_lt (by omega)] at hx
    rwa [List.getD_eq_getElem?_getD, hx, Option.getD_some] at hlast

/-- The limbs that an array holds are its limbs. -/
theorem limbsOf_holds (h : a.Holds l) : limbsOf a = l := by
  unfold limbsOf
  rw [h.words, h.count, List.take_left]

/-- An array that holds normal limbs is trimmed. -/
theorem trimmed_of_holds (h : a.Holds l) (hl : Limbs.Normal l) : Trimmed a := by
  have hget : ∀ i, a.w.val.getD i 0 = l.getD i 0 := by
    intro i
    rw [h.words, WordArray.getD_append_zeros]
  refine ⟨h.count.trans_le h.length_le, fun i hi => ?_, fun i hi => ?_⟩
  · have hlast : l.getLast? = some (l.getD i 0) := by
      have hlen : l.length = i + 1 := h.count.symm.trans hi
      rw [List.getLast?_eq_getElem?, hlen, Nat.add_sub_cancel, List.getD_eq_getElem?_getD,
        List.getElem?_eq_getElem (by omega), Option.getD_some]
    rw [hget]
    exact hl _ hlast
  · rw [hget, List.getD_eq_getElem?_getD, List.getElem?_eq_none (h.count ▸ hi)]
    rfl

/-! ## The modulus and numbers below it -/

variable (M : WordModulus cap)

/-- A modulus leaves a word free. -/
theorem length_modulus_lt : (limbsOf M.m).length < cap := by
  have hne : limbsOf M.m ≠ [] := by
    intro hnil
    have hone : 1 < Limbs.value (limbsOf M.m) := M.one_lt
    rw [hnil] at hone
    exact absurd hone (by decide)
  have hlow := (normal_limbsOf M.trimmed).pow_le hne
  have hlt : Limbs.value (limbsOf M.m) < (2 ^ 32) ^ (cap - 1) := by
    rw [← pow_mul]
    exact M.lt
  have hpow := (Nat.pow_lt_pow_iff_right (by omega)).mp (hlow.trans_lt hlt)
  omega

/-- An operand lies below the modulus. -/
theorem below_operand (a : M.Operand) : Limbs.Below (limbsOf M.m) (limbsOf a.a) :=
  ⟨normal_limbsOf a.trimmed, a.lt⟩

/-- What follows a routine on limbs. -/
theorem exactly_of_returns {x : Infallible (WordArray cap)} {z : ℤ}
    (hx : WordArray.Returns x l) (hl : Limbs.Below (limbsOf M.m) l)
    (hz : (Limbs.value l : ℤ) ≡ z [ZMOD number M.m]) : Exactly M x z := by
  obtain ⟨r, rfl, hr⟩ := hx
  have hnumber : number r = Limbs.value l := congrArg Limbs.value (limbsOf_holds hr)
  have hlt : number r < number M.m := hnumber.trans_lt hl.lt
  refine ⟨r, rfl, trimmed_of_holds hr hl.normal, hlt, ?_⟩
  have hsame := hz.eq
  rwa [← hnumber, Int.emod_eq_of_lt (Int.natCast_nonneg _) (Int.ofNat_lt.mpr hlt)] at hsame

variable {M}

/-- The addition is exact. -/
theorem exactly_addMod (a b : M.Operand) :
    Exactly M (WordArray.addMod a.a b.a M.m) (number a.a + number b.a) := by
  obtain ⟨hbelow, hvalue⟩ := Limbs.below_addMod (normal_limbsOf M.trimmed) (below_operand M a)
    (below_operand M b)
  apply exactly_of_returns M ((holds_limbsOf a.trimmed).addMod (length_modulus_lt M)
    (holds_limbsOf b.trimmed) (holds_limbsOf M.trimmed)) hbelow
  rw [hvalue]
  push_cast
  exact Int.mod_modEq _ _

/-- The subtraction is exact. -/
theorem exactly_subMod (a b : M.Operand) :
    Exactly M (WordArray.subMod a.a b.a M.m) (number a.a - number b.a) := by
  obtain ⟨hbelow, hvalue⟩ := Limbs.below_subMod (below_operand M a) (below_operand M b)
  apply exactly_of_returns M ((holds_limbsOf a.trimmed).subMod (holds_limbsOf b.trimmed)
    (holds_limbsOf M.trimmed)) hbelow
  have hback : ((Limbs.value (Limbs.subMod (limbsOf a.a) (limbsOf b.a) (limbsOf M.m)) +
      number b.a : ℕ) : ℤ) ≡ number a.a [ZMOD number M.m] := by
    rw [Int.natCast_modEq_iff]
    exact hvalue.trans (Nat.mod_eq_of_lt a.lt).symm
  push_cast at hback
  exact Int.ModEq.trans (by rw [add_sub_cancel_right]) (hback.sub_right (number b.a))

/-- The multiplication is exact. -/
theorem exactly_mulMod (a b : M.Operand) :
    Exactly M (WordArray.mulMod a.a b.a M.m) (number a.a * number b.a) := by
  obtain ⟨hbelow, hvalue⟩ := Limbs.below_mulMod (normal_limbsOf M.trimmed) (below_operand M a)
    (normal_limbsOf b.trimmed)
  apply exactly_of_returns M ((holds_limbsOf a.trimmed).mulMod (length_modulus_lt M)
    (holds_limbsOf b.trimmed).uses (holds_limbsOf M.trimmed)) hbelow
  rw [hvalue]
  push_cast
  exact Int.mod_modEq _ _

/-- The power by a number is exact. -/
theorem exactly_powBits (a : M.Operand) (e : Exponent cap) :
    Exactly M (WordArray.powBits a.a e.e M.m) (number a.a ^ number e.e) := by
  have hone := Limbs.below_one (show 1 < Limbs.value (limbsOf M.m) from M.one_lt)
  obtain ⟨hbelow, hvalue⟩ := Limbs.below_powBitsLoop (e := limbsOf e.e)
    (normal_limbsOf M.trimmed) (Limbs.bits (limbsOf e.e)) 0 hone (below_operand M a)
  apply exactly_of_returns M ((holds_limbsOf a.trimmed).powBits (length_modulus_lt M)
    (uses_limbsOf e.count_le) (holds_limbsOf M.trimmed)) hbelow
  have hvalue' : Limbs.value (limbsOf e.e) / 2 ^ 0 % 2 ^ Limbs.bits (limbsOf e.e) = number e.e := by
    rw [pow_zero, Nat.div_one]
    exact Nat.mod_eq_of_lt (Limbs.value_lt_two_pow_bits _)
  rw [hvalue, hvalue', Limbs.value_cons, Limbs.value_nil]
  push_cast
  rw [one_mul]
  exact Int.mod_modEq _ _

/-- The power by a word is exact. -/
theorem exactly_powWord (a : M.Operand) (e : UInt32) :
    Exactly M (WordArray.powWord a.a e M.m) (number a.a ^ e.toNat) := by
  have hone := Limbs.below_one (show 1 < Limbs.value (limbsOf M.m) from M.one_lt)
  obtain ⟨hbelow, hvalue⟩ := Limbs.below_powLoop (normal_limbsOf M.trimmed) 32 e.toNat_lt hone
    (below_operand M a)
  apply exactly_of_returns M ((holds_limbsOf a.trimmed).powWord (length_modulus_lt M) e
    (holds_limbsOf M.trimmed)) hbelow
  rw [hvalue, Limbs.value_cons, Limbs.value_nil]
  push_cast
  rw [one_mul]
  exact Int.mod_modEq _ _

/-! ## The two files -/

/-- A routine that returns normal limbs returns a trimmed array. -/
theorem trimmed_of_returns {x : Infallible (WordArray cap)} (hx : WordArray.Returns x l)
    (hl : Limbs.Normal l) : ∃ r, x = pure r ∧ Trimmed r := by
  obtain ⟨r, rfl, hr⟩ := hx
  exact ⟨r, rfl, trimmed_of_holds hr hl⟩

/-- The limbs of a word are normal. -/
theorem normal_word (v : UInt32) : Limbs.Normal (if v ≠ 0 then [v] else []) := by
  by_cases hv : v = 0
  · rw [if_neg (not_not.mpr hv)]
    exact Limbs.normal_nil
  · rw [if_pos hv]
    intro w hw
    cases hw
    exact hv

/-- **The arithmetic of both files is exact**, on numbers as their readers make them. -/
theorem wordArithmetic_exact :
    (∀ (M : WordModulus 9) (a b : M.Operand) (e : Exponent 9),
      Exactly M (N256.addm a.a b.a M.m) (number a.a + number b.a) ∧
        Exactly M (N256.subm a.a b.a M.m) (number a.a - number b.a) ∧
        Exactly M (N256.mulm a.a b.a M.m) (number a.a * number b.a) ∧
        Exactly M (N256.powm a.a e.e M.m) (number a.a ^ number e.e)) ∧
    (∀ (M : WordModulus (RsaVerify.maxWords + 1)) (a b : M.Operand) (e : UInt32),
      Exactly M (RsaNat.addMod a.a b.a M.m) (number a.a + number b.a) ∧
        Exactly M (RsaNat.mulMod a.a b.a M.m) (number a.a * number b.a) ∧
        Exactly M (RsaNat.powU32Mod a.a e M.m) (number a.a ^ e.toNat)) ∧
    ∀ (s : Bytes) (v : UInt32), (∃ r, N256.be s = pure r ∧ Trimmed r) ∧
      (∃ r, N256.small v = pure r ∧ Trimmed r) ∧ ∃ r, RsaNat.fromBe s = pure r ∧ Trimmed r := by
  refine ⟨fun M a b e => ?_, fun M a b e => ?_, fun s v => ?_⟩
  · exact ⟨exactly_addMod a b, exactly_subMod a b, exactly_mulMod a b, exactly_powBits a e⟩
  · exact ⟨exactly_addMod a b, exactly_mulMod a b, exactly_powWord a e⟩
  · refine ⟨?_, ?_, ?_⟩
    · exact trimmed_of_returns (WordArray.returns_fromOctets (by decide) s)
        (Limbs.normal_fromOctets 8 s)
    · exact trimmed_of_returns (WordArray.returns_ofWord (by decide) v) (normal_word v)
    · exact trimmed_of_returns (WordArray.returns_fromOctets (by decide) s)
        (Limbs.normal_fromOctets _ s)

/-! ## Two words -/

/-- Limbs with zeros behind them fill the array. -/
theorem length_append_zeros (h : l.length ≤ cap) :
    (l ++ List.replicate (cap - l.length) (0 : UInt32)).length = cap := by
  rw [List.length_append, List.length_replicate]
  omega

/-- The array that holds the limbs. -/
def arrayOf (l : Limbs) (h : l.length ≤ cap) : WordArray cap where
  w := ⟨l ++ List.replicate (cap - l.length) 0, length_append_zeros h⟩
  n := l.length

/-- It is trimmed if they are normal. -/
theorem trimmed_arrayOf (h : l.length ≤ cap) (hl : Limbs.Normal l) : Trimmed (arrayOf l h) :=
  trimmed_of_holds ⟨rfl, rfl⟩ hl

/-- It stands for their number. -/
theorem number_arrayOf (h : l.length ≤ cap) : number (arrayOf l h) = Limbs.value l :=
  congrArg Limbs.value (limbsOf_holds ⟨rfl, rfl⟩)

/-- A number that leaves a word of the array free. -/
theorem number_arrayOf_lt (h : l.length < cap) :
    number (arrayOf l h.le) < 2 ^ (32 * (cap - 1)) := by
  rw [number_arrayOf, pow_mul]
  exact (Limbs.value_lt l).trans_le (Nat.pow_le_pow_right (Nat.two_pow_pos 32) (by omega))

/-- A modulus from its limbs. -/
def modulusOf (l : Limbs) (h : l.length < cap) (hl : Limbs.Normal l) (hone : 1 < Limbs.value l) :
    WordModulus cap where
  m := arrayOf l h.le
  trimmed := trimmed_arrayOf h.le hl
  one_lt := hone.trans_eq (number_arrayOf h.le).symm
  lt := number_arrayOf_lt h

/-- An operand from its limbs. -/
def operandOf {M : WordModulus cap} (l : Limbs) (h : l.length ≤ cap) (hl : Limbs.Normal l)
    (hlt : Limbs.value l < number M.m) : M.Operand where
  a := arrayOf l h
  trimmed := trimmed_arrayOf h hl
  lt := (number_arrayOf h).trans_lt hlt

/-- An operand as an exponent. -/
def exponentOf {M : WordModulus cap} (a : M.Operand) : Exponent cap := ⟨a.a, a.trimmed.count_le⟩

/-- Limbs with a last one that is not zero are normal. -/
theorem normal_of_getLast {x : UInt32} (h : l.getLast? = some x) (hx : x ≠ 0) :
    Limbs.Normal l := by
  intro y hy
  rw [h, Option.some.injEq] at hy
  exact hy ▸ hx

/-- The limbs of `2 ^ 32 + 15`, of the number before it and of five. -/
theorem normal_twoWord :
    Limbs.Normal [15, 1] ∧ Limbs.Normal [14, 1] ∧ Limbs.Normal [5] :=
  ⟨normal_of_getLast rfl (by decide), normal_of_getLast rfl (by decide),
    normal_of_getLast rfl (by decide)⟩

/-- The numbers of these limbs. -/
theorem value_twoWord : Limbs.value [15, 1] = 4294967311 ∧ Limbs.value [14, 1] = 4294967310 ∧
    Limbs.value [5] = 5 := by
  decide

/-- The modulus is above one, and both operands lie below it. -/
theorem value_twoWord_lt : 1 < Limbs.value [15, 1] ∧
    Limbs.value [14, 1] < Limbs.value [15, 1] ∧ Limbs.value [5] < Limbs.value [15, 1] := by
  decide

/-- The modulus `2 ^ 32 + 15`. -/
def twoWordModulus (h : 2 < cap) : WordModulus cap :=
  modulusOf [15, 1] h normal_twoWord.1 value_twoWord_lt.1

/-- The modulus as a number. -/
theorem number_twoWordModulus (h : 2 < cap) :
    number (twoWordModulus h).m = Limbs.value [15, 1] := number_arrayOf h.le

/-- Minus one, which fills two words. -/
def minusOne (h : 2 < cap) : (twoWordModulus h).Operand :=
  operandOf [14, 1] h.le normal_twoWord.2.1
    (value_twoWord_lt.2.1.trans_eq (number_twoWordModulus h).symm)

/-- Minus one as a number. -/
theorem number_minusOne (h : 2 < cap) : number (minusOne h).a = 4294967310 :=
  (show number (minusOne h).a = Limbs.value [14, 1] from number_arrayOf h.le).trans
    value_twoWord.2.1

/-- Five, which fills one. -/
def five (h : 2 < cap) : (twoWordModulus h).Operand :=
  operandOf [5] (Nat.one_le_of_lt h) normal_twoWord.2.2
    (value_twoWord_lt.2.2.trans_eq (number_twoWordModulus h).symm)

/-- Five as a number. -/
theorem number_five (h : 2 < cap) : number (five h).a = 5 :=
  (show number (five h).a = Limbs.value [5] from number_arrayOf (Nat.one_le_of_lt h)).trans
    value_twoWord.2.2

/-- An array of `p256_verify.cpp` is longer than two words. -/
theorem two_lt_nine : 2 < 9 := by decide

/-- An array of `rsa_verify.cpp` is longer still. -/
theorem two_lt_maxWords : 2 < RsaVerify.maxWords + 1 := by decide

/-- Sums, products and powers modulo `2 ^ 32 + 15`, in the arrays of both files. -/
theorem wordArithmetic_exact_twoWord :
    (Exactly (twoWordModulus two_lt_nine)
        (N256.addm (minusOne two_lt_nine).a (five two_lt_nine).a (twoWordModulus two_lt_nine).m)
        (4294967310 + 5) ∧
      Exactly (twoWordModulus two_lt_nine)
        (N256.subm (five two_lt_nine).a (minusOne two_lt_nine).a (twoWordModulus two_lt_nine).m)
        (5 - 4294967310) ∧
      Exactly (twoWordModulus two_lt_nine)
        (N256.mulm (minusOne two_lt_nine).a (five two_lt_nine).a (twoWordModulus two_lt_nine).m)
        (4294967310 * 5) ∧
      Exactly (twoWordModulus two_lt_nine)
        (N256.powm (minusOne two_lt_nine).a (five two_lt_nine).a (twoWordModulus two_lt_nine).m)
        (4294967310 ^ 5)) ∧
    Exactly (twoWordModulus two_lt_maxWords)
        (RsaNat.addMod (minusOne two_lt_maxWords).a (five two_lt_maxWords).a
          (twoWordModulus two_lt_maxWords).m) (4294967310 + 5) ∧
      Exactly (twoWordModulus two_lt_maxWords)
        (RsaNat.mulMod (minusOne two_lt_maxWords).a (five two_lt_maxWords).a
          (twoWordModulus two_lt_maxWords).m) (4294967310 * 5) ∧
      Exactly (twoWordModulus two_lt_maxWords)
        (RsaNat.powU32Mod (minusOne two_lt_maxWords).a 3 (twoWordModulus two_lt_maxWords).m)
        (4294967310 ^ 3) := by
  obtain ⟨hecdsa, hrsa, -⟩ := wordArithmetic_exact
  have hleft := hecdsa _ (minusOne two_lt_nine) (five two_lt_nine) (exponentOf (five two_lt_nine))
  have hright := hecdsa _ (five two_lt_nine) (minusOne two_lt_nine) (exponentOf (five two_lt_nine))
  have hword := hrsa _ (minusOne two_lt_maxWords) (five two_lt_maxWords) 3
  have hexponent : number (exponentOf (five two_lt_nine)).e = 5 := number_five two_lt_nine
  rw [number_minusOne, number_five] at hleft hright hword
  rw [hexponent] at hleft
  exact ⟨⟨hleft.1, hright.2.1, hleft.2.2.1, hleft.2.2.2⟩, hword⟩

end XboxTls.Analysis
