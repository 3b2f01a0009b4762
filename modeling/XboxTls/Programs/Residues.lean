import Mathlib.FieldTheory.Finite.Basic
import XboxTls.Programs.Limbs

/-!
# Residues in limbs

Limbs below a modulus stand for the residues of its ring, and the routines on limbs for the
operations of the ring.  When the modulus is a prime, a power is the inverse.
-/

set_option autoImplicit false

namespace Programs

open Limbs

variable {p : ℕ} {m a b : Limbs} {x y : ZMod p}

/-- The limbs of the modulus. -/
structure Modulus (p : ℕ) (m : Limbs) : Prop where
  normal : Normal m
  value_eq : value m = p

/-- Limbs below the modulus that stand for `x`. -/
structure Residue (m a : Limbs) (x : ZMod p) : Prop where
  below : Below m a
  cast : (value a : ZMod p) = x

/-- The class may be replaced by one that is equal. -/
theorem Residue.of_eq (ha : Residue m a x) (h : x = y) : Residue m a y := h ▸ ha

/-- A number below the modulus stands for its class. -/
theorem residue_of_lt (hm : Modulus p m) (ha : Normal a) (h : value a < p) :
    Residue m a (value a : ZMod p) :=
  ⟨⟨ha, by rwa [hm.value_eq]⟩, rfl⟩

/-- The number is the least one that stands for the residue. -/
theorem Residue.val (hm : Modulus p m) (ha : Residue m a x) : x.val = value a := by
  have hlt := ha.below.lt
  rw [hm.value_eq] at hlt
  rw [← ha.cast, ZMod.val_natCast, Nat.mod_eq_of_lt hlt]

/-- The sum stands for the sum of the classes. -/
theorem Residue.add (hm : Modulus p m) (ha : Residue m a x) (hb : Residue m b y) :
    Residue m (addMod a b m) (x + y) := by
  obtain ⟨hbelow, hvalue⟩ := below_addMod hm.normal ha.below hb.below
  refine ⟨hbelow, ?_⟩
  rw [hvalue, hm.value_eq, ZMod.natCast_mod, Nat.cast_add, ha.cast, hb.cast]

/-- The difference stands for the difference of the classes. -/
theorem Residue.sub (hm : Modulus p m) (ha : Residue m a x) (hb : Residue m b y) :
    Residue m (subMod a b m) (x - y) := by
  obtain ⟨hbelow, hvalue⟩ := below_subMod ha.below hb.below
  refine ⟨hbelow, eq_sub_of_add_eq ?_⟩
  rw [hm.value_eq] at hvalue
  rw [← ha.cast, ← hb.cast, ← Nat.cast_add, ← hvalue, ZMod.natCast_mod]

/-- The product stands for the product of the classes. -/
theorem Residue.mul (hm : Modulus p m) (ha : Residue m a x) (hb : Residue m b y) :
    Residue m (mulMod a b m) (x * y) := by
  obtain ⟨hbelow, hvalue⟩ := below_mulMod hm.normal ha.below hb.below.normal
  refine ⟨hbelow, ?_⟩
  rw [hvalue, hm.value_eq, ZMod.natCast_mod, Nat.cast_mul, ha.cast, hb.cast]

/-- One stands for one. -/
theorem residue_one (hm : Modulus p m) (hp : 1 < p) : Residue m [1] (1 : ZMod p) := by
  rw [← hm.value_eq] at hp
  exact ⟨below_one hp, by simp⟩

/-- The power stands for the power of the class. -/
theorem Residue.pow (hm : Modulus p m) (hp : 1 < p) (ha : Residue m a x) {e : Limbs}
    (he : Normal e) : Residue m (powBitsLoop e m (bits e) 0 [1] a) (x ^ value e) := by
  have hone := residue_one hm hp
  obtain ⟨hbelow, hvalue⟩ :=
    below_powBitsLoop (e := e) hm.normal (bits e) 0 hone.below ha.below
  refine ⟨hbelow, ?_⟩
  rw [hvalue, hm.value_eq, ZMod.natCast_mod, Nat.cast_mul, Nat.cast_pow, hone.cast, ha.cast,
    one_mul, bits_eq_size he, pow_zero, Nat.div_one, Nat.mod_eq_of_lt (Nat.lt_size_self _)]

/-- The power to `p - 2` is the inverse. -/
theorem Residue.inv [Fact p.Prime] (hm : Modulus p m) (ha : Residue m a x) {e : Limbs}
    (he : Normal e) (hvalue : value e = p - 2) (hx : x ≠ 0) :
    Residue m (powBitsLoop e m (bits e) 0 [1] a) x⁻¹ := by
  have hp := (Fact.out : p.Prime).two_le
  apply (ha.pow hm hp he).of_eq
  have hone : x ^ (p - 2) * x = 1 := by
    rw [← pow_succ, show p - 2 + 1 = p - 1 by omega]
    exact ZMod.pow_card_sub_one_eq_one hx
  rw [hvalue]
  exact eq_inv_of_mul_eq_one_left hone

/-- Limbs are compared as the residues. -/
theorem Residue.cmp_eq_zero (hm : Modulus p m) (ha : Residue m a x) (hb : Residue m b y) :
    Limbs.cmp a b = 0 ↔ x = y := by
  rw [Limbs.cmp_eq_zero ha.below.normal hb.below.normal, ← ha.val hm, ← hb.val hm]
  constructor
  · intro h
    have hpos : 0 < p := by
      rw [← hm.value_eq]
      exact ha.below.value_pos
    have : NeZero p := ⟨hpos.ne'⟩
    exact ZMod.val_injective p h
  · rintro rfl
    rfl

/-- No limbs stand for zero only. -/
theorem Residue.eq_nil (hm : Modulus p m) (ha : Residue m a x) : a = [] ↔ x = 0 := by
  rw [← ha.below.normal.value_eq_zero, ← ha.val hm, ZMod.val_eq_zero]

end Programs
